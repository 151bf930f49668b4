import Claudebase.Base.Json
import Claudebase.Base.Run
import Claudebase.Pool.Db

/-!
# What callers do to the pool

`src/daemon/pool.rs:128–166,235–810`. Each function is one call under the daemon's single
writer. The clock, the host's files and the digest that names a job's directory come from
outside; a call that fails changes nothing, since its files are written before its rows.
-/

namespace Claudebase.Pool
open Claudebase.Base

/-! ### Bounds -/

/-- `DEFAULT_TIMEOUT_MS`. -/
def defaultTimeoutMs : Int := 480000

/-- `MAX_TIMEOUT_MS`. -/
def maxTimeoutMs : Int := 900000

/-- `KEEP_AFTER_READ_MS`. -/
def keepAfterReadMs : Int := 600000

/-- `KEEP_UNREAD_MS`. -/
def keepUnreadMs : Int := 86400000

/-- `LOST_GRACE_MS`. -/
def lostGraceMs : Int := 15000

/-- `CLEAR_TIMEOUT_MS`. -/
def clearTimeoutMs : Int := 60000

/-- `check_name`, `src/daemon/pool.rs:128`. -/
def checkName (what s : String) (maxLen : Nat) (extra : List Char) : Except String Unit :=
  let known := String.ofList extra
  require (s ≠ "" ∧ s.utf8ByteSize ≤ maxLen ∧
    s.toList.all (fun c ↦ c.isAlphanum || c == '-' || c == '_' || extra.contains c))
    s!"{what} must be 1-{maxLen} characters of [a-zA-Z0-9_-{known}]"

/-- `check_pool`. -/
def checkPool (pool : String) : Except String Unit := checkName "a pool name" pool 64 []

/-- `check_req_id`. -/
def checkReqId (reqId : String) : Except String Unit := checkName "req_id" reqId 128 ['.', ':']

/-! ### Membership -/

/-- `join`, `src/daemon/pool.rs:158`. -/
def join (db : Db) (agentId pool : String) (capacity now : Int) : Except String (Unit × Db) := do
  checkPool pool
  let capacity := max 1 (min capacity 16)
  match db.member? agentId with
  | some _ => return ((), db.updateMember agentId (fun m ↦ { m with pool, capacity }) fun _ ↦ rfl)
  | none =>
    let row : Member := ⟨agentId, pool, capacity, false, now, none, none, none⟩
    return ((), { db with poolMembers := db.poolMembers.insertOrIgnore row })

/-- A member that is trusted again. -/
def Member.trusted (m : Member) : Member := { m with suspect := false, suspectSince := none }

@[simp] theorem Member.agentId_trusted (m : Member) : m.trusted.agentId = m.agentId := rfl

/-- A worker that answers is trusted again. -/
def trust (db : Db) (agentId : String) : Db :=
  db.updateMember agentId Member.trusted Member.agentId_trusted

/-- `worker_ready`, `src/daemon/pool.rs:592`. -/
def workerReady (db : Db) (agentId : String) : Except String (Unit × Db) := do
  require (db.member? agentId).isSome
    "this session is not a pool worker (start it with claudebase run --pool <name>)"
  return ((), trust db agentId)

/-! ### Jobs as the gateway sees them -/

/-- Dispatching the same request again gives it another worker only when it was lost. -/
def Job.retryable (j : Job) : Bool :=
  j.state == .expired || (j.state == .failed && j.error == some "worker_lost")

/-- `is_final`. -/
def JobState.isFinal : JobState → Bool
  | .leased => false
  | .done | .failed | .expired | .cancelled => true

/-- The answer about a job; `src/daemon/pool.rs:261`. Its result is the text that was stored. -/
structure JobView where
  reqId : String
  state : JobState
  worker : String
  workerId : String
  expiresAtMs : Int
  callType : Option String
  attempts : Int
  retryable : Bool
  durationMs : Option Int
  result : Option String
  error : Option String
  message : Option String
  deriving DecidableEq, Repr

/-- `job_json` of one row. -/
def viewOf (db : Db) (j : Job) : JobView where
  reqId := j.reqId
  state := j.state
  worker := db.nickOf j.worker
  workerId := j.worker
  expiresAtMs := j.expiresAt
  callType := j.callType
  attempts := j.attempts
  retryable := j.retryable
  durationMs := j.finishedAt.map fun f ↦ f - j.createdAt
  result := j.result
  error := j.error
  message := j.message

/-- `read_job`: a final state read for the first time starts its retention clock. -/
def readJob (db : Db) (reqId : String) (now : Int) : Option JobView × Db :=
  match db.job? reqId with
  | none => (none, db)
  | some j =>
    (some (viewOf db j),
      if j.state.isFinal then
        db.updateJob reqId (fun j ↦ { j with firstReadAt := j.firstReadAt.or (some now) })
          fun _ ↦ rfl
      else db)

/-! ### Dispatch -/

/-- An image to store with a job. -/
structure Image where
  ext : String
  mime : String
  bytes : List UInt8

/-- The host's side of a call: files to read, base64, and writing the job's directory. -/
structure Host where
  jobDir : String → String
  readFile : String → Except String (List UInt8)
  decodeBase64 : String → Option (List UInt8)
  writeJob : String → Json → List Image → Except String Unit

/-- `ext_for`. -/
def extFor (mime : String) : String :=
  if mime = "image/jpeg" ∨ mime = "image/jpg" then "jpg"
  else if mime = "image/png" then "png"
  else if mime = "image/webp" then "webp"
  else if mime = "image/gif" then "gif"
  else "bin"

/-- `mime_for`. -/
def mimeFor (path : String) : String :=
  let lower := path.map Char.toLower
  if lower.endsWith ".jpg" || lower.endsWith ".jpeg" then "image/jpeg"
  else if lower.endsWith ".png" then "image/png"
  else if lower.endsWith ".webp" then "image/webp"
  else if lower.endsWith ".gif" then "image/gif"
  else "application/octet-stream"

/-- One element of `images`: a path on the host, or base64 with a type. -/
def readImage (host : Host) (i : Nat) (img : Json) : Except String Image := do
  let (mime, bytes) ← match img.str? "path", img.str? "base64" with
    | some path, _ => do
      let bytes ← host.readFile path
      pure ((img.str? "mime").getD (mimeFor path), bytes)
    | none, some b64 =>
      match host.decodeBase64 b64 with
      | some bytes => pure ((img.str? "mime").getD "image/jpeg", bytes)
      | none => throw s!"images[{i}]: base64 does not decode"
    | none, none => throw s!"images[{i}] needs `path` or `base64`"
  require (mime.startsWith "image/") s!"images[{i}]: `{mime}` is not an image type"
  return ⟨extFor mime, mime, bytes⟩

/-- `read_images`, `src/daemon/pool.rs:351`. -/
def readImages (host : Host) (v : Json) : Except String (List Image) :=
  v.items.zipIdx.mapM fun (img, i) ↦ readImage host i img

/-- What a dispatch answers; `src/daemon/pool.rs:373`. -/
inductive Dispatched where
  | leased (job : JobView) (worker line : String)
  | existing (job : JobView)
  | noFreeWorker (free busy : Nat)
  | workerBusy (state : WorkerState) (reqIds : List String)
  | workerUnavailable (state : String)
  | noSuchPool

/-- The worker a request is pinned to. -/
def pinOf (body : Json) : Option String := (body.str? "worker_id").filter fun s ↦ s != ""

/-- Fewer leases first, then the one assigned longest ago. -/
def Worker.before (a b : Worker) : Bool :=
  a.leased.length < b.leased.length ||
    (a.leased.length == b.leased.length && decide (a.lastAssigned < b.lastAssigned))

/-- The first of the workers that come before all others. -/
def fewest : List Worker → Option Worker
  | [] => none
  | w :: ws =>
    match fewest ws with
    | none => some w
    | some v => if v.before w then some v else some w

/-- The worker that takes a job, or the answer when none does. `clock` is the time each
worker's state is read at, `busyClock` the time it is read at for the count of busy ones. -/
def chooseWorker (all : List Worker) (pin : Option String) (clock busyClock : String → Int) :
    Except Dispatched Worker :=
  if all.isEmpty then .error .noSuchPool
  else
    match pin with
    | some id =>
      match all.find? fun w ↦ w.agentId == id with
      | none => .error (.workerUnavailable "unknown")
      | some w =>
        match w.state (clock w.agentId) with
        | .free => .ok w
        | .busy => .error (.workerBusy .busy w.leased)
        | .clearing => .error (.workerBusy .clearing w.leased)
        | s => .error (.workerUnavailable s.name)
    | none =>
      match fewest (all.filter fun w ↦ w.state (clock w.agentId) == .free) with
      | some w => .ok w
      | none => .error (.noFreeWorker 0 (all.countP fun w ↦
          [.busy, .suspect, .clearing].contains (w.state (busyClock w.agentId))))

/-- The row of a job leased anew. -/
def leaseRow (host : Host) (pool reqId worker : String) (callType : Option String)
    (now timeout attempts : Int) : Job where
  reqId := reqId
  pool := pool
  worker := worker
  callType := callType
  state := .leased
  dir := host.jobDir reqId
  createdAt := now
  expiresAt := now + timeout
  finishedAt := none
  firstReadAt := none
  workerGoneAt := none
  result := none
  error := none
  message := none
  attempts := attempts

/-- The rows a lease writes: the job's, and the member's last assignment. -/
def writeLease (db : Db) (row : Job) (now : Int) : Db :=
  { db with poolJobs := db.poolJobs.insertOrReplace row }.updateMember row.worker
    (fun m ↦ { m with lastAssignedAt := some now }) fun _ ↦ rfl

/-- The line a worker is given. -/
def jobLine (reqId : String) (images : Nat) : String :=
  s!"claudebase pool job {reqId} -- the payload and {images} image(s); answer with: claudebase pool reply {reqId} (JSON on stdin), or claudebase pool fail {reqId} \"<reason>\""

/-- A dispatch from the payload on: the next attempt of the job. -/
def dispatchAttempt (host : Host) (db : Db) (pool : String) (body : Json) (reqId : String)
    (attempts : Int) (clock busyClock : String → Int) (now : Int) :
    Except String (Dispatched × Db) := do
  let some payload := body.get? "payload" | throw "payload required"
  let timeout := ((body.get? "timeout_ms").bind Json.asI64?).getD defaultTimeoutMs
  require (1000 ≤ timeout ∧ timeout ≤ maxTimeoutMs) s!"timeout_ms must be 1000..={maxTimeoutMs}"
  let callType := ((payload.path? ["meta", "callType"]).bind Json.asStr?).filter fun c ↦
    (checkName "callType" c 64 []).isOk
  let images ← readImages host ((body.get? "images").getD .null)
  match chooseWorker (workers db pool) (pinOf body) clock busyClock with
  | .error refusal => return (refusal, db)
  | .ok w =>
    host.writeJob reqId payload images
    let row := leaseRow host pool reqId w.agentId callType now timeout attempts
    let db := writeLease db row now
    return (.leased (viewOf db row) w.agentId (jobLine reqId images.length), db)

/-- `dispatch`, `src/daemon/pool.rs:388`: the same request again gets its state, unless it
was lost or expired; then it is the next attempt of the same job. -/
def dispatch (host : Host) (db : Db) (pool : String) (body : Json)
    (clock busyClock : String → Int) (now : Int) : Except String (Dispatched × Db) := do
  checkPool pool
  let some reqId := body.str? "req_id" | throw "req_id required"
  checkReqId reqId
  match db.job? reqId with
  | none => dispatchAttempt host db pool body reqId 1 clock busyClock now
  | some j =>
    if j.retryable then
      dispatchAttempt host db pool body reqId (j.attempts + 1) clock busyClock now
    else return (.existing (viewOf db j), db)

/-! ### The end of a lease -/

/-- A lease taken back by the gateway. -/
def Job.cancelled (j : Job) (now : Int) : Job :=
  { j with state := .cancelled, finishedAt := some now }

/-- A lease answered. -/
def Job.replied (j : Job) (result : String) (now : Int) : Job :=
  { j with state := .done, result := some result, finishedAt := some now }

/-- A lease its worker refused. -/
def Job.refused (j : Job) (reason : String) (now : Int) : Job :=
  { j with
    state := .failed, error := some "worker_failed"
    message := some (String.ofList (reason.toList.take 2000)), finishedAt := some now }

@[simp] theorem Job.reqId_cancelled (j : Job) (now : Int) : (j.cancelled now).reqId = j.reqId :=
  rfl

@[simp] theorem Job.reqId_replied (j : Job) (result : String) (now : Int) :
    (j.replied result now).reqId = j.reqId := rfl

@[simp] theorem Job.reqId_refused (j : Job) (reason : String) (now : Int) :
    (j.refused reason now).reqId = j.reqId := rfl

/-- `cancel`, `src/daemon/pool.rs:493`: the worker and pool it was leased to, and the job. -/
def cancel (db : Db) (reqId : String) (now : Int) : Option (String × String × JobView) × Db :=
  match db.job? reqId with
  | none => (none, db)
  | some j =>
    if j.state = .leased then
      (some (j.worker, j.pool, viewOf db (j.cancelled now)),
        db.updateJob reqId (fun j ↦ j.cancelled now) fun j ↦ j.reqId_cancelled now)
    else (none, db)

/-- `owned_job`, `src/daemon/pool.rs:515`. -/
def ownedJob (db : Db) (agentId reqId : String) : Except String Job := do
  let some j := db.job? reqId | throw s!"no pool job {reqId}"
  require (j.worker = agentId) s!"pool job {reqId} was given to another session"
  return j

/-- What a worker's reply is answered with. -/
inductive Replied where
  | accepted (reqId : String)
  | tooLate (reqId : String) (state : JobState)
  deriving DecidableEq, Repr

/-- `worker_reply`, `src/daemon/pool.rs:558`; `result` is the answer as it is stored. A late
one is discarded, but its worker is trusted again. -/
def workerReply (db : Db) (agentId reqId result : String) (now : Int) :
    Except String (Replied × Db) := do
  let j ← ownedJob db agentId reqId
  if j.state = .leased then
    return (.accepted reqId,
      (trust db agentId).updateJob reqId (fun j ↦ j.replied result now)
        fun j ↦ j.reqId_replied result now)
  else return (.tooLate reqId j.state, trust db agentId)

/-- `worker_fail`, `src/daemon/pool.rs:577`: whether the job failed by it, and its state. -/
def workerFail (db : Db) (agentId reqId reason : String) (now : Int) :
    Except String ((Bool × JobState) × Db) := do
  let j ← ownedJob db agentId reqId
  if j.state = .leased then
    return ((true, .failed),
      (trust db agentId).updateJob reqId (fun j ↦ j.refused reason now)
        fun j ↦ j.reqId_refused reason now)
  else return ((false, j.state), trust db agentId)

/-! ### Sweep -/

/-- A lease that ran out. -/
def Job.expired (j : Job) (now : Int) : Job := { j with state := .expired, finishedAt := some now }

/-- A lease whose worker vanished. -/
def Job.lost (j : Job) (now : Int) : Job :=
  { j with state := .failed, error := some "worker_lost", finishedAt := some now }

@[simp] theorem Job.reqId_expired (j : Job) (now : Int) : (j.expired now).reqId = j.reqId := rfl

@[simp] theorem Job.reqId_lost (j : Job) (now : Int) : (j.lost now).reqId = j.reqId := rfl

/-- The job expires and its worker is not trusted with another until it answers. -/
def expireJob (now : Int) (db : Db) (j : Job) : Db :=
  (db.updateJob j.reqId (fun j ↦ j.expired now) fun j ↦ j.reqId_expired now).updateMember j.worker
    (fun m ↦ { m with suspect := true, suspectSince := some now }) fun _ ↦ rfl

/-- The leases that ran out by `now`. -/
def expiredJobs (db : Db) (now : Int) : List Job :=
  db.poolJobs.rows.filter fun j ↦ j.state == .leased && decide (j.expiresAt ≤ now)

/-- Suspects whose cooldown has passed. -/
def isCooled (since : Int) (m : Member) : Bool :=
  m.suspect && decide (m.suspectSince.getD 0 ≤ since)

/-- They get the next job again. -/
def trustCooled (db : Db) (since : Int) : Db :=
  { db with
    poolMembers := db.poolMembers.update (isCooled since) Member.trusted Member.agentId_trusted }

/-- A leased job whose worker may have vanished: a grace period first, for a reconnect. -/
def graceJob (now : Int) (db : Db) (j : Job) : Db :=
  match db.isAlive j.worker, j.workerGoneAt with
  | true, some _ => db.updateJob j.reqId (fun j ↦ { j with workerGoneAt := none }) fun _ ↦ rfl
  | false, none =>
    db.updateJob j.reqId (fun j ↦ { j with workerGoneAt := some now }) fun _ ↦ rfl
  | false, some t =>
    if lostGraceMs ≤ now - t then
      db.updateJob j.reqId (fun j ↦ j.lost now) fun j ↦ j.reqId_lost now
    else db
  | true, none => db

/-- The leased jobs. -/
def leasedJobs (db : Db) : List Job := db.poolJobs.rows.filter fun j ↦ j.state == .leased

/-- A job is kept for a while after it was read, or after it ended. -/
def isOld (now : Int) (j : Job) : Bool :=
  j.state != .leased &&
    ((j.firstReadAt.any fun t ↦ decide (t ≤ now - keepAfterReadMs)) ||
      (j.finishedAt.any fun t ↦ decide (t ≤ now - keepUnreadMs)))

/-- The jobs retention lets go. -/
def oldJobs (db : Db) (now : Int) : List Job := db.poolJobs.rows.filter (isOld now)

/-- A job removed. -/
def deleteJob (db : Db) (j : Job) : Db := { db with poolJobs := db.poolJobs.deleteKey j.reqId }

/-- `sweep`, `src/daemon/pool.rs:738`, with the cooldown of suspects. -/
def sweep (db : Db) (now cooldown : Int) : Db :=
  let db := (expiredJobs db now).foldl (expireJob now) db
  let db := trustCooled db (now - cooldown)
  let db := (leasedJobs db).foldl (graceJob now) db
  (oldJobs db now).foldl deleteJob db

/-! ### Clearing a worker's context -/

/-- What a request to clear answers before the session is asked. -/
inductive ClearStart where
  | begin
  | busy (state : WorkerState) (reqIds : List String)
  | unavailable (state : String)
  | noSuchPool

/-- The mark of a clear that begins at `now`. -/
def markCleared (db : Db) (workerId : String) (now : Int) : Db :=
  db.updateMember workerId (fun m ↦ { m with clearingUntil := some (now + clearTimeoutMs + 5000) })
    fun _ ↦ rfl

/-- `begin_clear`, `src/daemon/pool.rs:621`: mark an idle worker `clearing`. `seen` is the
time its state is read at. -/
def beginClear (db : Db) (pool workerId : String) (seen now : Int) :
    Except String (ClearStart × Db) := do
  checkPool pool
  let all := workers db pool
  if all.isEmpty then return (.noSuchPool, db)
  else
    match all.find? fun w ↦ w.agentId == workerId with
    | none => return (.unavailable "unknown", db)
    | some w =>
      match w.state seen with
      | .free =>
        -- A worker with spare capacity is free yet may hold a job.
        if w.leased.isEmpty then return (.begin, markCleared db workerId now)
        else return (.busy .busy w.leased, db)
      | .busy => return (.busy .busy w.leased, db)
      | .clearing => return (.busy .clearing [], db)
      | s => return (.unavailable s.name, db)

/-- `end_clear`, `src/daemon/pool.rs:649`: the worker takes jobs again. -/
def endClear (db : Db) (workerId : String) : Db :=
  db.updateMember workerId (fun m ↦ { m with clearingUntil := none }) fun _ ↦ rfl

end Claudebase.Pool
