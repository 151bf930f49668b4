import Claudebase.Pool.Ops

/-!
# Runs of the pool

Sessions join and answer, the gateway dispatches, reads, cancels and clears, and the sweeper
runs, in any order; each call is one writer transaction. The registry changes in between by
itself. Beside the tables a run keeps the clears in progress, each from its begin until its
own end is recorded, as `clear_worker` does (`src/daemon/pool.rs:670–728`).
-/

namespace Claudebase.Pool
open Claudebase.Base

/-- A clear whose own end is not yet recorded, and the time its mark runs out. -/
structure Clear where
  seq : Nat
  worker : String
  deadline : Int
  deriving DecidableEq, Repr

/-- The pool's tables, the clears in progress, and the time of the last call. -/
structure System where
  db : Db
  clears : List Clear
  seq : Nat
  clock : Int

/-- No table has a row. -/
def System.empty : System := ⟨.empty, [], 0, 0⟩

/-- The calls, with every time each of them reads. -/
inductive Op where
  | registry (rows : Table Agent.agentId)
  | join (agentId pool : String) (capacity now : Int)
  | ready (agentId : String)
  | dispatch (host : Host) (pool : String) (body : Json) (clock busyClock : String → Int)
      (now : Int)
  | read (reqId : String) (now : Int)
  | cancel (reqId : String) (now : Int)
  | reply (agentId reqId result : String) (now : Int)
  | fail (agentId reqId reason : String) (now : Int)
  | sweep (now cooldown : Int)
  | beginClear (pool workerId : String) (seen now : Int)
  | endClear (seq : Nat)

/-- The last time a call reads, when it reads one. -/
def Op.time? : Op → Option Int
  | .registry _ | .ready _ | .endClear _ => none
  | .join _ _ _ now | .dispatch _ _ _ _ _ now | .read _ now | .cancel _ now | .reply _ _ _ now
  | .fail _ _ _ now | .sweep now _ | .beginClear _ _ _ now => some now

/-- The other times a call reads lie between the last call and its own last time. -/
def Op.Timed (last : Int) : Op → Prop
  | .registry _ | .ready _ | .endClear _ => True
  | .join _ _ _ now | .read _ now | .cancel _ now | .reply _ _ _ now | .fail _ _ _ now
  | .sweep now _ => last ≤ now
  | .dispatch _ _ _ clock busyClock now =>
    last ≤ now ∧ (∀ w, last ≤ clock w ∧ clock w ≤ now) ∧
      ∀ w, last ≤ busyClock w ∧ busyClock w ≤ now
  | .beginClear _ _ seen now => last ≤ seen ∧ seen ≤ now

/-- The tables after a call. -/
def dbAfter (s : System) : Op → Db
  | .registry rows => { s.db with registry := rows }
  | .join agentId pool capacity now => (transact s.db (join s.db agentId pool capacity now)).2
  | .ready agentId => (transact s.db (workerReady s.db agentId)).2
  | .dispatch host pool body clock busyClock now =>
    (transact s.db (dispatch host s.db pool body clock busyClock now)).2
  | .read reqId now => (readJob s.db reqId now).2
  | .cancel reqId now => (cancel s.db reqId now).2
  | .reply agentId reqId result now =>
    (transact s.db (workerReply s.db agentId reqId result now)).2
  | .fail agentId reqId reason now =>
    (transact s.db (workerFail s.db agentId reqId reason now)).2
  | .sweep now cooldown => sweep s.db now cooldown
  | .beginClear pool workerId seen now =>
    (transact s.db (beginClear s.db pool workerId seen now)).2
  | .endClear seq =>
    match s.clears.find? fun c ↦ c.seq == seq with
    | some c => endClear s.db c.worker
    | none => s.db

/-- The clears in progress after a call. -/
def clearsAfter (s : System) : Op → List Clear
  | .beginClear pool workerId seen now =>
    match beginClear s.db pool workerId seen now with
    | .ok (.begin, _) => s.clears ++ [⟨s.seq, workerId, now + clearTimeoutMs + 5000⟩]
    | _ => s.clears
  | .endClear seq => s.clears.filter fun c ↦ c.seq != seq
  | _ => s.clears

/-- One call. -/
def next (s : System) (op : Op) : System where
  db := dbAfter s op
  clears := clearsAfter s op
  seq := s.seq + 1
  clock := op.time?.getD s.clock

/-- Clocks do not go back along a run. -/
def Timed (s : System) (ops : List Op) : Prop :=
  ∀ t ∈ trace next s ops, t.op.Timed t.before.clock

/-! ### Rows after a write -/

namespace Db

variable {db : Db} {reqId q agentId w : String}

@[simp] theorem job?_updateMember {f : Member → Member} {hf : ∀ m, (f m).agentId = m.agentId} :
    (db.updateMember agentId f hf).job? q = db.job? q := rfl

@[simp] theorem job?_trust : (trust db agentId).job? q = db.job? q := rfl

@[simp] theorem job?_updateJob_self {f : Job → Job} {hf : ∀ j, (f j).reqId = j.reqId} :
    (db.updateJob q f hf).job? q = (db.job? q).map f :=
  Table.get?_updateKey_self hf

theorem job?_updateJob_of_ne {f : Job → Job} {hf : ∀ j, (f j).reqId = j.reqId} (h : q ≠ reqId) :
    (db.updateJob reqId f hf).job? q = db.job? q :=
  Table.get?_updateKey_of_ne hf h

@[simp] theorem member?_updateJob {f : Job → Job} {hf : ∀ j, (f j).reqId = j.reqId} :
    (db.updateJob reqId f hf).member? w = db.member? w := rfl

@[simp] theorem member?_updateMember_self {f : Member → Member}
    {hf : ∀ m, (f m).agentId = m.agentId} :
    (db.updateMember w f hf).member? w = (db.member? w).map f :=
  Table.get?_updateKey_self hf

theorem member?_updateMember_of_ne {f : Member → Member}
    {hf : ∀ m, (f m).agentId = m.agentId} (h : w ≠ agentId) :
    (db.updateMember agentId f hf).member? w = db.member? w :=
  Table.get?_updateKey_of_ne hf h

/-- A row of a job is found under its id. -/
theorem job?_eq_some_iff {j : Job} :
    db.job? q = some j ↔ j ∈ db.poolJobs.rows ∧ j.reqId = q := Table.get?_eq_some_iff

/-- A row of a member is found under its id. -/
theorem member?_eq_some_iff {m : Member} :
    db.member? w = some m ↔ m ∈ db.poolMembers.rows ∧ m.agentId = w := Table.get?_eq_some_iff

/-- The time until which a session is marked as being cleared. -/
def mark (db : Db) (agentId : String) : Option Int :=
  (db.member? agentId).bind Member.clearingUntil

/-- A rewriting of members that keeps their marks. -/
theorem mark_updateMember {f : Member → Member} {hf : ∀ m, (f m).agentId = m.agentId}
    (h : ∀ m, (f m).clearingUntil = m.clearingUntil) :
    (db.updateMember agentId f hf).mark w = db.mark w := by
  unfold mark
  by_cases hw : w = agentId
  · subst hw
    rw [member?_updateMember_self]
    cases db.member? w with
    | none => rfl
    | some m => exact h m
  · rw [member?_updateMember_of_ne hw]

@[simp] theorem mark_trust : (trust db agentId).mark w = db.mark w :=
  mark_updateMember fun _ ↦ rfl

@[simp] theorem mark_updateJob {f : Job → Job} {hf : ∀ j, (f j).reqId = j.reqId} :
    (db.updateJob reqId f hf).mark w = db.mark w := rfl

/-- A new member without a mark. -/
theorem mark_insertOrIgnore {row : Member} (hnone : db.member? row.agentId = none)
    (hmark : row.clearingUntil = none) :
    { db with poolMembers := db.poolMembers.insertOrIgnore row }.mark w = db.mark w := by
  unfold mark
  by_cases hw : w = row.agentId
  · subst hw
    have hself : { db with poolMembers := db.poolMembers.insertOrIgnore row }.member? row.agentId =
        some row := Table.get?_insertOrIgnore_self hnone
    rw [hself, hnone]
    exact hmark
  · exact congrArg (Option.bind · Member.clearingUntil) (Table.get?_insertOrIgnore_of_ne hw)

end Db

/-! ### What a call does to the members -/

section Calls

variable {db db' : Db} {agentId pool workerId : String}

/-- A session that joins is marked as it was, and no job changes. -/
theorem join_eq_ok {capacity now : Int} {u : Unit}
    (h : join db agentId pool capacity now = .ok (u, db')) :
    db'.poolJobs = db.poolJobs ∧ ∀ w, db'.mark w = db.mark w := by
  unfold join at h
  rw [bind_eq_ok] at h
  obtain ⟨_, -, h⟩ := h
  dsimp only at h
  split at h
  · cases pure_eq_ok.mp h
    exact ⟨rfl, fun w ↦ Db.mark_updateMember fun _ ↦ rfl⟩
  · next hnone =>
    cases pure_eq_ok.mp h
    exact ⟨rfl, fun w ↦ Db.mark_insertOrIgnore hnone rfl⟩

/-- A session that is ready is trusted. -/
theorem workerReady_eq_ok {u : Unit} (h : workerReady db agentId = .ok (u, db')) :
    db' = trust db agentId := by
  unfold workerReady at h
  rw [bind_eq_ok] at h
  obtain ⟨_, -, h⟩ := h
  cases pure_eq_ok.mp h
  rfl

/-- A clear begins on a member without a job whose mark ran out, and marks it anew. -/
theorem beginClear_eq_ok {seen now : Int} {r : ClearStart}
    (h : beginClear db pool workerId seen now = .ok (r, db')) :
    (r ≠ .begin ∧ db' = db) ∨
      r = .begin ∧ (db.member? workerId).isSome ∧ db.leasedTo workerId = [] ∧
        (∀ time ∈ db.mark workerId, time ≤ seen) ∧ db' = markCleared db workerId now := by
  unfold beginClear at h
  rw [bind_eq_ok] at h
  obtain ⟨_, -, h⟩ := h
  dsimp only at h
  split at h
  · cases pure_eq_ok.mp h
    exact Or.inl ⟨nofun, rfl⟩
  · split at h
    · cases pure_eq_ok.mp h
      exact Or.inl ⟨nofun, rfl⟩
    · next w hw =>
      split at h
      · next hfree =>
        split at h
        · next hidle =>
          cases pure_eq_ok.mp h
          refine Or.inr ⟨rfl, ?_⟩
          obtain ⟨m, hm, -, rfl⟩ := exists_of_mem_workers (List.mem_of_find?_eq_some hw)
          have hid : (workerOf db m).agentId = workerId := by simpa using List.find?_some hw
          have hfind : db.member? workerId = some m := Db.member?_eq_some_iff.mpr ⟨hm, hid⟩
          obtain ⟨-, -, hclear, -⟩ := Worker.state_eq_free_iff.mp hfree
          refine ⟨by rw [hfind]; rfl, ?_, ?_, rfl⟩
          · rw [← hid]
            exact List.isEmpty_iff.mp hidle
          · intro time htime
            have htime' : m.clearingUntil = some time := by
              simpa [Db.mark, hfind] using htime
            have hle : m.clearingUntil.getD 0 ≤ seen := hclear
            rw [htime'] at hle
            exact hle
        · cases pure_eq_ok.mp h
          exact Or.inl ⟨nofun, rfl⟩
      all_goals
        cases pure_eq_ok.mp h
        exact Or.inl ⟨nofun, rfl⟩

end Calls

/-! ### A pool of one -/

/-- A registry with one live session. -/
def oneSession : Table Agent.agentId := ⟨[⟨"w1", "w1", .alive, 0⟩], by decide⟩

/-- A host that writes every directory and whose files are empty. -/
def Host.blank : Host where
  jobDir _ := ""
  readFile _ := .ok []
  decodeBase64 _ := some []
  writeJob _ _ _ := .ok ()

/-- A request for a job with an empty payload, pinned to `worker`. -/
def requestOf (reqId worker : String) : Json :=
  .obj [("req_id", .str reqId), ("payload", .obj []), ("worker_id", .str worker)]

end Claudebase.Pool
