import Claudebase.Pool.Lease

/-!
# The life of a job

`src/daemon/pool.rs:308–314,388–474,493–590,738–810`. `JobStep` says once what any call does
to one job; what holds along every run follows from it. A job that was answered, cancelled or
refused keeps its state and its result until retention deletes it, each attempt is answered
once at most, and only a lost or expired job is handed out again, as a later attempt.
-/

namespace Claudebase.Pool
open Claudebase.Base

/-! ### Guards of the worker's calls -/

section Worker

variable {db db' : Db} {agentId reqId result reason : String} {now : Int}

/-- A call about a job comes from the session it was given to. -/
theorem ownedJob_eq_ok {j : Job} (h : ownedJob db agentId reqId = .ok j) :
    db.job? reqId = some j ∧ j.worker = agentId := by
  unfold ownedJob at h
  split at h
  · next j' hj =>
    rw [bind_eq_ok] at h
    obtain ⟨_, hw, h⟩ := h
    cases pure_eq_ok.mp h
    exact ⟨hj, require_eq_ok.mp hw⟩
  · cases h

/-- A reply is accepted exactly while its session holds the lease. -/
theorem workerReply_eq_ok {r : Replied}
    (h : workerReply db agentId reqId result now = .ok (r, db')) :
    ∃ j, db.job? reqId = some j ∧ j.worker = agentId ∧
      (j.state = .leased ∧ r = .accepted reqId ∧
          db'.job? reqId = some (j.replied result now) ∨
        j.state ≠ .leased ∧ r = .tooLate reqId j.state ∧ db'.job? reqId = some j) ∧
      (∀ q, q ≠ reqId → db'.job? q = db.job? q) ∧ ∀ w, db'.mark w = db.mark w := by
  unfold workerReply at h
  rw [bind_eq_ok] at h
  obtain ⟨j, hj, h⟩ := h
  obtain ⟨hfind, hw⟩ := ownedJob_eq_ok hj
  refine ⟨j, hfind, hw, ?_⟩
  by_cases hs : j.state = .leased
  · rw [if_pos hs] at h
    cases pure_eq_ok.mp h
    refine ⟨Or.inl ⟨hs, rfl, ?_⟩, fun q hq ↦ ?_, fun w ↦ ?_⟩
    · rw [Db.job?_updateJob_self, Db.job?_trust, hfind]
      rfl
    · rw [Db.job?_updateJob_of_ne hq, Db.job?_trust]
    · rw [Db.mark_updateJob, Db.mark_trust]
  · rw [if_neg hs] at h
    cases pure_eq_ok.mp h
    exact ⟨Or.inr ⟨hs, rfl, hfind⟩, fun q _ ↦ rfl, fun w ↦ Db.mark_trust⟩

/-- The reply of the session that holds the lease. -/
theorem workerReply_of_leased {j : Job} (hj : db.job? reqId = some j) (hs : j.state = .leased) :
    workerReply db j.worker reqId result now = .ok (.accepted reqId,
      (trust db j.worker).updateJob reqId (fun j ↦ j.replied result now)
        fun j ↦ j.reqId_replied result now) := by
  have howned : ownedJob db j.worker reqId = .ok j := by
    unfold ownedJob
    rw [hj]
    exact bind_eq_ok.mpr ⟨(), require_of_pos rfl, rfl⟩
  unfold workerReply
  rw [howned]
  exact if_pos hs

/-- A worker's refusal fails the job exactly while its session holds the lease. -/
theorem workerFail_eq_ok {r : Bool × JobState}
    (h : workerFail db agentId reqId reason now = .ok (r, db')) :
    ∃ j, db.job? reqId = some j ∧ j.worker = agentId ∧
      (j.state = .leased ∧ r = (true, .failed) ∧
          db'.job? reqId = some (j.refused reason now) ∨
        j.state ≠ .leased ∧ r = (false, j.state) ∧ db'.job? reqId = some j) ∧
      (∀ q, q ≠ reqId → db'.job? q = db.job? q) ∧ ∀ w, db'.mark w = db.mark w := by
  unfold workerFail at h
  rw [bind_eq_ok] at h
  obtain ⟨j, hj, h⟩ := h
  obtain ⟨hfind, hw⟩ := ownedJob_eq_ok hj
  refine ⟨j, hfind, hw, ?_⟩
  by_cases hs : j.state = .leased
  · rw [if_pos hs] at h
    cases pure_eq_ok.mp h
    refine ⟨Or.inl ⟨hs, rfl, ?_⟩, fun q hq ↦ ?_, fun w ↦ ?_⟩
    · rw [Db.job?_updateJob_self, Db.job?_trust, hfind]
      rfl
    · rw [Db.job?_updateJob_of_ne hq, Db.job?_trust]
    · rw [Db.mark_updateJob, Db.mark_trust]
  · rw [if_neg hs] at h
    cases pure_eq_ok.mp h
    exact ⟨Or.inr ⟨hs, rfl, hfind⟩, fun q _ ↦ rfl, fun w ↦ Db.mark_trust⟩

end Worker

/-! ### What a call does to one job -/

/-- What a call does to the job `q`. -/
inductive JobStep (op : Op) (q : String) : Option Job → Option Job → Prop
  | absent : JobStep op q none none
  | kept (j : Job) (read gone : Option Int) :
    JobStep op q (some j) (some { j with firstReadAt := read, workerGoneAt := gone })
  | leased (old : Option Job) (row : Job) (host : Host) (pool : String) (body : Json)
      (clock busyClock : String → Int) (now : Int)
      (hop : op = .dispatch host pool body clock busyClock now) (hstate : row.state = .leased)
      (hresult : row.result = none)
      (hold : ∀ j ∈ old, j.retryable = true ∧ row.attempts = j.attempts + 1) :
    JobStep op q old (some row)
  | replied (j : Job) (result : String) (now : Int) (hop : op = .reply j.worker q result now)
      (hstate : j.state = .leased) : JobStep op q (some j) (some (j.replied result now))
  | refused (j : Job) (reason : String) (now : Int) (hop : op = .fail j.worker q reason now)
      (hstate : j.state = .leased) : JobStep op q (some j) (some (j.refused reason now))
  | cancelled (j : Job) (now : Int) (hop : op = .cancel q now) (hstate : j.state = .leased) :
    JobStep op q (some j) (some (j.cancelled now))
  | expired (j : Job) (now cooldown : Int) (hop : op = .sweep now cooldown)
      (hstate : j.state = .leased) : JobStep op q (some j) (some (j.expired now))
  | lost (j : Job) (now cooldown : Int) (hop : op = .sweep now cooldown)
      (hstate : j.state = .leased) : JobStep op q (some j) (some (j.lost now))
  | deleted (j : Job) (now cooldown : Int) (hop : op = .sweep now cooldown)
      (hold : j.state ≠ .leased → isOld now j = true) : JobStep op q (some j) none

section Calls

variable {db db' : Db} {op : Op} {q : String}

/-- A call that leaves a job. -/
theorem JobStep.of_eq (h : db'.job? q = db.job? q) : JobStep op q (db.job? q) (db'.job? q) := by
  rw [h]
  cases db.job? q with
  | none => exact .absent
  | some j => exact .kept j j.firstReadAt j.workerGoneAt

theorem jobStep_readJob (reqId : String) (now : Int) :
    JobStep op q (db.job? q) ((readJob db reqId now).2.job? q) := by
  unfold readJob
  split
  · exact .of_eq rfl
  · next j hj =>
    dsimp only
    split
    · by_cases hq : q = reqId
      · subst hq
        rw [Db.job?_updateJob_self, hj]
        exact .kept j _ _
      · exact .of_eq (Db.job?_updateJob_of_ne hq)
    · exact .of_eq rfl

theorem jobStep_cancel (reqId : String) (now : Int) :
    JobStep (.cancel reqId now) q (db.job? q) ((cancel db reqId now).2.job? q) := by
  unfold cancel
  split
  · exact .of_eq rfl
  · next j hj =>
    split
    · next hs =>
      by_cases hq : q = reqId
      · subst hq
        rw [Db.job?_updateJob_self, hj]
        exact .cancelled j now rfl hs
      · exact .of_eq (Db.job?_updateJob_of_ne hq)
    · exact .of_eq rfl

theorem jobStep_workerReply {agentId reqId result : String} {now : Int} {r : Replied}
    (h : workerReply db agentId reqId result now = .ok (r, db')) :
    JobStep (.reply agentId reqId result now) q (db.job? q) (db'.job? q) := by
  obtain ⟨j, hj, rfl, hself, hother, -⟩ := workerReply_eq_ok h
  by_cases hq : q = reqId
  · subst hq
    rcases hself with ⟨hs, -, hnew⟩ | ⟨-, -, hsame⟩
    · rw [hj, hnew]
      exact .replied j result now rfl hs
    · exact .of_eq (hsame.trans hj.symm)
  · exact .of_eq (hother q hq)

theorem jobStep_workerFail {agentId reqId reason : String} {now : Int} {r : Bool × JobState}
    (h : workerFail db agentId reqId reason now = .ok (r, db')) :
    JobStep (.fail agentId reqId reason now) q (db.job? q) (db'.job? q) := by
  obtain ⟨j, hj, rfl, hself, hother, -⟩ := workerFail_eq_ok h
  by_cases hq : q = reqId
  · subst hq
    rcases hself with ⟨hs, -, hnew⟩ | ⟨-, -, hsame⟩
    · rw [hj, hnew]
      exact .refused j reason now rfl hs
    · exact .of_eq (hsame.trans hj.symm)
  · exact .of_eq (hother q hq)

theorem jobStep_dispatch {host : Host} {pool : String} {body : Json}
    {clock busyClock : String → Int} {now : Int} {d : Dispatched}
    (h : dispatch host db pool body clock busyClock now = .ok (d, db')) :
    JobStep (.dispatch host pool body clock busyClock now) q (db.job? q) (db'.job? q) := by
  rcases dispatch_eq_ok h with ⟨rfl, -⟩ | ⟨row, hrow, hold⟩
  · exact .of_eq rfl
  · rw [hrow.db_eq]
    by_cases hq : q = row.reqId
    · subst hq
      rw [job?_writeLease_self]
      refine .leased _ row host pool body clock busyClock now rfl hrow.state hrow.result ?_
      intro j hj
      rw [Option.mem_def.mp hj] at hold
      exact hold
    · exact .of_eq (job?_writeLease_of_ne hq)

/-! #### The sweep -/

/-- A call made for each of some jobs in turn, which changes that job only: a job of theirs is
changed once, any other is left. -/
theorem job?_foldl (db : Db) (q : String) (p : Job → Bool) {step : Db → Job → Db}
    (R : Job → Option Job → Prop)
    (hother : ∀ db j q, q ≠ j.reqId → (step db j).job? q = db.job? q)
    (hself : ∀ db j, db.job? j.reqId = some j → R j ((step db j).job? j.reqId)) :
    ((db.poolJobs.rows.filter p).foldl step db).job? q = db.job? q ∨
      ∃ j, db.job? q = some j ∧ p j = true ∧
        R j (((db.poolJobs.rows.filter p).foldl step db).job? q) := by
  have hrows : ∀ j ∈ db.poolJobs.rows.filter p, db.job? j.reqId = some j :=
    fun j hj ↦ Table.get?_of_mem_filter hj
  rcases Table.get?_foldl hother hself Table.nodup_map_key_filter hrows q with
    ⟨hsame, -⟩ | ⟨j, hj, -, hlook, hR⟩
  · exact Or.inl hsame
  · exact Or.inr ⟨j, hlook, (List.mem_filter.mp hj).2, hR⟩

theorem job?_expireJob_of_ne {now : Int} {j : Job} (h : q ≠ j.reqId) :
    (expireJob now db j).job? q = db.job? q := by
  unfold expireJob
  rw [Db.job?_updateMember, Db.job?_updateJob_of_ne h]

theorem job?_expireJob_self {now : Int} {j : Job} (h : db.job? j.reqId = some j) :
    (expireJob now db j).job? j.reqId = some (j.expired now) := by
  unfold expireJob
  rw [Db.job?_updateMember, Db.job?_updateJob_self, h]
  rfl

theorem job?_graceJob_of_ne {now : Int} {j : Job} (h : q ≠ j.reqId) :
    (graceJob now db j).job? q = db.job? q := by
  unfold graceJob
  split
  · exact Db.job?_updateJob_of_ne h
  · exact Db.job?_updateJob_of_ne h
  · split
    · exact Db.job?_updateJob_of_ne h
    · rfl
  · rfl

/-- A leased job is kept, or lost. -/
theorem job?_graceJob_self {now : Int} {j : Job} (h : db.job? j.reqId = some j) :
    (graceJob now db j).job? j.reqId = some (j.lost now) ∨
      ∃ gone, (graceJob now db j).job? j.reqId = some { j with workerGoneAt := gone } := by
  unfold graceJob
  split
  · refine Or.inr ⟨none, ?_⟩
    rw [Db.job?_updateJob_self, h]
    rfl
  · refine Or.inr ⟨some now, ?_⟩
    rw [Db.job?_updateJob_self, h]
    rfl
  · split
    · refine Or.inl ?_
      rw [Db.job?_updateJob_self, h]
      rfl
    · exact Or.inr ⟨j.workerGoneAt, h⟩
  · exact Or.inr ⟨j.workerGoneAt, h⟩

theorem job?_deleteJob_of_ne {j : Job} (h : q ≠ j.reqId) : (deleteJob db j).job? q = db.job? q :=
  Table.get?_deleteKey_of_ne h

/-- The expiry of a sweep: a leased job is kept or expires. -/
theorem job?_expire (db : Db) (q : String) (now : Int) :
    ((expiredJobs db now).foldl (expireJob now) db).job? q = db.job? q ∨
      ∃ j, db.job? q = some j ∧ j.state = .leased ∧
        ((expiredJobs db now).foldl (expireJob now) db).job? q = some (j.expired now) := by
  rcases job?_foldl db q (fun j ↦ j.state == .leased && decide (j.expiresAt ≤ now))
    (fun j o ↦ o = some (j.expired now)) (fun _ _ _ h ↦ job?_expireJob_of_ne h)
    (fun _ _ h ↦ job?_expireJob_self h) with hsame | ⟨j, hj, hp, hnew⟩
  · exact Or.inl hsame
  · rw [Bool.and_eq_true] at hp
    exact Or.inr ⟨j, hj, by simpa using hp.1, hnew⟩

/-- The care for lost workers: a leased job is kept or lost. -/
theorem job?_grace (db : Db) (q : String) (now : Int) :
    ((leasedJobs db).foldl (graceJob now) db).job? q = db.job? q ∨
      ∃ j, db.job? q = some j ∧ j.state = .leased ∧
        (((leasedJobs db).foldl (graceJob now) db).job? q = some (j.lost now) ∨
          ∃ gone, ((leasedJobs db).foldl (graceJob now) db).job? q =
            some { j with workerGoneAt := gone }) := by
  rcases job?_foldl db q (fun j ↦ j.state == .leased)
    (fun j o ↦ o = some (j.lost now) ∨ ∃ gone, o = some { j with workerGoneAt := gone })
    (fun _ _ _ h ↦ job?_graceJob_of_ne h) (fun _ _ h ↦ job?_graceJob_self h) with
    hsame | ⟨j, hj, hp, hnew⟩
  · exact Or.inl hsame
  · exact Or.inr ⟨j, hj, by simpa using hp, hnew⟩

/-- The retention of a sweep: an old job is deleted. -/
theorem job?_retain (db : Db) (q : String) (now : Int) :
    ((oldJobs db now).foldl deleteJob db).job? q = db.job? q ∨
      ∃ j, db.job? q = some j ∧ isOld now j = true ∧
        ((oldJobs db now).foldl deleteJob db).job? q = none :=
  job?_foldl db q (isOld now) (fun _ o ↦ o = none) (fun _ _ _ h ↦ job?_deleteJob_of_ne h)
    fun _ _ _ ↦ Table.get?_deleteKey_self

/-- Before retention a sweep keeps a job that is not leased, and keeps or ends a lease. -/
theorem job?_sweep_expiry (db : Db) (q : String) (now cooldown : Int) (db₁ db₂ db₃ : Db)
    (h₁ : db₁ = (expiredJobs db now).foldl (expireJob now) db)
    (h₂ : db₂ = trustCooled db₁ (now - cooldown))
    (h₃ : db₃ = (leasedJobs db₂).foldl (graceJob now) db₂) :
    JobStep (.sweep now cooldown) q (db.job? q) (db₃.job? q) ∧
      ∀ j, db.job? q = some j → j.state ≠ .leased → db₃.job? q = some j := by
  have htrust : db₂.job? q = db₁.job? q := by rw [h₂]; rfl
  have hexpire := job?_expire db q now
  have hgrace := job?_grace db₂ q now
  rw [← h₁] at hexpire
  rw [← h₃, htrust] at hgrace
  rcases hexpire with hsame | ⟨j, hj, hs, hnew⟩
  · rw [hsame] at hgrace
    rcases hgrace with hsame' | ⟨j, hj, hs, hnew⟩
    · exact ⟨.of_eq hsame', fun j hj _ ↦ hsame'.trans hj⟩
    · refine ⟨?_, fun j' hj' hn ↦ ?_⟩
      · rw [hj]
        rcases hnew with hlost | ⟨gone, hkept⟩
        · rw [hlost]
          exact .lost j now cooldown rfl hs
        · rw [hkept]
          exact .kept j j.firstReadAt gone
      · rw [hj] at hj'
        cases hj'
        exact absurd hs hn
  · have hstep : db₃.job? q = some (j.expired now) := by
      rcases hgrace with hsame' | ⟨j', hj', hs', -⟩
      · exact hsame'.trans hnew
      · rw [hnew] at hj'
        cases hj'
        cases hs'
    refine ⟨?_, fun j' hj' hn ↦ ?_⟩
    · rw [hj, hstep]
      exact .expired j now cooldown rfl hs
    · rw [hj] at hj'
      cases hj'
      exact absurd hs hn

theorem jobStep_sweep (now cooldown : Int) :
    JobStep (.sweep now cooldown) q (db.job? q) ((sweep db now cooldown).job? q) := by
  unfold sweep
  extract_lets db₁ db₂ db₃
  obtain ⟨hstep, hkeep⟩ := job?_sweep_expiry db q now cooldown db₁ db₂ db₃ rfl rfl rfl
  rcases job?_retain db₃ q now with hsame | ⟨j₃, hj₃, hold, hgone⟩
  · rw [hsame]
    exact hstep
  · rw [hgone]
    cases hj : db.job? q with
    | none => exact .absent
    | some j =>
      refine .deleted j now cooldown rfl fun hn ↦ ?_
      have hkept := hkeep j hj hn
      rw [hj₃] at hkept
      cases hkept
      exact hold

end Calls

/-- What a step of the system does to a job. -/
theorem jobStep (s : System) (op : Op) (q : String) :
    JobStep op q (s.db.job? q) ((next s op).db.job? q) := by
  show JobStep op q (s.db.job? q) ((dbAfter s op).job? q)
  cases op with
  | registry rows => exact .of_eq rfl
  | join agentId pool capacity now =>
    rcases transact_cases s.db (join s.db agentId pool capacity now) with hsame | ⟨u, hok⟩
    · exact .of_eq (congrArg (Db.job? · q) hsame)
    · exact .of_eq (congrArg (Table.get? · q) (join_eq_ok hok).1)
  | ready agentId =>
    rcases transact_cases s.db (workerReady s.db agentId) with hsame | ⟨u, hok⟩
    · exact .of_eq (congrArg (Db.job? · q) hsame)
    · exact .of_eq ((congrArg (Db.job? · q) (workerReady_eq_ok hok)).trans Db.job?_trust)
  | dispatch host pool body clock busyClock now =>
    rcases transact_cases s.db (dispatch host s.db pool body clock busyClock now) with
      hsame | ⟨d, hok⟩
    · exact .of_eq (congrArg (Db.job? · q) hsame)
    · exact jobStep_dispatch hok
  | read reqId now => exact jobStep_readJob reqId now
  | cancel reqId now => exact jobStep_cancel reqId now
  | reply agentId reqId result now =>
    rcases transact_cases s.db (workerReply s.db agentId reqId result now) with
      hsame | ⟨r, hok⟩
    · exact .of_eq (congrArg (Db.job? · q) hsame)
    · exact jobStep_workerReply hok
  | fail agentId reqId reason now =>
    rcases transact_cases s.db (workerFail s.db agentId reqId reason now) with
      hsame | ⟨r, hok⟩
    · exact .of_eq (congrArg (Db.job? · q) hsame)
    · exact jobStep_workerFail hok
  | sweep now cooldown => exact jobStep_sweep now cooldown
  | beginClear pool workerId seen now =>
    rcases transact_cases s.db (beginClear s.db pool workerId seen now) with hsame | ⟨r, hok⟩
    · exact .of_eq (congrArg (Db.job? · q) hsame)
    · rcases beginClear_eq_ok hok with ⟨-, hdb⟩ | ⟨-, -, -, -, hdb⟩
      · exact .of_eq (congrArg (Db.job? · q) hdb)
      · exact .of_eq ((congrArg (Db.job? · q) hdb).trans Db.job?_updateMember)
  | endClear seq =>
    show JobStep _ q _ ((dbAfter s (.endClear seq)).job? q)
    unfold dbAfter
    dsimp only
    split
    · exact .of_eq rfl
    · exact .of_eq rfl

/-! ### Along a run -/

/-- An answered, cancelled or refused job. -/
def Job.IsTerminal (j : Job) : Prop :=
  j.state = .done ∨ j.state = .cancelled ∨ j.state = .failed ∧ j.error = some "worker_failed"

/-- A step after which the job `q` is gone. -/
def Deletes (q : String) (t : Step System Op) : Prop :=
  (t.before.db.job? q).isSome ∧ t.after.db.job? q = none

/-- A step by which a reply to attempt `n` of the job `q` is accepted. -/
def acceptsReply (q : String) (n : Int) (t : Step System Op) : Bool :=
  match t.op with
  | .reply agentId reqId result now =>
    reqId == q && ((t.before.db.job? q).any fun j ↦ j.attempts == n) &&
      match workerReply t.before.db agentId reqId result now with
      | .ok (.accepted _, _) => true
      | _ => false
  | _ => false

/-- The life of the job `q` along a run. -/
structure Lifecycle (s : System) (ops : List Op) (q : String) : Prop where
  /-- A terminal job keeps its state and its result while it is not deleted. -/
  terminal : ∀ j, s.db.job? q = some j → j.IsTerminal →
    (∀ t ∈ trace next s ops, ¬ Deletes q t) →
    ∃ j', (run next s ops).db.job? q = some j' ∧ j'.state = j.state ∧ j'.result = j.result
  /-- Only the retention of a sweep deletes, and of the jobs not leased only old ones. -/
  deleted : ∀ t ∈ trace next s ops, Deletes q t → ∃ now cooldown, t.op = .sweep now cooldown ∧
    ∀ j, t.before.db.job? q = some j → j.state ≠ .leased → isOld now j = true
  /-- A reply is accepted from the session that holds the lease. -/
  holder : ∀ t ∈ trace next s ops, ∀ n, acceptsReply q n t = true →
    ∃ j result now, t.op = .reply j.worker q result now ∧ t.before.db.job? q = some j ∧
      j.state = .leased ∧ j.attempts = n
  /-- While the job is not deleted each attempt is answered once at most. -/
  once : (∀ t ∈ trace next s ops, ¬ Deletes q t) →
    ∀ n, (trace next s ops).countP (acceptsReply q n) ≤ 1
  /-- A job is leased as before, or by a dispatch: then it is new, or it was retryable and
  this is a later attempt. -/
  leased : ∀ t ∈ trace next s ops, ∀ j', t.after.db.job? q = some j' → j'.state = .leased →
    (∃ j, t.before.db.job? q = some j ∧ j.state = .leased ∧ j.worker = j'.worker ∧
      j.attempts = j'.attempts) ∨
    (∃ host pool body clock busyClock now,
      t.op = .dispatch host pool body clock busyClock now) ∧
      ∀ j, t.before.db.job? q = some j → j.retryable = true ∧ j.attempts < j'.attempts
  /-- A job a dispatch hands out is new, or it was retryable and this is a later attempt. -/
  handedOut : ∀ t ∈ trace next s ops, ∀ host pool body clock busyClock now view worker line db',
    t.op = .dispatch host pool body clock busyClock now →
    dispatch host t.before.db pool body clock busyClock now =
      .ok (.leased view worker line, db') → view.reqId = q →
    ∃ j', t.after.db.job? q = some j' ∧ j'.state = .leased ∧ j'.worker = worker ∧
      ∀ j, t.before.db.job? q = some j → j.retryable = true ∧ j.attempts < j'.attempts

section Steps

variable {op : Op} {q : String} {before after : Option Job} {j : Job}

theorem Job.IsTerminal.not_leased (h : j.IsTerminal) : j.state ≠ .leased := by
  intro hl
  simp [IsTerminal, hl] at h

theorem Job.IsTerminal.not_retryable (h : j.IsTerminal) : j.retryable = false := by
  rcases h with hs | hs | ⟨hs, he⟩
  · simp [retryable, hs]
  · simp [retryable, hs]
  · simp [retryable, hs, he]

/-- A step keeps the state and the result of a terminal job that it does not delete. -/
theorem JobStep.terminal (h : JobStep op q (some j) after) (hj : j.IsTerminal) :
    after = none ∨ ∃ j', after = some j' ∧ j'.IsTerminal ∧ j'.state = j.state ∧
      j'.result = j.result := by
  cases h with
  | kept _ read gone => exact Or.inr ⟨_, rfl, hj, rfl, rfl⟩
  | leased _ row host pool body clock busyClock now hop hstate hresult hold =>
    have hretry := (hold j rfl).1
    rw [hj.not_retryable] at hretry
    cases hretry
  | replied _ result now hop hstate => exact absurd hstate hj.not_leased
  | refused _ reason now hop hstate => exact absurd hstate hj.not_leased
  | cancelled _ now hop hstate => exact absurd hstate hj.not_leased
  | expired _ now cooldown hop hstate => exact absurd hstate hj.not_leased
  | lost _ now cooldown hop hstate => exact absurd hstate hj.not_leased
  | deleted _ now cooldown hop hold => exact Or.inl rfl

/-- A deleting step is a sweep that finds the job old, unless it is leased. -/
theorem JobStep.deleted_by_sweep (h : JobStep op q (some j) none) :
    ∃ now cooldown, op = .sweep now cooldown ∧ (j.state ≠ .leased → isOld now j = true) := by
  cases h with
  | deleted _ now cooldown hop hold => exact ⟨now, cooldown, hop, hold⟩

/-- A lease after a step was there before, or a dispatch gave it. -/
theorem JobStep.leased_after {j' : Job} (h : JobStep op q before (some j'))
    (hj' : j'.state = .leased) :
    (∃ j, before = some j ∧ j.state = .leased ∧ j.worker = j'.worker ∧
      j.attempts = j'.attempts) ∨
    (∃ host pool body clock busyClock now, op = .dispatch host pool body clock busyClock now) ∧
      ∀ j, before = some j → j.retryable = true ∧ j.attempts < j'.attempts := by
  cases h with
  | kept j read gone => exact Or.inl ⟨j, rfl, hj', rfl, rfl⟩
  | leased _ row host pool body clock busyClock now hop hstate hresult hold =>
    refine Or.inr ⟨⟨host, pool, body, clock, busyClock, now, hop⟩, fun j hj ↦ ?_⟩
    obtain ⟨hretry, hatt⟩ := hold j hj
    refine ⟨hretry, ?_⟩
    rw [hatt]
    omega
  | replied j result now hop hstate => cases hj'
  | refused j reason now hop hstate => cases hj'
  | cancelled j now hop hstate => cases hj'
  | expired j now cooldown hop hstate => cases hj'
  | lost j now cooldown hop hstate => cases hj'

/-- Attempt `n` of a job is over: a later one runs, or its lease ended. -/
def Job.IsOver (n : Int) (j : Job) : Prop := n < j.attempts ∨ n = j.attempts ∧ j.state ≠ .leased

/-- An attempt that is over stays so while the job is not deleted. -/
theorem JobStep.over {n : Int} (h : JobStep op q (some j) after) (hj : j.IsOver n) :
    after = none ∨ ∃ j', after = some j' ∧ j'.IsOver n := by
  cases h with
  | kept _ read gone => exact Or.inr ⟨_, rfl, hj⟩
  | leased _ row host pool body clock busyClock now hop hstate hresult hold =>
    have hatt := (hold j rfl).2
    refine Or.inr ⟨row, rfl, Or.inl ?_⟩
    rcases hj with hlt | ⟨heq, -⟩
    · omega
    · omega
  | replied _ result now hop hstate =>
    exact Or.inr ⟨_, rfl, hj.imp id fun h ↦ ⟨h.1, nofun⟩⟩
  | refused _ reason now hop hstate =>
    exact Or.inr ⟨_, rfl, hj.imp id fun h ↦ ⟨h.1, nofun⟩⟩
  | cancelled _ now hop hstate =>
    exact Or.inr ⟨_, rfl, hj.imp id fun h ↦ ⟨h.1, nofun⟩⟩
  | expired _ now cooldown hop hstate =>
    exact Or.inr ⟨_, rfl, hj.imp id fun h ↦ ⟨h.1, nofun⟩⟩
  | lost _ now cooldown hop hstate =>
    exact Or.inr ⟨_, rfl, hj.imp id fun h ↦ ⟨h.1, nofun⟩⟩
  | deleted _ now cooldown hop hold => exact Or.inl rfl

end Steps

section Replies

variable {s : System} {ops : List Op} {q : String} {n : Int} {t : Step System Op}

/-- A reply is accepted exactly from the session that holds the lease. -/
theorem acceptsReply_iff : acceptsReply q n t = true ↔
    ∃ j result now, t.op = .reply j.worker q result now ∧ t.before.db.job? q = some j ∧
      j.state = .leased ∧ j.attempts = n := by
  unfold acceptsReply
  split
  · next agentId reqId result now hop =>
    simp only [Bool.and_eq_true, beq_iff_eq, Option.any_eq_true]
    constructor
    · rintro ⟨⟨rfl, j, hj, hatt⟩, hok⟩
      split at hok
      · next db' hreply =>
        obtain ⟨j', hj', rfl, hself, -⟩ := workerReply_eq_ok hreply
        rw [hj] at hj'
        cases hj'
        rcases hself with ⟨hs, -, -⟩ | ⟨-, hr, -⟩
        · exact ⟨j, result, now, hop, hj, hs, hatt⟩
        · cases hr
      · cases hok
    · rintro ⟨j, result', now', hop', hj, hs, hatt⟩
      rw [hop] at hop'
      cases hop'
      refine ⟨⟨rfl, j, hj, hatt⟩, ?_⟩
      rw [workerReply_of_leased hj hs]
  · next hno =>
    simp only [Bool.false_eq_true, false_iff]
    rintro ⟨j, result, now, hop, -⟩
    exact hno _ _ _ _ hop

/-- The attempt `n` of the job `q` is over. -/
def IsOver (q : String) (n : Int) (s : System) : Prop := ∃ j, s.db.job? q = some j ∧ j.IsOver n

/-- An attempt that is over stays so while the job is not deleted. -/
theorem isOver_after (ht : t.after = next t.before t.op) (h : IsOver q n t.before)
    (hkept : ¬ Deletes q t) : IsOver q n t.after := by
  obtain ⟨j, hj, hover⟩ := h
  have hstep := jobStep t.before t.op q
  rw [← ht, hj] at hstep
  rcases hstep.over hover with hgone | ⟨j', hj', hover'⟩
  · exact absurd ⟨by rw [hj]; rfl, hgone⟩ hkept
  · exact ⟨j', hj', hover'⟩

/-- An attempt that is over is answered no more. -/
theorem countP_acceptsReply_of_over (hs : IsOver q n s)
    (hkept : ∀ t ∈ trace next s ops, ¬ Deletes q t) :
    (trace next s ops).countP (acceptsReply q n) = 0 := by
  have hall : ∀ t ∈ trace next s ops, IsOver q n t.before ∧ IsOver q n t.after := by
    apply invariant_of_trace hs
    intro t ht hbefore
    exact isOver_after (after_of_mem_trace ht) hbefore (hkept t ht)
  rw [List.countP_eq_zero]
  intro t ht haccept
  obtain ⟨⟨j, hj, hover⟩, -⟩ := hall t ht
  obtain ⟨j', -, -, -, hj', hs', hatt⟩ := acceptsReply_iff.mp haccept
  rw [hj] at hj'
  cases hj'
  rcases hover with hlt | ⟨-, hn⟩
  · omega
  · exact hn hs'

/-- An accepted reply ends its attempt. -/
theorem isOver_of_acceptsReply (ht : t.after = next t.before t.op)
    (h : acceptsReply q n t = true) : IsOver q n t.after := by
  obtain ⟨j, result, now, hop, hj, hs, hatt⟩ := acceptsReply_iff.mp h
  have hdb : t.after.db = (transact t.before.db
      (workerReply t.before.db j.worker q result now)).2 := by
    rw [ht, hop]
    rfl
  rw [workerReply_of_leased hj hs] at hdb
  refine ⟨j.replied result now, ?_, Or.inr ⟨hatt.symm, nofun⟩⟩
  rw [hdb]
  show ((trust t.before.db j.worker).updateJob q _ _).job? q = _
  rw [Db.job?_updateJob_self, Db.job?_trust, hj]
  rfl

theorem countP_acceptsReply_le (hkept : ∀ t ∈ trace next s ops, ¬ Deletes q t) :
    (trace next s ops).countP (acceptsReply q n) ≤ 1 := by
  induction ops generalizing s with
  | nil => exact Nat.zero_le _
  | cons op ops ih =>
    have hrest : ∀ t ∈ trace next (next s op) ops, ¬ Deletes q t :=
      fun t ht ↦ hkept t (List.mem_cons_of_mem _ ht)
    show (_ :: trace next (next s op) ops).countP _ ≤ 1
    rw [List.countP_cons]
    by_cases h : acceptsReply q n ⟨s, op, next s op⟩ = true
    · rw [if_pos h, countP_acceptsReply_of_over (isOver_of_acceptsReply rfl h) hrest]
    · rw [if_neg h, Nat.add_zero]
      exact ih hrest

end Replies

/-- The job `q` is terminal with the state and the result of `j`. -/
def EndedAs (q : String) (j : Job) (s : System) : Prop :=
  ∃ j', s.db.job? q = some j' ∧ j'.IsTerminal ∧ j'.state = j.state ∧ j'.result = j.result

/-- A terminal job stays as it ended while it is not deleted. -/
theorem endedAs_after {q : String} {j : Job} {t : Step System Op}
    (ht : t.after = next t.before t.op) (h : EndedAs q j t.before) (hkept : ¬ Deletes q t) :
    EndedAs q j t.after := by
  obtain ⟨j₁, hj₁, hterm, hstate, hresult⟩ := h
  have hstep := jobStep t.before t.op q
  rw [← ht, hj₁] at hstep
  rcases hstep.terminal hterm with hgone | ⟨j₂, hj₂, hterm₂, hstate₂, hresult₂⟩
  · exact absurd ⟨by rw [hj₁]; rfl, hgone⟩ hkept
  · exact ⟨j₂, hj₂, hterm₂, hstate₂.trans hstate, hresult₂.trans hresult⟩

/-- Every run of the pool, from any tables, gives every job its life. -/
theorem job_lifecycle (s : System) (ops : List Op) (q : String) : Lifecycle s ops q where
  terminal j hj hterm hkept := by
    have hends : EndedAs q j (run next s ops) := by
      apply invariant_of_run ⟨j, hj, hterm, rfl, rfl⟩
      intro t ht hbefore
      exact endedAs_after (after_of_mem_trace ht) hbefore (hkept t ht)
    obtain ⟨j', hj', -, hstate, hresult⟩ := hends
    exact ⟨j', hj', hstate, hresult⟩
  deleted t ht hdel := by
    obtain ⟨hbefore, hgone⟩ := hdel
    obtain ⟨j, hj⟩ := Option.isSome_iff_exists.mp hbefore
    have hstep := jobStep t.before t.op q
    rw [← after_of_mem_trace ht, hj, hgone] at hstep
    obtain ⟨now, cooldown, hop, hold⟩ := hstep.deleted_by_sweep
    refine ⟨now, cooldown, hop, fun j' hj' ↦ ?_⟩
    rw [hj] at hj'
    cases hj'
    exact hold
  holder t _ n h := acceptsReply_iff.mp h
  once hkept n := countP_acceptsReply_le hkept
  leased t ht j' hj' hs := by
    have hstep := jobStep t.before t.op q
    rw [← after_of_mem_trace ht, hj'] at hstep
    exact hstep.leased_after hs
  handedOut t ht host pool body clock busyClock now view worker line db' hop hd hview := by
    have hdb : t.after.db = (transact t.before.db
        (dispatch host t.before.db pool body clock busyClock now)).2 := by
      rw [after_of_mem_trace ht, hop]
      rfl
    rw [hd] at hdb
    rcases dispatch_eq_ok hd with ⟨-, hno⟩ | ⟨row, hrow, hold⟩
    · exact absurd rfl (hno view worker line)
    · obtain ⟨line', hanswer⟩ := hrow.answer
      cases hanswer
      cases hview
      refine ⟨row, ?_, hrow.state, rfl, fun j hj ↦ ?_⟩
      · rw [hdb]
        show db'.job? row.reqId = some row
        rw [hrow.db_eq]
        exact job?_writeLease_self
      · have hj' : t.before.db.job? row.reqId = some j := hj
        rw [hj'] at hold
        refine ⟨hold.1, ?_⟩
        rw [hold.2]
        omega

end Claudebase.Pool
