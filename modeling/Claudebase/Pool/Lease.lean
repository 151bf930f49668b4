import Claudebase.Pool.System

/-!
# Leases

`src/daemon/pool.rs:388–474`. A dispatch either leaves the tables as they are or writes one
lease, and the lease goes to a worker that was free when its state was read. Along every run
whose clocks do not go back a worker holds no more jobs than it declared.
-/

namespace Claudebase.Pool
open Claudebase.Base

/-! ### The choice of a worker -/

/-- The chosen worker is one of those offered. -/
theorem mem_of_fewest {ws : List Worker} {w : Worker} (h : fewest ws = some w) : w ∈ ws := by
  induction ws generalizing w with
  | nil => cases h
  | cons v ws ih =>
    unfold fewest at h
    cases hf : fewest ws with
    | none =>
      rw [hf] at h
      cases h
      exact List.mem_cons_self
    | some u =>
      rw [hf] at h
      dsimp only at h
      split at h
      · cases h
        exact List.mem_cons_of_mem _ (ih hf)
      · cases h
        exact List.mem_cons_self

/-- The worker that takes a job is free, and is the pinned one when one is pinned. -/
theorem chooseWorker_eq_ok {all : List Worker} {pin : Option String}
    {clock busyClock : String → Int} {w : Worker}
    (h : chooseWorker all pin clock busyClock = .ok w) :
    w ∈ all ∧ w.state (clock w.agentId) = .free ∧ ∀ id, pin = some id → w.agentId = id := by
  unfold chooseWorker at h
  split at h
  · cases h
  · cases pin with
    | none =>
      dsimp only at h
      split at h
      · next v hv =>
        cases h
        have hmem := List.mem_filter.mp (mem_of_fewest hv)
        exact ⟨hmem.1, by simpa using hmem.2, fun id hid ↦ nomatch hid⟩
      · cases h
    | some id =>
      dsimp only at h
      split at h
      · cases h
      · next v hv =>
        split at h
        · next hfree =>
          cases h
          refine ⟨List.mem_of_find?_eq_some hv, hfree, fun id' hid ↦ ?_⟩
          cases hid
          simpa using List.find?_some hv
        all_goals cases h

/-- A refusal is no lease. -/
theorem chooseWorker_ne_leased {all : List Worker} {pin : Option String}
    {clock busyClock : String → Int} {view : JobView} {worker line : String} :
    chooseWorker all pin clock busyClock ≠ .error (.leased view worker line) := by
  intro h
  unfold chooseWorker at h
  split at h
  · cases h
  · cases pin with
    | none =>
      dsimp only at h
      split at h
      all_goals cases h
    | some id =>
      dsimp only at h
      split at h
      · cases h
      · split at h
        all_goals cases h

/-! ### A dispatch -/

section Dispatch

variable {host : Host} {db db' : Db} {pool reqId : String} {body : Json} {attempts : Int}
  {clock busyClock : String → Int} {now : Int} {d : Dispatched}

/-- What a dispatch does when it leases: the row it writes and what it answers. -/
structure Leases (host : Host) (db : Db) (pool : String) (body : Json)
    (clock busyClock : String → Int) (now : Int) (row : Job) (d : Dispatched) (db' : Db) :
    Prop where
  worker : ∃ w, chooseWorker (workers db pool) (pinOf body) clock busyClock = .ok w ∧
    row.worker = w.agentId
  pool_eq : row.pool = pool
  state : row.state = .leased
  result : row.result = none
  db_eq : db' = writeLease db row now
  answer : ∃ line, d = .leased (viewOf db' row) row.worker line

/-- An attempt that succeeds leaves the tables or leases the job to the chosen worker. -/
theorem dispatchAttempt_eq_ok
    (h : dispatchAttempt host db pool body reqId attempts clock busyClock now = .ok (d, db')) :
    (db' = db ∧ ∀ view worker line, d ≠ .leased view worker line) ∨
      ∃ row, Leases host db pool body clock busyClock now row d db' ∧ row.reqId = reqId ∧
        row.attempts = attempts := by
  unfold dispatchAttempt at h
  split at h
  · next payload _ =>
    rw [bind_eq_ok] at h
    obtain ⟨_, -, h⟩ := h
    rw [bind_eq_ok] at h
    obtain ⟨images, -, h⟩ := h
    split at h
    · next refusal hc =>
      cases pure_eq_ok.mp h
      refine Or.inl ⟨rfl, fun view worker line hd ↦ ?_⟩
      rw [hd] at hc
      exact chooseWorker_ne_leased hc
    · next w hw =>
      rw [bind_eq_ok] at h
      obtain ⟨_, -, h⟩ := h
      cases pure_eq_ok.mp h
      exact Or.inr ⟨_, ⟨⟨w, hw, rfl⟩, rfl, rfl, rfl, rfl, _, rfl⟩, rfl, rfl⟩
  · cases h

/-- A dispatch that succeeds leaves the tables, or leases a new job or one that was lost;
then its counter is larger than before. -/
theorem dispatch_eq_ok (h : dispatch host db pool body clock busyClock now = .ok (d, db')) :
    (db' = db ∧ ∀ view worker line, d ≠ .leased view worker line) ∨
      ∃ row, Leases host db pool body clock busyClock now row d db' ∧
        match db.job? row.reqId with
        | none => row.attempts = 1
        | some j => j.retryable = true ∧ row.attempts = j.attempts + 1 := by
  unfold dispatch at h
  rw [bind_eq_ok] at h
  obtain ⟨_, -, h⟩ := h
  split at h
  · next reqId _ =>
    rw [bind_eq_ok] at h
    obtain ⟨_, -, h⟩ := h
    split at h
    · next hnone =>
      rcases dispatchAttempt_eq_ok h with hsame | ⟨row, hrow, rfl, hatt⟩
      · exact Or.inl hsame
      · refine Or.inr ⟨row, hrow, ?_⟩
        rw [hnone]
        exact hatt
    · next j hj =>
      split at h
      · next hretry =>
        rcases dispatchAttempt_eq_ok h with hsame | ⟨row, hrow, rfl, hatt⟩
        · exact Or.inl hsame
        · refine Or.inr ⟨row, hrow, ?_⟩
          rw [hj]
          exact ⟨hretry, hatt⟩
      · cases pure_eq_ok.mp h
        exact Or.inl ⟨rfl, fun view worker line hd ↦ nomatch hd⟩
  · cases h

end Dispatch

/-! ### The rows of a lease -/

section Rows

variable {db : Db} {row : Job} {now : Int} {q agentId : String}

/-- The row a lease writes. -/
theorem job?_writeLease_self : (writeLease db row now).job? row.reqId = some row :=
  Table.get?_insertOrReplace_self

/-- A lease leaves the other jobs. -/
theorem job?_writeLease_of_ne (h : q ≠ row.reqId) :
    (writeLease db row now).job? q = db.job? q :=
  Table.get?_insertOrReplace_of_ne h

/-- A lease leaves a member's row but for the time of its last assignment. -/
theorem member?_writeLease : (writeLease db row now).member? agentId =
    (db.member? agentId).map fun m ↦
      if agentId = row.worker then { m with lastAssignedAt := some now } else m := by
  unfold writeLease
  by_cases h : agentId = row.worker
  · subst h
    simp only [if_true]
    exact Db.member?_updateMember_self
  · simp only [if_neg h, Option.map_id']
    exact Db.member?_updateMember_of_ne h

/-- A lease that replaces no lease adds one job to its worker and none to the others. -/
theorem length_leasedTo_writeLease
    (hold : ∀ j, db.job? row.reqId = some j → j.state ≠ .leased) (hstate : row.state = .leased) :
    ((writeLease db row now).leasedTo agentId).length =
      (db.leasedTo agentId).length + if row.worker = agentId then 1 else 0 := by
  rw [Db.length_leasedTo, Db.length_leasedTo]
  have hnot : ∀ x ∈ db.poolJobs.rows, x.reqId = row.reqId →
      (x.worker == agentId && x.state == .leased) = false := by
    intro x hx hk
    have hx' : x.state ≠ .leased := hold x (Db.job?_eq_some_iff.mpr ⟨hx, hk⟩)
    simp [hx']
  show (db.poolJobs.insertOrReplace row).rows.countP _ = _
  rw [Table.countP_insertOrReplace hnot]
  simp [hstate]

end Rows

/-! ### Leases along a run -/

/-- A session that may take a job of `pool` at `now`: a member that is alive and trusted, and
whose context is not being cleared. -/
structure MayTake (db : Db) (pool : String) (now : Int) (worker : String) : Prop where
  member : ∃ m, db.member? worker = some m ∧ m.pool = pool ∧ m.suspect = false ∧
    ∀ time ∈ m.clearingUntil, time ≤ now
  alive : db.isAlive worker = true

/-- A job that may be dispatched again is not leased. -/
theorem Job.not_leased_of_retryable {j : Job} (h : j.retryable = true) : j.state ≠ .leased := by
  intro hl
  simp [Job.retryable, hl] at h

section Step

variable {host : Host} {db db' : Db} {pool : String} {body : Json}
  {clock busyClock : String → Int} {now : Int} {d : Dispatched} {row : Job}

/-- The worker of a lease had a slot left, and may take the job. -/
theorem Leases.worker_ok (h : Leases host db pool body clock busyClock now row d db')
    (hclock : ∀ w, clock w ≤ now) :
    MayTake db pool now row.worker ∧
      (∃ m, db.member? row.worker = some m ∧
        ((db.leasedTo row.worker).length : Int) < m.capacity) ∧
      ∀ id, pinOf body = some id → row.worker = id := by
  obtain ⟨w, hw, hrow⟩ := h.worker
  obtain ⟨hmem, hfree, hpin⟩ := chooseWorker_eq_ok hw
  obtain ⟨m, hm, hpool, rfl⟩ := exists_of_mem_workers hmem
  obtain ⟨halive, hsuspect, hclear, hcap⟩ := Worker.state_eq_free_iff.mp hfree
  have hfind : db.member? row.worker = some m := Db.member?_eq_some_iff.mpr ⟨hm, hrow.symm⟩
  have hmark : ∀ time ∈ m.clearingUntil, time ≤ now := by
    intro time htime
    have hle : m.clearingUntil.getD 0 ≤ clock m.agentId := hclear
    rw [Option.mem_def.mp htime, Option.getD_some] at hle
    exact hle.trans (hclock _)
  refine ⟨⟨⟨m, hfind, hpool, hsuspect, hmark⟩, ?_⟩, ⟨m, hfind, ?_⟩, ?_⟩
  · rw [hrow]
    exact halive
  · rw [hrow]
    exact hcap
  · intro id hid
    rw [hrow]
    exact hpin id hid

/-- A dispatch changes one job at most, to a lease of a session that may take it. -/
theorem dispatch_job (h : dispatch host db pool body clock busyClock now = .ok (d, db'))
    (hclock : ∀ w, clock w ≤ now) {q : String} {j : Job} (hj : db'.job? q = some j)
    (hnew : db.job? q ≠ some j) :
    j.state = .leased ∧ j.pool = pool ∧ MayTake db pool now j.worker ∧
      ∀ id, pinOf body = some id → j.worker = id := by
  rcases dispatch_eq_ok h with ⟨rfl, -⟩ | ⟨row, hrow, -⟩
  · exact absurd hj hnew
  · obtain ⟨hmay, -, hpin⟩ := hrow.worker_ok hclock
    rw [hrow.db_eq] at hj
    by_cases hq : q = row.reqId
    · subst hq
      rw [job?_writeLease_self] at hj
      cases hj
      exact ⟨hrow.state, hrow.pool_eq, hmay, hpin⟩
    · rw [job?_writeLease_of_ne hq] at hj
      exact absurd hj hnew

/-- A dispatch gives a session more jobs only up to its capacity. -/
theorem dispatch_capacity (h : dispatch host db pool body clock busyClock now = .ok (d, db'))
    (hclock : ∀ w, clock w ≤ now) (agentId : String) :
    (db'.leasedTo agentId).length ≤ (db.leasedTo agentId).length ∨
      ∃ m, db'.member? agentId = some m ∧ ((db'.leasedTo agentId).length : Int) ≤ m.capacity := by
  rcases dispatch_eq_ok h with ⟨rfl, -⟩ | ⟨row, hrow, hold⟩
  · exact Or.inl le_rfl
  · obtain ⟨-, ⟨m, hm, hcap⟩, -⟩ := hrow.worker_ok hclock
    have hnot : ∀ j, db.job? row.reqId = some j → j.state ≠ .leased := by
      intro j hj
      rw [hj] at hold
      exact Job.not_leased_of_retryable hold.1
    have hlen : ((writeLease db row now).leasedTo agentId).length =
        (db.leasedTo agentId).length + if row.worker = agentId then 1 else 0 :=
      length_leasedTo_writeLease hnot hrow.state
    rw [hrow.db_eq, hlen]
    by_cases hw : row.worker = agentId
    · subst hw
      rw [if_pos rfl, member?_writeLease, hm]
      refine Or.inr ⟨_, rfl, ?_⟩
      simp only [if_true]
      omega
    · rw [if_neg hw]
      exact Or.inl le_rfl

end Step

/-- Along every run whose clocks do not go back, a dispatch gives a session more jobs only up
to its capacity, and every job it leases goes to a session that may take it: the pinned one
when one is pinned. -/
theorem lease_safe (s : System) (ops : List Op) (h : Timed s ops) :
    ∀ t ∈ trace next s ops, ∀ host pool body clock busyClock now,
      t.op = .dispatch host pool body clock busyClock now →
      (∀ agentId, (t.after.db.leasedTo agentId).length ≤ (t.before.db.leasedTo agentId).length ∨
        ∃ m, t.after.db.member? agentId = some m ∧
          ((t.after.db.leasedTo agentId).length : Int) ≤ m.capacity) ∧
      ∀ q j, t.after.db.job? q = some j → t.before.db.job? q ≠ some j →
        j.state = .leased ∧ j.pool = pool ∧ MayTake t.before.db pool now j.worker ∧
          ∀ id, pinOf body = some id → j.worker = id := by
  intro t ht host pool body clock busyClock now hop
  have htimed := h t ht
  have hafter := after_of_mem_trace ht
  rw [hop] at htimed hafter
  have hclock : ∀ w, clock w ≤ now := fun w ↦ (htimed.2.1 w).2
  have hdb : t.after.db =
      (transact t.before.db (dispatch host t.before.db pool body clock busyClock now)).2 := by
    rw [hafter]
    rfl
  rcases transact_cases t.before.db (dispatch host t.before.db pool body clock busyClock now) with
    hsame | ⟨d, hok⟩
  · rw [← hdb] at hsame
    rw [hsame]
    exact ⟨fun _ ↦ Or.inl le_rfl, fun q j hj hnew ↦ absurd hj hnew⟩
  · rw [← hdb] at hok
    exact ⟨dispatch_capacity hok hclock, fun q j ↦ dispatch_job hok hclock⟩

/-- One session joins and is given the job that is pinned to it. -/
def pinnedRun : List Op :=
  [.registry oneSession, .join "w1" "p" 1 10,
    .dispatch Host.blank "p" (requestOf "r1" "w1") (fun _ ↦ 20) (fun _ ↦ 20) 20]

theorem timed_pinnedRun : Timed .empty pinnedRun := by
  simp [Timed, pinnedRun, trace, next, Op.Timed, Op.time?, System.empty]

theorem lease_safe_pinned :
    MayTake (run next .empty (pinnedRun.take 2)).db "p" 20 "w1" ∧
      ((run next .empty pinnedRun).db.job? "r1").map Job.worker = some "w1" := by
  have hlast : ⟨run next .empty (pinnedRun.take 2),
      .dispatch Host.blank "p" (requestOf "r1" "w1") (fun _ ↦ 20) (fun _ ↦ 20) 20,
      run next .empty pinnedRun⟩ ∈ trace next .empty pinnedRun :=
    List.mem_cons_of_mem _ (List.mem_cons_of_mem _ List.mem_cons_self)
  have hrow : (run next .empty pinnedRun).db.job? "r1" =
      some (leaseRow Host.blank "p" "r1" "w1" none 20 480000 1) := by decide
  obtain ⟨-, hjob⟩ := lease_safe .empty pinnedRun timed_pinnedRun _ hlast _ _ _ _ _ _ rfl
  obtain ⟨-, -, hmay, -⟩ := hjob "r1" _ hrow (by decide)
  exact ⟨hmay, by rw [hrow]; rfl⟩

end Claudebase.Pool
