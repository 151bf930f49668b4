import Mathlib.Data.List.Sort
import Claudebase.Base.Table

/-!
# The tables of the worker pool

`src/daemon/pool.rs:68–126,154–233`. A pool member is a session that takes jobs, a job is
leased to one member, and the registry says which sessions are alive. What a member can do
right now, its state, is read off these rows and the clock.
-/

namespace Claudebase.Pool
open Claudebase.Base

/-! ### Rows -/

/-- A row of `pool_members`. -/
structure Member where
  agentId : String
  pool : String
  capacity : Int
  suspect : Bool
  joinedAt : Int
  lastAssignedAt : Option Int
  suspectSince : Option Int
  clearingUntil : Option Int
  deriving DecidableEq, Repr

/-- The states of a job. -/
inductive JobState where
  | leased | done | failed | expired | cancelled
  deriving DecidableEq, Repr

/-- A row of `pool_jobs`. -/
structure Job where
  reqId : String
  pool : String
  worker : String
  callType : Option String
  state : JobState
  dir : String
  createdAt : Int
  expiresAt : Int
  finishedAt : Option Int
  firstReadAt : Option Int
  workerGoneAt : Option Int
  result : Option String
  error : Option String
  message : Option String
  attempts : Int
  deriving DecidableEq, Repr

/-- The states of a registered session. -/
inductive AgentState where
  | alive | orphaned | dead
  deriving DecidableEq, Repr

/-- The columns of `agent_registry` the pool reads. -/
structure Agent where
  agentId : String
  agentName : String
  state : AgentState
  lastPingedAt : Int
  deriving DecidableEq, Repr

/-- The pool's tables beside the registry. -/
structure Db where
  poolMembers : Table Member.agentId
  poolJobs : Table Job.reqId
  registry : Table Agent.agentId

namespace Db

/-- No member, no job, no session. -/
def empty : Db := ⟨.empty, .empty, .empty⟩

/-- Whether a session is alive. -/
def isAlive (db : Db) (agentId : String) : Bool :=
  (db.registry.get? agentId).any fun a ↦ a.state == .alive

/-- The name a session is shown under. -/
def nickOf (db : Db) (agentId : String) : String :=
  ((db.registry.get? agentId).map Agent.agentName).getD agentId

/-- The jobs leased to a session, oldest first. -/
def leasedTo (db : Db) (agentId : String) : List String :=
  ((db.poolJobs.rows.filter fun j ↦ j.worker == agentId && j.state == .leased).insertionSort
    (fun a b ↦ a.createdAt ≤ b.createdAt)).map Job.reqId

/-- The row of a job. -/
def job? (db : Db) (reqId : String) : Option Job := db.poolJobs.get? reqId

/-- The row of a member. -/
def member? (db : Db) (agentId : String) : Option Member := db.poolMembers.get? agentId

/-- One job rewritten. -/
def updateJob (db : Db) (reqId : String) (f : Job → Job) (hf : ∀ j, (f j).reqId = j.reqId) : Db :=
  { db with poolJobs := db.poolJobs.updateKey reqId f hf }

/-- One member rewritten. -/
def updateMember (db : Db) (agentId : String) (f : Member → Member)
    (hf : ∀ m, (f m).agentId = m.agentId) : Db :=
  { db with poolMembers := db.poolMembers.updateKey agentId f hf }

end Db

/-! ### Workers -/

/-- A member as `dispatch` sees it; `src/daemon/pool.rs:174`. -/
structure Worker where
  agentId : String
  nick : String
  alive : Bool
  capacity : Int
  suspect : Bool
  clearingUntil : Int
  lastSeen : Int
  lastAssigned : Int
  leased : List String
  deriving DecidableEq, Repr

/-- What a worker can do. -/
inductive WorkerState where
  | offline | suspect | clearing | busy | free
  deriving DecidableEq, Repr

/-- The state as it is shown. -/
def WorkerState.name : WorkerState → String
  | .offline => "offline"
  | .suspect => "suspect"
  | .clearing => "clearing"
  | .busy => "busy"
  | .free => "free"

/-- `Worker::state`, `src/daemon/pool.rs:188`. -/
def Worker.state (w : Worker) (now : Int) : WorkerState :=
  if !w.alive then .offline
  else if w.suspect then .suspect
  else if now < w.clearingUntil then .clearing
  else if w.capacity ≤ w.leased.length then .busy
  else .free

/-- One row of the query of `workers`. -/
def workerOf (db : Db) (m : Member) : Worker where
  agentId := m.agentId
  nick := db.nickOf m.agentId
  alive := db.isAlive m.agentId
  capacity := m.capacity
  suspect := m.suspect
  clearingUntil := m.clearingUntil.getD 0
  lastSeen := ((db.registry.get? m.agentId).map Agent.lastPingedAt).getD 0
  lastAssigned := m.lastAssignedAt.getD 0
  leased := db.leasedTo m.agentId

/-- `workers`, `src/daemon/pool.rs:204`. -/
def workers (db : Db) (pool : String) : List Worker :=
  (db.poolMembers.rows.filter fun m ↦ m.pool == pool).map (workerOf db)

/-- A free worker is alive, trusted, not being cleared, and has a slot left. -/
theorem Worker.state_eq_free_iff {w : Worker} {now : Int} :
    w.state now = .free ↔ w.alive = true ∧ w.suspect = false ∧ w.clearingUntil ≤ now ∧
      (w.leased.length : Int) < w.capacity := by
  unfold Worker.state
  split
  · next h => simp_all
  · next h =>
    split
    · next hs => simp_all
    · next hs =>
      split
      · next hc => simp only [reduceCtorEq, false_iff]; omega
      · next hc =>
        split
        · next hl => simp only [reduceCtorEq, false_iff]; omega
        · next hl =>
          simp only [Bool.not_eq_true', Bool.not_eq_false, Bool.not_eq_true] at h hs
          simp only [h, hs, true_and, true_iff]
          omega

/-- Every worker of a pool is one of its members. -/
theorem exists_of_mem_workers {db : Db} {pool : String} {w : Worker} (h : w ∈ workers db pool) :
    ∃ m ∈ db.poolMembers.rows, m.pool = pool ∧ w = workerOf db m := by
  obtain ⟨m, hm, rfl⟩ := List.mem_map.mp h
  obtain ⟨hmem, hpool⟩ := List.mem_filter.mp hm
  exact ⟨m, hmem, by simpa using hpool, rfl⟩

namespace Db

/-- How many jobs are leased to a session. -/
theorem length_leasedTo (db : Db) (agentId : String) :
    (db.leasedTo agentId).length =
      db.poolJobs.rows.countP fun j ↦ j.worker == agentId && j.state == .leased := by
  simp [leasedTo, List.countP_eq_length_filter]

/-- No job is leased to a session exactly when no row says so. -/
theorem leasedTo_eq_nil_iff {db : Db} {agentId : String} :
    db.leasedTo agentId = [] ↔
      ∀ j ∈ db.poolJobs.rows, j.worker = agentId → j.state ≠ .leased := by
  rw [← List.length_eq_zero_iff, length_leasedTo, List.countP_eq_zero]
  simp

end Db

end Claudebase.Pool
