import Claudebase.Pool.Clear
import Claudebase.Supervisor.Inject

/-!
# Clears and the sessions they empty

`src/daemon/pool.rs:388–474,600–728`, `src/daemon/subscribe_client.rs:420–430`,
`src/supervisor/inject.rs:91–230`. The daemon marks a worker while it waits for its context to be
cleared, and gives up after a while. The request it sent is a frame, then an entry in the queue
of the worker's supervisor, and stays there until the gate opens: it may outlive the mark.
-/

namespace Claudebase.Pool
open Claudebase.Base

/-! ### The daemon and the supervisors -/

/-- The frame that asks a worker's supervisor to `/clear` its session. -/
structure ClearFrame where
  clearId : String
  targetAgentId : String
  deriving DecidableEq, Repr

/-- The name of a clear. -/
def clearIdOf (now : Int) (seq : Nat) : String := s!"clr_{now}_{seq}"

/-- The pool, the frames on their way, and the session of each worker under its supervisor. -/
structure Cluster where
  pool : System
  frames : List ClearFrame
  sessions : String → Supervisor.System

/-- No call was made and every session begins. -/
def Cluster.start : Cluster := ⟨.empty, [], fun _ ↦ .start⟩

/-- A request to clear reaches a supervisor. -/
def asksClear : Supervisor.Op → Bool
  | .askClear _ => true
  | _ => false

/-- What can happen next: a call to the pool, a frame reaches the supervisor it names or
nobody, something happens in a session. -/
inductive ClusterAct where
  | call (op : Op)
  | deliver (i : Nat)
  | lose (i : Nat)
  | session (worker : String) (op : Supervisor.Op) (hop : asksClear op = false)

/-- The frames on their way after a call: a clear that begins sends one. -/
def framesAfter (s : System) (frames : List ClearFrame) : Op → List ClearFrame
  | .beginClear pool workerId seen now =>
    match beginClear s.db pool workerId seen now with
    | .ok (.begin, _) => frames ++ [⟨clearIdOf now s.seq, workerId⟩]
    | _ => frames
  | _ => frames

/-- One event. -/
def Cluster.next (c : Cluster) : ClusterAct → Cluster
  | .call op =>
    { c with pool := Pool.next c.pool op, frames := framesAfter c.pool c.frames op }
  | .deliver i =>
    match c.frames[i]? with
    | some f =>
      { c with
        frames := c.frames.eraseIdx i
        sessions := Function.update c.sessions f.targetAgentId
          (Supervisor.next (c.sessions f.targetAgentId) (.askClear ⟨f.clearId⟩)) }
    | none => c
  | .lose i => { c with frames := c.frames.eraseIdx i }
  | .session worker op _ =>
    { c with
      sessions := Function.update c.sessions worker (Supervisor.next (c.sessions worker) op) }

/-! ### Requests under way -/

/-- The injector is at a clear and has not submitted it. -/
def atClear : Supervisor.Pc → Bool
  | .gateModal .clear | .gateDraft .clear | .write .clear | .typed | .recheck .clear
  | .enter .clear => true
  | _ => false

/-- A supervisor has a request it has neither submitted nor given up. -/
def Asked (s : Supervisor.System) : Prop :=
  s.clearInbox ≠ [] ∨ s.clears ≠ [] ∨ atClear s.pc = true

/-- A request to clear the worker's context is on its way, waits in its supervisor, or is being
typed. -/
def Cluster.UnderWay (c : Cluster) (worker : String) : Prop :=
  (∃ f ∈ c.frames, f.targetAgentId = worker) ∨ Asked (c.sessions worker)

/-- A step by which the supervisor of `worker` submits `/clear`. -/
def Submits (worker : String) (t : Step Cluster ClusterAct) : Prop :=
  (t.after.sessions worker).pty = .enter .clear :: (t.before.sessions worker).pty

/-- A dispatch does not choose a worker while a request to clear its context is under way. -/
def SparesCleared (t : Step Cluster ClusterAct) : Prop :=
  ∀ host pool body clock busyClock now, t.op = .call (.dispatch host pool body clock busyClock now) →
    ∀ w, chooseWorker (workers t.before.pool.db pool) (pinOf body) clock busyClock = .ok w →
      ¬ t.before.UnderWay w.agentId

/-- No job is leased to a worker of whose clear a request is under way. -/
def ClearsIdle (c : Cluster) : Prop := ∀ w, c.UnderWay w → c.pool.db.leasedTo w = []

section Pool

variable {s : System} {op : Op} {w : String}

/-- A session without a job gets none but by a dispatch that chooses it. -/
theorem idle_next (hidle : s.db.leasedTo w = [])
    (hchoice : ∀ host pool body clock busyClock now,
      op = .dispatch host pool body clock busyClock now →
      ∀ v, chooseWorker (workers s.db pool) (pinOf body) clock busyClock = .ok v → v.agentId ≠ w) :
    (next s op).db.leasedTo w = [] := by
  have hbefore := Db.leasedTo_eq_nil_iff.mp hidle
  rw [Db.leasedTo_eq_nil_iff]
  intro j hj hw hs
  have hfind : (next s op).db.job? j.reqId = some j := Db.job?_eq_some_iff.mpr ⟨hj, rfl⟩
  have hnew : s.db.job? j.reqId ≠ some j := by
    intro hold
    exact hbefore j (Db.job?_eq_some_iff.mp hold).1 hw hs
  have hstep := jobStep s op j.reqId
  rw [hfind] at hstep
  rcases hstep.leased_after hs with ⟨j₀, hj₀, hs₀, hw₀, -⟩ | ⟨⟨_, _, _, _, _, now, hop⟩, -⟩
  · exact hbefore j₀ (Db.job?_eq_some_iff.mp hj₀).1 (hw₀.trans hw) hs₀
  · subst hop
    rcases transact_cases s.db (dispatch _ s.db _ _ _ _ now) with hsame | ⟨d, hok⟩
    · exact hnew ((congrArg (Db.job? · j.reqId) hsame).symm.trans hfind)
    · rcases dispatch_eq_ok hok with ⟨hsame, -⟩ | ⟨row, hrow, -⟩
      · exact hnew ((congrArg (Db.job? · j.reqId) hsame).symm.trans hfind)
      · have hjob : (writeLease s.db row now).job? j.reqId = some j :=
          (congrArg (Db.job? · j.reqId) hrow.db_eq).symm.trans hfind
        by_cases hq : j.reqId = row.reqId
        · rw [hq, job?_writeLease_self] at hjob
          cases hjob
          obtain ⟨v, hv, hrw⟩ := hrow.worker
          exact hchoice _ _ _ _ _ _ rfl v hv (hrw.symm.trans hw)
        · rw [job?_writeLease_of_ne hq] at hjob
          exact hnew hjob

/-- A frame on its way after a call was there before, or its clear begins and its worker has no
job. -/
theorem mem_framesAfter {frames : List ClearFrame} {f : ClearFrame}
    (h : f ∈ framesAfter s frames op) :
    f ∈ frames ∨ s.db.leasedTo f.targetAgentId = [] ∧
      ∀ host pool body clock busyClock now, op ≠ .dispatch host pool body clock busyClock now := by
  cases op with
  | beginClear pool workerId seen now =>
    unfold framesAfter at h
    dsimp only at h
    split at h
    · next db' hb =>
      rcases List.mem_append.mp h with hin | hnew
      · exact Or.inl hin
      · rw [List.mem_singleton.mp hnew]
        rcases beginClear_eq_ok hb with ⟨hno, -⟩ | ⟨-, -, hidle, -⟩
        · exact absurd rfl hno
        · exact Or.inr ⟨hidle, nofun⟩
    · exact Or.inl h
  | _ => exact Or.inl h

end Pool

section Session

variable {s : Supervisor.System} {op : Supervisor.Op}

/-- The top of the loop finds a request only among those that were there. -/
theorem asked_takeNext (h : Asked (Supervisor.takeNext s)) : Asked s := by
  unfold Supervisor.takeNext at h
  split at h
  · rcases h with hinbox | hclears | hpc
    · exact Or.inl hinbox
    · exact Or.inr (Or.inl hclears)
    · cases hpc
  · have hclears : (Supervisor.takeClears (Supervisor.takeMessage s)).clears =
        s.clears ++ s.clearInbox := by
      unfold Supervisor.takeClears Supervisor.takeMessage
      split
      · rfl
      · rfl
    have hnonempty : s.clears ++ s.clearInbox ≠ [] := by
      rcases h with hinbox | hqueue | hpc
      · exact absurd rfl hinbox
      · rw [← hclears]
        exact hqueue
      · dsimp only at hpc
        unfold Supervisor.waiting at hpc
        split at hpc
        · cases hpc
        · split at hpc
          · next hsome =>
            rw [hclears] at hsome
            simpa using hsome
          · cases hpc
    by_cases hinbox : s.clearInbox = []
    · rw [hinbox, List.append_nil] at hnonempty
      exact Or.inr (Or.inl hnonempty)
    · exact Or.inl hinbox

/-- A clear that ends, with whatever outcome, leaves the requests that wait. -/
theorem asked_report {outcome : Except String Unit} (h : Asked (s.report outcome)) : Asked s := by
  rcases h with hinbox | hclears | hpc
  · exact Or.inl hinbox
  · exact Or.inr (Or.inl hclears)
  · cases hpc

theorem asked_writeFailed {task : Supervisor.Task} {pasted : Bool} {e : String}
    (h : Asked (s.writeFailed task pasted e)) : Asked s := by
  cases task with
  | clear => exact asked_report h
  | block =>
    rcases h with hinbox | hclears | hpc
    · exact Or.inl hinbox
    · exact Or.inr (Or.inl hclears)
    · cases hpc

/-- A step that leaves the requests that wait and moves the injector to a clear from a clear
only. -/
theorem asked_of_pc {s' : Supervisor.System} (h : Asked s') (hinbox : s'.clearInbox = s.clearInbox)
    (hclears : s'.clears = s.clears) (hpc : atClear s'.pc = true → atClear s.pc = true) :
    Asked s := by
  unfold Asked at h
  rw [hinbox, hclears] at h
  exact h.imp id fun h ↦ h.imp id hpc

/-- The injector makes no request. -/
theorem asked_injectorStep {timedOut : Bool} {failure : Option String}
    (h : Asked (Supervisor.injectorStep s timedOut failure)) : Asked s := by
  unfold Supervisor.injectorStep at h
  cases hpc : s.pc with
  | top =>
    rw [hpc] at h
    exact asked_takeNext h
  | gateModal task =>
    rw [hpc] at h
    refine asked_of_pc h rfl rfl fun hat ↦ ?_
    rw [hpc]
    cases hmodal : s.screen.modalIsUp with
    | true => simp [hmodal, atClear] at hat
    | false => cases task <;> simp_all [atClear]
  | gateDraft task =>
    cases task with
    | clear => exact Or.inr (Or.inr (by rw [hpc]; rfl))
    | block =>
      rw [hpc] at h
      dsimp only at h
      split at h
      · exact asked_of_pc h rfl rfl nofun
      · exact asked_of_pc h rfl rfl nofun
  | write task =>
    cases task with
    | clear => exact Or.inr (Or.inr (by rw [hpc]; rfl))
    | block =>
      rw [hpc] at h
      cases failure with
      | some e => exact asked_writeFailed h
      | none => exact asked_of_pc h rfl rfl nofun
  | typed => exact Or.inr (Or.inr (by rw [hpc]; rfl))
  | recheck task =>
    cases task with
    | clear => exact Or.inr (Or.inr (by rw [hpc]; rfl))
    | block =>
      rw [hpc] at h
      cases hmodal : s.screen.modalIsUp with
      | true =>
        rw [hmodal] at h
        exact asked_of_pc h rfl rfl nofun
      | false =>
        rw [hmodal] at h
        exact asked_of_pc h rfl rfl nofun
  | enter task =>
    cases task with
    | clear => exact Or.inr (Or.inr (by rw [hpc]; rfl))
    | block =>
      rw [hpc] at h
      cases failure with
      | some e => exact asked_writeFailed h
      | none => exact asked_of_pc h rfl rfl nofun
  | settle task =>
    rw [hpc] at h
    cases task with
    | block => exact asked_of_pc h rfl rfl nofun
    | clear => exact asked_of_pc h rfl rfl nofun
  | erase why =>
    rw [hpc] at h
    cases failure with
    | some e => exact asked_report h
    | none => exact asked_of_pc (asked_report h) rfl rfl nofun
  | emptied =>
    rw [hpc] at h
    dsimp only at h
    split at h
    · exact asked_report h
    · split at h
      · exact asked_report h
      · exact h
  | stopped pasted =>
    rw [hpc] at h
    exact h

/-- A session makes no request to clear itself. -/
theorem asked_next (hop : asksClear op = false) (h : Asked (Supervisor.next s op)) : Asked s := by
  cases op with
  | askClear req => cases hop
  | step timedOut failure => exact asked_injectorStep h
  | receive msg => exact h
  | hangUp => exact h
  | finish => exact h
  | screen screen => exact h
  | read bytes =>
    unfold Supervisor.next at h
    dsimp only at h
    split at h
    · exact h
    · exact h
  | forward =>
    unfold Supervisor.next at h
    dsimp only at h
    split at h
    · exact h
    · exact h

end Session

/-! ### Along a run -/

section Event

variable {c : Cluster} {act : ClusterAct} {w : String}

/-- An event leaves a session or happens in it; what asks it to clear itself is a frame. -/
theorem sessions_next (c : Cluster) (act : ClusterAct) (w : String) :
    (c.next act).sessions w = c.sessions w ∨
      ∃ op, (c.next act).sessions w = Supervisor.next (c.sessions w) op ∧
        (asksClear op = true → ∃ f ∈ c.frames, f.targetAgentId = w) := by
  cases act with
  | call op => exact Or.inl rfl
  | lose i => exact Or.inl rfl
  | deliver i =>
    unfold Cluster.next
    dsimp only
    split
    · next f hf =>
      show Function.update c.sessions f.targetAgentId _ w = _ ∨
        ∃ op, Function.update c.sessions f.targetAgentId _ w = _ ∧ _
      by_cases hw : w = f.targetAgentId
      · subst hw
        rw [Function.update_self]
        exact Or.inr ⟨_, rfl, fun _ ↦ ⟨f, List.mem_of_getElem? hf, rfl⟩⟩
      · rw [Function.update_of_ne hw]
        exact Or.inl rfl
    · exact Or.inl rfl
  | session worker op hop =>
    show Function.update c.sessions worker _ w = _ ∨
      ∃ op, Function.update c.sessions worker _ w = _ ∧ _
    by_cases hw : w = worker
    · subst hw
      rw [Function.update_self]
      exact Or.inr ⟨op, rfl, fun hask ↦ by rw [hop] at hask; cases hask⟩
    · rw [Function.update_of_ne hw]
      exact Or.inl rfl

/-- A session that was asked after an event was asked before it, or a frame was on its way. -/
theorem underWay_of_asked (h : Asked ((c.next act).sessions w)) : c.UnderWay w := by
  rcases sessions_next c act w with hsame | ⟨op, hop, hframe⟩
  · rw [hsame] at h
    exact Or.inr h
  · rw [hop] at h
    by_cases hask : asksClear op = true
    · exact Or.inl (hframe hask)
    · exact Or.inr (asked_next (Bool.not_eq_true _ ▸ hask) h)

/-- A worker whose supervisor submits `/clear` was asked to. -/
theorem underWay_of_submits {t : Step Cluster ClusterAct} (ht : t.after = t.before.next t.op)
    (h : Submits w t) : t.before.UnderWay w := by
  unfold Submits at h
  rw [ht] at h
  rcases sessions_next t.before t.op w with hsame | ⟨op, hop, -⟩
  · rw [hsame] at h
    exact absurd h.symm (List.cons_ne_self _ _)
  · rw [hop] at h
    refine Or.inr (Or.inr (Or.inr ?_))
    rw [Supervisor.pc_of_enter h]
    rfl

/-- A call after which a request is under way: it was before, or its clear begins and its
worker has no job. -/
theorem underWay_of_call {op : Op} (h : (c.next (.call op)).UnderWay w) :
    c.UnderWay w ∨ c.pool.db.leasedTo w = [] ∧
      ∀ host pool body clock busyClock now,
        op ≠ .dispatch host pool body clock busyClock now := by
  rcases h with ⟨f, hf, rfl⟩ | hasked
  · rcases mem_framesAfter hf with hin | hnew
    · exact Or.inl (Or.inl ⟨f, hin, rfl⟩)
    · exact Or.inr hnew
  · exact Or.inl (Or.inr hasked)

/-- Other events send no frame. -/
theorem frames_next (hact : ∀ op, act ≠ .call op) : ∀ f ∈ (c.next act).frames, f ∈ c.frames := by
  cases act with
  | call op => exact absurd rfl (hact op)
  | lose i => exact fun f hf ↦ List.mem_of_mem_eraseIdx hf
  | session worker op hop => exact fun f hf ↦ hf
  | deliver i =>
    unfold Cluster.next
    dsimp only
    split
    · exact fun f hf ↦ List.mem_of_mem_eraseIdx hf
    · exact fun f hf ↦ hf

/-- Other events leave the pool. -/
theorem pool_next (hact : ∀ op, act ≠ .call op) : (c.next act).pool = c.pool := by
  cases act with
  | call op => exact absurd rfl (hact op)
  | lose i => rfl
  | session worker op hop => rfl
  | deliver i =>
    unfold Cluster.next
    dsimp only
    split
    · rfl
    · rfl

/-- A step keeps the workers idle while their clears are under way, when its dispatch spares
them. -/
theorem clearsIdle_next (h : ClearsIdle c) (hspares : SparesCleared ⟨c, act, c.next act⟩) :
    ClearsIdle (c.next act) := by
  intro w hw
  by_cases hact : ∃ op, act = .call op
  · obtain ⟨op, rfl⟩ := hact
    rcases underWay_of_call hw with hunder | ⟨hidle, hno⟩
    · refine idle_next (h w hunder) ?_
      rintro host pool body clock busyClock now rfl v hv rfl
      exact hspares _ _ _ _ _ _ rfl v hv hunder
    · refine idle_next hidle fun host pool body clock busyClock now hop ↦ ?_
      exact absurd hop (hno host pool body clock busyClock now)
  · rw [not_exists] at hact
    rw [pool_next hact]
    rcases hw with ⟨f, hf, rfl⟩ | hasked
    · exact h _ (Or.inl ⟨f, frames_next hact f hf, rfl⟩)
    · exact h w (underWay_of_asked hasked)

end Event

theorem clearsIdle_start : ClearsIdle .start := fun _ _ ↦ rfl

/-- Along every run whose dispatches choose no worker of whose clear a request is under way, no
job is leased to a worker when its supervisor submits `/clear`. -/
theorem submitted_idle (acts : List ClusterAct)
    (hspares : ∀ t ∈ trace Cluster.next .start acts, SparesCleared t) :
    ∀ t ∈ trace Cluster.next .start acts, ∀ w, Submits w t →
      t.before.pool.db.leasedTo w = [] ∧ t.after.pool.db.leasedTo w = [] := by
  intro t ht w hw
  have hidle := invariant_of_trace clearsIdle_start (fun t ht hbefore ↦ by
    rw [after_of_mem_trace ht]
    refine clearsIdle_next hbefore ?_
    rw [← after_of_mem_trace ht]
    exact hspares t ht) t ht
  have hunder := underWay_of_submits (after_of_mem_trace ht) hw
  have hcall : ∀ op, t.op ≠ .call op := by
    intro op hop
    unfold Submits at hw
    rw [after_of_mem_trace ht, hop] at hw
    exact absurd hw.symm (List.cons_ne_self _ _)
  refine ⟨hidle.1 w hunder, ?_⟩
  rw [after_of_mem_trace ht, pool_next hcall]
  exact hidle.1 w hunder

/-! ### A gate that stays shut -/

/-- A worker joins, and its gateway asks for its context to be cleared. -/
def askedRun : List ClusterAct :=
  [.call (.registry oneSession), .call (.join "w1" "p" 1 0), .call (.beginClear "p" "w1" 0 0),
    .deliver 0]

/-- The supervisor takes the request up, types `/clear` and submits it. -/
def submitRun : List ClusterAct :=
  [.session "w1" (.step false none) rfl, .session "w1" (.step false none) rfl,
    .session "w1" (.step false none) rfl, .session "w1" (.step false none) rfl,
    .session "w1" (.screen ⟨false, some "/clear", false, ""⟩) rfl,
    .session "w1" (.step false none) rfl, .session "w1" (.step false none) rfl,
    .session "w1" (.step false none) rfl]

/-- A dialog is up until the daemon gave up on the clear and leased a job to its worker. -/
def heldRun : List ClusterAct :=
  askedRun ++
    [.session "w1" (.screen ⟨true, none, false, ""⟩) rfl, .session "w1" (.step false none) rfl,
      .session "w1" (.step false none) rfl, .call (.endClear 2),
      .call (.dispatch Host.blank "p" (requestOf "r1" "w1") (fun _ ↦ 60001) (fun _ ↦ 60001)
        60001),
      .session "w1" (.screen .quiet) rfl] ++
    submitRun

theorem submitted_idle_held :
    ¬ ∀ acts, ∀ t ∈ trace Cluster.next .start acts, ∀ w, Submits w t →
      t.before.pool.db.leasedTo w = [] := by
  intro hclaim
  have hlast : ⟨run Cluster.next .start (heldRun.take 17), .session "w1" (.step false none) rfl,
      run Cluster.next .start heldRun⟩ ∈ trace Cluster.next .start heldRun :=
    List.mem_of_getElem? (i := 17) rfl
  have hsubmits : Submits "w1" ⟨run Cluster.next .start (heldRun.take 17),
      .session "w1" (.step false none) rfl, run Cluster.next .start heldRun⟩ := by
    unfold Submits
    decide
  have hnone := hclaim heldRun _ hlast "w1" hsubmits
  have hleased : (run Cluster.next .start (heldRun.take 17)).pool.db.leasedTo "w1" = ["r1"] := by
    decide
  rw [hleased] at hnone
  cases hnone

theorem submitted_idle_asked :
    (run Cluster.next .start (askedRun ++ submitRun)).pool.db.leasedTo "w1" = [] := by
  have hspares : ∀ t ∈ trace Cluster.next .start (askedRun ++ submitRun), SparesCleared t := by
    intro t ht host pool body clock busyClock now hop
    have hmem := op_mem_of_mem_trace ht
    rw [hop] at hmem
    simp [askedRun, submitRun] at hmem
  have hlast : ⟨run Cluster.next .start ((askedRun ++ submitRun).take 11),
      .session "w1" (.step false none) rfl, run Cluster.next .start (askedRun ++ submitRun)⟩ ∈
      trace Cluster.next .start (askedRun ++ submitRun) :=
    List.mem_of_getElem? (i := 11) rfl
  have hsubmits : Submits "w1" ⟨run Cluster.next .start ((askedRun ++ submitRun).take 11),
      .session "w1" (.step false none) rfl, run Cluster.next .start (askedRun ++ submitRun)⟩ := by
    unfold Submits
    decide
  exact (submitted_idle _ hspares _ hlast "w1" hsubmits).2

end Claudebase.Pool
