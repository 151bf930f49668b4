import Claudebase.Pool.Lifecycle

/-!
# Answers and the attempts they are for

`src/daemon/pool.rs:388–474,515–590,738–810`. A lost or expired job is dispatched again under
its request id, and the new lease replaces the row of the old one. A worker's answer names only
the request id and may be on its way for any time: the row it lands on is the one that is there
when it arrives.
-/

namespace Claudebase.Pool
open Claudebase.Base

/-! ### Answers on their way -/

/-- A job handed to a worker. Every lease is an attempt of its own, numbered by the call that
wrote it. -/
structure Attempt where
  seq : Nat
  reqId : String
  worker : String
  deriving DecidableEq, Repr

/-- What a worker answers a job with. -/
inductive Word where
  | reply (result : String)
  | fail (reason : String)
  deriving DecidableEq, Repr

/-- An answer, and the attempt its worker sent it for. -/
structure Answer where
  attempt : Attempt
  word : Word
  deriving DecidableEq, Repr

/-- The call an answer makes when it arrives: it names the worker and the request. -/
def Answer.op (x : Answer) (now : Int) : Op :=
  match x.word with
  | .reply result => .reply x.attempt.worker x.attempt.reqId result now
  | .fail reason => .fail x.attempt.worker x.attempt.reqId reason now

/-- A worker's answer to a job. -/
def Op.isAnswer : Op → Bool
  | .reply _ _ _ _ | .fail _ _ _ _ => true
  | _ => false

/-- The pool, the attempts handed out so far, newest first, and the answers on their way. -/
structure Exchange where
  pool : System
  handed : List Attempt
  mail : List Answer

/-- No call was made. -/
def Exchange.empty : Exchange := ⟨.empty, [], []⟩

/-- What can happen next: a call that is not an answer, a worker answers an attempt it was
handed, an answer arrives. -/
inductive Act where
  | call (op : Op) (hop : op.isAnswer = false)
  | send (attempt : Attempt) (word : Word)
  | arrive (i : Nat) (now : Int)

/-- The attempts handed out after a call. -/
def handedAfter (s : System) (handed : List Attempt) : Op → List Attempt
  | .dispatch host pool body clock busyClock now =>
    match dispatch host s.db pool body clock busyClock now with
    | .ok (.leased view worker _, _) => ⟨s.seq, view.reqId, worker⟩ :: handed
    | _ => handed
  | _ => handed

/-- One event. -/
def Exchange.next (e : Exchange) : Act → Exchange
  | .call op _ =>
    { e with pool := Pool.next e.pool op, handed := handedAfter e.pool e.handed op }
  | .send attempt word =>
    if attempt ∈ e.handed then { e with mail := e.mail ++ [⟨attempt, word⟩] } else e
  | .arrive i now =>
    match e.mail[i]? with
    | some x => { e with pool := Pool.next e.pool (x.op now), mail := e.mail.eraseIdx i }
    | none => e

/-- The attempt whose row a job has: the last one that was handed out. -/
def Exchange.attemptOf (e : Exchange) (reqId : String) : Option Attempt :=
  e.handed.find? fun a ↦ a.reqId == reqId

/-- Whether an answer is recorded as its job's outcome. -/
def records (db : Db) (x : Answer) (now : Int) : Bool :=
  match x.word with
  | .reply result =>
    match workerReply db x.attempt.worker x.attempt.reqId result now with
    | .ok (.accepted _, _) => true
    | _ => false
  | .fail reason =>
    match workerFail db x.attempt.worker x.attempt.reqId reason now with
    | .ok ((failed, _), _) => failed
    | _ => false

/-- The session holds the lease of a job. -/
def Db.LeasedBy (db : Db) (reqId worker : String) : Prop :=
  ∃ j, db.job? reqId = some j ∧ j.state = .leased ∧ j.worker = worker

/-- An answer that arrives is recorded for the attempt it was sent for, or not at all. -/
def AnswersOwn (t : Step Exchange Act) : Prop :=
  ∀ i now x, t.op = .arrive i now → t.before.mail[i]? = some x →
    records t.before.pool.db x now = true → t.before.attemptOf x.attempt.reqId = some x.attempt

/-- A worker that holds the lease of a job when an answer of it arrives was not handed the job
again since the attempt it answered. -/
def NotHandedAgain (t : Step Exchange Act) : Prop :=
  ∀ i now x, t.op = .arrive i now → t.before.mail[i]? = some x →
    t.before.pool.db.LeasedBy x.attempt.reqId x.attempt.worker →
    ∀ a ∈ t.before.handed, a.reqId = x.attempt.reqId → a.worker = x.attempt.worker →
      a.seq ≤ x.attempt.seq

/-! ### What is recorded -/

section Records

variable {db : Db} {reqId reason : String} {now : Int}

/-- The refusal of the session that holds the lease. -/
theorem workerFail_of_leased {j : Job} (hj : db.job? reqId = some j) (hs : j.state = .leased) :
    workerFail db j.worker reqId reason now = .ok ((true, .failed),
      (trust db j.worker).updateJob reqId (fun j ↦ j.refused reason now)
        fun j ↦ j.reqId_refused reason now) := by
  have howned : ownedJob db j.worker reqId = .ok j := by
    unfold ownedJob
    rw [hj]
    exact bind_eq_ok.mpr ⟨(), require_of_pos rfl, rfl⟩
  unfold workerFail
  rw [howned]
  exact if_pos hs

/-- An answer is recorded exactly while its session holds the lease. -/
theorem records_iff {x : Answer} :
    records db x now = true ↔ db.LeasedBy x.attempt.reqId x.attempt.worker := by
  obtain ⟨⟨seq, q, w⟩, word⟩ := x
  unfold records
  cases word with
  | reply result =>
    dsimp only
    constructor
    · intro h
      split at h
      · next r db' hok =>
        obtain ⟨j, hj, hw, hself, -⟩ := workerReply_eq_ok hok
        rcases hself with ⟨hs, -⟩ | ⟨-, hr, -⟩
        · exact ⟨j, hj, hs, hw⟩
        · cases hr
      · cases h
    · rintro ⟨j, hj, hs, rfl⟩
      rw [workerReply_of_leased hj hs]
  | fail reason =>
    dsimp only
    constructor
    · intro h
      split at h
      · next failed state db' hok =>
        obtain ⟨j, hj, hw, hself, -⟩ := workerFail_eq_ok hok
        rcases hself with ⟨hs, -⟩ | ⟨-, hr, -⟩
        · exact ⟨j, hj, hs, hw⟩
        · cases hr
          cases h
      · cases h
    · rintro ⟨j, hj, hs, rfl⟩
      rw [workerFail_of_leased hj hs]

end Records

/-! ### Attempts along a run -/

/-- Of the attempts that meet a test the one found first is the newest. -/
theorem eq_or_lt_of_find? {l : List Attempt} {p : Attempt → Bool} {a b : Attempt}
    (hl : l.Pairwise fun a b ↦ b.seq < a.seq) (hb : l.find? p = some b) (ha : a ∈ l)
    (hp : p a = true) : a = b ∨ a.seq < b.seq := by
  induction l with
  | nil => cases ha
  | cons c l ih =>
    obtain ⟨hc, hrest⟩ := List.pairwise_cons.mp hl
    by_cases hpc : p c = true
    · rw [List.find?_cons_of_pos hpc] at hb
      cases hb
      rcases List.mem_cons.mp ha with rfl | ha
      · exact Or.inl rfl
      · exact Or.inr (hc a ha)
    · rw [List.find?_cons_of_neg hpc] at hb
      rcases List.mem_cons.mp ha with rfl | ha
      · exact absurd hp hpc
      · exact ih hrest hb ha

/-- What holds along every run: attempts are numbered in the order they were handed out, a row
is that of the last one of its job, and an answer was sent for one of them. -/
structure Numbered (e : Exchange) : Prop where
  order : e.handed.Pairwise fun a b ↦ b.seq < a.seq
  bound : ∀ a ∈ e.handed, a.seq < e.pool.seq
  row : ∀ q j, e.pool.db.job? q = some j → ∃ a, e.attemptOf q = some a ∧ a.worker = j.worker
  sent : ∀ x ∈ e.mail, x.attempt ∈ e.handed

section Step

variable {s : System} {op : Op} {handed : List Attempt} {q : String}

/-- Only a dispatch gives a job to a worker. -/
theorem JobStep.worker_eq {before : Option Job} {j' : Job} (h : JobStep op q before (some j'))
    (hop : ∀ host pool body clock busyClock now,
      op ≠ .dispatch host pool body clock busyClock now) :
    ∃ j, before = some j ∧ j.worker = j'.worker := by
  cases h with
  | kept j read gone => exact ⟨j, rfl, rfl⟩
  | leased old row host pool body clock busyClock now hdispatch =>
    exact absurd hdispatch (hop host pool body clock busyClock now)
  | replied j result now => exact ⟨j, rfl, rfl⟩
  | refused j reason now => exact ⟨j, rfl, rfl⟩
  | cancelled j now => exact ⟨j, rfl, rfl⟩
  | expired j now cooldown => exact ⟨j, rfl, rfl⟩
  | lost j now cooldown => exact ⟨j, rfl, rfl⟩

theorem worker_of_next {j' : Job} (hj' : (Pool.next s op).db.job? q = some j')
    (hop : ∀ host pool body clock busyClock now,
      op ≠ .dispatch host pool body clock busyClock now) :
    ∃ j, s.db.job? q = some j ∧ j.worker = j'.worker := by
  have hstep := jobStep s op q
  rw [hj'] at hstep
  exact hstep.worker_eq hop

/-- A call hands nothing out and changes no job's worker, or it hands out the one job it
leases. -/
theorem handedAfter_cases (s : System) (handed : List Attempt) (op : Op) :
    (handedAfter s handed op = handed ∧ ∀ q j', (Pool.next s op).db.job? q = some j' →
      ∃ j, s.db.job? q = some j ∧ j.worker = j'.worker) ∨
    ∃ row : Job, handedAfter s handed op = ⟨s.seq, row.reqId, row.worker⟩ :: handed ∧
      (Pool.next s op).db.job? row.reqId = some row ∧
      ∀ q, q ≠ row.reqId → (Pool.next s op).db.job? q = s.db.job? q := by
  cases op with
  | dispatch host pool body clock busyClock now =>
    unfold handedAfter
    dsimp only
    have hdb : (Pool.next s (.dispatch host pool body clock busyClock now)).db =
        (transact s.db (dispatch host s.db pool body clock busyClock now)).2 := rfl
    cases hd : dispatch host s.db pool body clock busyClock now with
    | error e =>
      rw [hd] at hdb
      refine Or.inl ⟨rfl, fun q j' hj' ↦ ⟨j', ?_, rfl⟩⟩
      exact (congrArg (Db.job? · q) hdb).symm.trans hj'
    | ok r =>
      obtain ⟨d, db'⟩ := r
      rw [hd] at hdb
      rcases dispatch_eq_ok hd with ⟨rfl, hno⟩ | ⟨row, hrow, -⟩
      · refine Or.inl ⟨?_, fun q j' hj' ↦ ⟨j', ?_, rfl⟩⟩
        · split
          · next view worker line _ heq =>
            cases heq
            exact absurd rfl (hno view worker line)
          · rfl
        · exact (congrArg (Db.job? · q) hdb).symm.trans hj'
      · obtain ⟨line, rfl⟩ := hrow.answer
        have hlease : (Pool.next s (.dispatch host pool body clock busyClock now)).db =
            writeLease s.db row now := hdb.trans hrow.db_eq
        refine Or.inr ⟨row, rfl, ?_, fun q hq ↦ ?_⟩
        · rw [hlease]
          exact job?_writeLease_self
        · rw [hlease]
          exact job?_writeLease_of_ne hq
  | _ => exact Or.inl ⟨rfl, fun q j' hj' ↦ worker_of_next hj' nofun⟩

/-- A call keeps the numbering. -/
theorem Numbered.call {e : Exchange} (h : Numbered e) (op : Op) :
    Numbered { e with pool := Pool.next e.pool op, handed := handedAfter e.pool e.handed op } := by
  rcases handedAfter_cases e.pool e.handed op with ⟨hsame, hjobs⟩ | ⟨row, hnew, hself, hother⟩
  · rw [hsame]
    refine ⟨h.order, fun a ha ↦ Nat.lt_succ_of_lt (h.bound a ha), fun q j' hj' ↦ ?_, h.sent⟩
    obtain ⟨j, hj, hw⟩ := hjobs q j' hj'
    obtain ⟨a, ha, haw⟩ := h.row q j hj
    exact ⟨a, ha, haw.trans hw⟩
  · rw [hnew]
    refine ⟨List.pairwise_cons.mpr ⟨h.bound, h.order⟩, ?_, ?_, ?_⟩
    · intro a ha
      show a.seq < e.pool.seq + 1
      rcases List.mem_cons.mp ha with rfl | ha
      · exact Nat.lt_succ_self _
      · exact Nat.lt_succ_of_lt (h.bound a ha)
    · intro q j hj
      by_cases hq : q = row.reqId
      · subst hq
        rw [hself] at hj
        cases hj
        exact ⟨_, List.find?_cons_of_pos (by simp), rfl⟩
      · rw [hother q hq] at hj
        obtain ⟨a, ha, haw⟩ := h.row q j hj
        refine ⟨a, ?_, haw⟩
        refine (List.find?_cons_of_neg ?_).trans ha
        simpa using Ne.symm hq
    · exact fun x hx ↦ List.mem_cons_of_mem _ (h.sent x hx)

/-- An answer hands nothing out. -/
theorem handedAfter_answer (x : Answer) (now : Int) :
    handedAfter s handed (x.op now) = handed := by
  unfold Answer.op
  cases x.word with
  | reply result => rfl
  | fail reason => rfl

/-- Every event keeps the numbering. -/
theorem Numbered.next {e : Exchange} (h : Numbered e) (act : Act) : Numbered (e.next act) := by
  cases act with
  | call op hop => exact h.call op
  | send attempt word =>
    unfold Exchange.next
    dsimp only
    split
    · next hmem =>
      refine ⟨h.order, h.bound, h.row, fun x hx ↦ ?_⟩
      rcases List.mem_append.mp hx with hx | hx
      · exact h.sent x hx
      · rw [List.mem_singleton.mp hx]
        exact hmem
    · exact h
  | arrive i now =>
    unfold Exchange.next
    dsimp only
    split
    · next x hx =>
      have hcall := h.call (x.op now)
      rw [handedAfter_answer] at hcall
      exact ⟨hcall.order, hcall.bound, hcall.row,
        fun y hy ↦ h.sent y (List.mem_of_mem_eraseIdx hy)⟩
    · exact h

theorem numbered_empty : Numbered .empty where
  order := .nil
  bound _ ha := absurd ha List.not_mem_nil
  row _ _ hj := nomatch hj
  sent _ hx := absurd hx List.not_mem_nil

/-- An answer of the session that holds the lease is for the attempt that was handed out last
exactly when none was handed to the session since. -/
theorem Numbered.attemptOf_iff {e : Exchange} {x : Answer} (h : Numbered e) (hx : x ∈ e.mail)
    (hleased : e.pool.db.LeasedBy x.attempt.reqId x.attempt.worker) :
    e.attemptOf x.attempt.reqId = some x.attempt ↔
      ∀ a ∈ e.handed, a.reqId = x.attempt.reqId → a.worker = x.attempt.worker →
        a.seq ≤ x.attempt.seq := by
  obtain ⟨j, hj, -, hw⟩ := hleased
  obtain ⟨b, hb, hbw⟩ := h.row _ j hj
  have hbmem : b ∈ e.handed := List.mem_of_find?_eq_some hb
  have hbq : b.reqId = x.attempt.reqId := by simpa using List.find?_some hb
  constructor
  · intro hx' a ha haq haw
    rcases eq_or_lt_of_find? h.order hx' ha (by simpa using haq) with rfl | hlt
    · exact le_rfl
    · exact hlt.le
  · intro hall
    have hle : b.seq ≤ x.attempt.seq := hall b hbmem hbq (hbw.trans hw)
    rcases eq_or_lt_of_find? h.order hb (h.sent x hx) (by simp) with heq | hlt
    · exact hb.trans (congrArg some heq.symm)
    · omega

end Step

/-- Along every run an answer that arrives is recorded for the attempt it was sent for, or not
at all, if and only if its session, when it holds the lease of the job, was not handed the job
again since that attempt. -/
theorem answers_own_iff (acts : List Act) :
    ∀ t ∈ trace Exchange.next .empty acts, AnswersOwn t ↔ NotHandedAgain t := by
  intro t ht
  have hnum : Numbered t.before := by
    refine (invariant_of_trace numbered_empty (fun t ht hbefore ↦ ?_) t ht).1
    rw [after_of_mem_trace ht]
    exact hbefore.next t.op
  constructor
  · intro hown i now x hop hx hleased
    have hmem : x ∈ t.before.mail := List.mem_of_getElem? hx
    exact (hnum.attemptOf_iff hmem hleased).mp (hown i now x hop hx (records_iff.mpr hleased))
  · intro hnot i now x hop hx hrec
    have hmem : x ∈ t.before.mail := List.mem_of_getElem? hx
    have hleased := records_iff.mp hrec
    exact (hnum.attemptOf_iff hmem hleased).mpr (hnot i now x hop hx hleased)

/-! ### An answer that comes late -/

/-- A job is leased and its worker answers. -/
def answeredRun : List Act :=
  [.call (.registry oneSession) rfl, .call (.join "w1" "p" 1 10) rfl,
    .call (.dispatch Host.blank "p" (requestOf "r1" "w1") (fun _ ↦ 20) (fun _ ↦ 20) 20) rfl,
    .send ⟨2, "r1", "w1"⟩ (.reply "\"one\"")]

/-- Its answer is still on its way when the lease has run out, the worker says that it is ready,
and the job is dispatched to it again. -/
def lateAnswerRun : List Act :=
  answeredRun ++
    [.call (.sweep 480020 60000) rfl, .call (.ready "w1") rfl,
      .call (.dispatch Host.blank "p" (requestOf "r1" "w1") (fun _ ↦ 480030) (fun _ ↦ 480030)
        480030) rfl,
      .arrive 0 480040]

theorem answers_own_late :
    ¬ ∀ acts, ∀ t ∈ trace Exchange.next .empty acts, AnswersOwn t := by
  intro hclaim
  have hlast : ⟨run Exchange.next .empty (lateAnswerRun.take 7), .arrive 0 480040,
      run Exchange.next .empty lateAnswerRun⟩ ∈ trace Exchange.next .empty lateAnswerRun :=
    List.mem_of_getElem? (i := 7) rfl
  have hown := hclaim lateAnswerRun _ hlast 0 480040 ⟨⟨2, "r1", "w1"⟩, .reply "\"one\""⟩ rfl
    (by decide) (by decide)
  have hother : (run Exchange.next .empty (lateAnswerRun.take 7)).attemptOf "r1" =
      some ⟨5, "r1", "w1"⟩ := by decide
  rw [hother] at hown
  cases hown

/-- The answer of the only attempt is recorded for it. -/
theorem answers_own_answered :
    AnswersOwn ⟨run Exchange.next .empty answeredRun, .arrive 0 30,
      run Exchange.next .empty (answeredRun ++ [.arrive 0 30])⟩ := by
  have hlast : ⟨run Exchange.next .empty answeredRun, .arrive 0 30,
      run Exchange.next .empty (answeredRun ++ [.arrive 0 30])⟩ ∈
      trace Exchange.next .empty (answeredRun ++ [.arrive 0 30]) :=
    List.mem_of_getElem? (i := 4) rfl
  rw [answers_own_iff _ _ hlast]
  intro i now x hop hx hleased a ha haq haw
  cases hop
  have hanswer : (run Exchange.next .empty answeredRun).mail[0]? =
      some ⟨⟨2, "r1", "w1"⟩, .reply "\"one\""⟩ := by decide
  cases hanswer.symm.trans hx
  have honly : a ∈ [(⟨2, "r1", "w1"⟩ : Attempt)] := ha
  rw [List.mem_singleton.mp honly]

end Claudebase.Pool
