import Claudebase.Journal.Callers
import Claudebase.Pool.Submit
import Claudebase.Supervisor.Cleared

/-!
# A clear, from the gateway to the terminal and back

`src/daemon/pool.rs:600–735,1002–1045`, `src/daemon/subscribe_client.rs:438–455`,
`src/supervisor/mod.rs:434–460`. The gateway's call marks the worker, leaves itself in `CLEARS`,
sends a frame to whoever is subscribed to the worker's thread, and waits. The supervisor the frame
names types `/clear` and tells the daemon how it went over a connection of its own. Calls, frames,
keystrokes and reports interleave in any order; a report may be lost, and any program that holds a
session's token may make one.
-/

namespace Claudebase.Pool
open Claudebase.Base

/-! ### Calls -/

/-- What the gateway is told of a clear that began. -/
inductive Reply where
  | cleared
  | failed (why : String)
  | unreachable
  | timeout
  deriving DecidableEq, Repr

/-- The status line. -/
def Reply.status : Reply → String
  | .cleared => "200 OK"
  | .failed _ => "502 Bad Gateway"
  | .unreachable => "503 Service Unavailable"
  | .timeout => "504 Gateway Timeout"

/-- Where a call of `clear_worker` is. -/
inductive Stage where
  /-- The worker is marked. -/
  | begun
  /-- The call is in `CLEARS`. -/
  | listed
  /-- The frame is sent, and the call waits. -/
  | asked
  /-- The call waits no longer. -/
  | ended (reply : Reply)
  /-- The call is not in `CLEARS` any more. -/
  | closed (reply : Reply)
  /-- The mark is lifted and the gateway is answered. -/
  | answered (reply : Reply)
  deriving DecidableEq, Repr

/-- How far a call is. -/
def Stage.rank : Stage → Nat
  | .begun => 0
  | .listed => 1
  | .asked => 2
  | .ended _ => 3
  | .closed _ => 4
  | .answered _ => 5

/-- The reply, once it is known. -/
def Stage.reply? : Stage → Option Reply
  | .begun | .listed | .asked => none
  | .ended r | .closed r | .answered r => some r

/-- A call that waits, or is about to, has no reply. -/
theorem Stage.reply?_of_rank {stage : Stage} (h : stage.rank ≤ 2) : stage.reply? = none := by
  cases stage with
  | begun => rfl
  | listed => rfl
  | asked => rfl
  | ended r => exact absurd h (by simp [rank])
  | closed r => exact absurd h (by simp [rank])
  | answered r => exact absurd h (by simp [rank])

theorem Stage.eq_asked {stage : Stage} (h : stage.rank = 2) : stage = .asked := by
  cases stage with
  | asked => rfl
  | _ => cases h

/-- A call of `clear_worker`: its number of `SEQ`, the clear of the pool it stands for, and what
its channel holds. -/
structure ClearCall where
  number : Nat
  seq : Nat
  clearId : String
  worker : String
  stage : Stage
  slot : Option (Except String Unit)

/-- A row of `CLEARS`; the sender belongs to a call. -/
structure Waiter where
  clearId : String
  worker : String
  number : Nat
  deriving DecidableEq, Repr

/-! ### Sessions -/

/-- A session's supervisor: what it reports with, the threads of its connection, the frames that
have not been read from it, and the injector. -/
structure Party where
  agentId : String
  sessionToken : String
  threads : List String
  frames : List ClearFrame
  injector : Supervisor.System

/-- The arguments of `pool_cleared`. -/
structure Report where
  agentId : String
  sessionToken : String
  clearId : String
  outcome : Except String Unit

/-- What a step of the injector makes the supervisor report. -/
def Party.newReports (p : Party) (after : Supervisor.System) : List Report :=
  (after.reports.take (after.reports.length - p.injector.reports.length)).filterMap fun r ↦
    r.1.map fun req ↦ ⟨p.agentId, p.sessionToken, req.clearId, r.2⟩

/-- A frame reaches a connection that is subscribed to its thread. -/
def Party.hear (thread : String) (f : ClearFrame) (p : Party) : Party :=
  if p.threads.contains thread then { p with frames := p.frames ++ [f] } else p

/-- `pump`: a frame is read, and a request for this session goes to its injector. -/
def Party.pump (p : Party) : Party :=
  match p.frames with
  | [] => p
  | f :: rest =>
    { p with
      frames := rest
      injector := if f.targetAgentId = p.agentId then
          Supervisor.next p.injector (.askClear ⟨f.clearId⟩)
        else p.injector }

/-! ### The daemon -/

/-- The pool, the sessions' tokens, the calls with `SEQ` and `CLEARS`, the supervisors, and the
reports on their way. -/
structure Desk where
  pool : System
  sessions : Table Journal.SessionRow.agentId
  issued : Nat
  calls : Table ClearCall.number
  clears : Table Waiter.clearId
  parties : List Party
  reports : List Report

/-- Nothing has happened. -/
def Desk.start : Desk := ⟨.empty, .empty, 0, .empty, .empty, [], []⟩

namespace Desk

/-- The call gets to a stage. -/
def setStage (s : Desk) (number : Nat) (stage : Stage) : Desk :=
  { s with calls := s.calls.updateKey number (fun c ↦ { c with stage }) fun _ ↦ rfl }

/-- The call's channel gets an outcome. -/
def setSlot (s : Desk) (number : Nat) (outcome : Except String Unit) : Desk :=
  { s with calls := s.calls.updateKey number (fun c ↦ { c with slot := some outcome }) fun _ ↦ rfl }

/-- `begin_clear`, and the id of the clear that begins. -/
def beginCall (s : Desk) (pool workerId : String) (seen now : Int) : Desk :=
  let after := next s.pool (.beginClear pool workerId seen now)
  match beginClear s.pool.db pool workerId seen now with
  | .ok (.begin, _) =>
    { s with
      pool := after
      issued := s.issued + 1
      calls := s.calls.insertOrReplace
        ⟨s.issued, s.pool.seq, clearIdOf now s.issued, workerId, .begun, none⟩ }
  | _ => { s with pool := after }

/-- The call goes into `CLEARS`. -/
def register (s : Desk) (c : ClearCall) : Desk :=
  { s with clears := s.clears.insertOrReplace ⟨c.clearId, c.worker, c.number⟩ }.setStage
    c.number .listed

/-- The frame is published. `others` says whether anything else is subscribed to the thread. -/
def publish (s : Desk) (c : ClearCall) (others : Bool) : Desk :=
  let thread := s!"agent:{c.worker}"
  if others || s.parties.any fun p : Party ↦ p.threads.contains thread then
    { s with parties := s.parties.map (Party.hear thread ⟨c.clearId, c.worker⟩) }.setStage c.number
      .asked
  else s.setStage c.number (.ended .unreachable)

/-- What the wait ends with: what the channel holds, or nothing in time. -/
def replyOf : Option (Except String Unit) → Reply
  | some (.ok ()) => .cleared
  | some (.error why) => .failed why
  | none => .timeout

/-- `clear_worker`, from one of its stages to the next. -/
def advance (s : Desk) (c : ClearCall) (others : Bool) : Desk :=
  match c.stage with
  | .begun => s.register c
  | .listed => s.publish c others
  | .asked => s.setStage c.number (.ended (replyOf c.slot))
  | .ended r => { s with clears := s.clears.deleteKey c.clearId }.setStage c.number (.closed r)
  | .closed r => { s with pool := next s.pool (.endClear c.seq) }.setStage c.number (.answered r)
  | .answered _ => s

/-- `worker_cleared`, as `handle_tool` calls it. -/
def workerCleared (s : Desk) (r : Report) : Except String Json × Desk :=
  if r.agentId = "" ∨ ¬ Journal.resolveSessionToken s.sessions r.agentId r.sessionToken then
    (.error ("pool commands need the session that holds the job (started with " ++
      "claudebase run --pool …)"), s)
  else
    match s.clears.get? r.clearId with
    | some w =>
      if w.worker = r.agentId then
        (.ok (.obj [("ok", .bool true)]),
          { s with clears := s.clears.deleteKey r.clearId }.setSlot w.number r.outcome)
      else (.error s!"clear {r.clearId} is not this session's", s)
    | none =>
      (.ok (.obj [("ok", .bool true),
        ("note", .str "nobody is waiting for this clear any more")]), s)

end Desk

/-- What can happen next: a call to the pool that is no clear, the registry changes, a gateway's
call begins or goes on; a supervisor starts, connects anew, subscribes, misses a frame, reads one,
or something happens in its session; a report arrives or is lost; another program reports. -/
inductive DeskAct where
  | pool (op : Op)
  | registry (rows : Table Journal.SessionRow.agentId)
  | clear (pool workerId : String) (seen now : Int)
  | advance (number : Nat) (others : Bool)
  | join (agentId sessionToken : String)
  | connect (i : Nat) (threads : List String)
  | subscribe (i : Nat) (thread : String)
  | miss (i : Nat)
  | pump (i : Nat)
  | session (i : Nat) (op : Supervisor.Op) (hop : asksClear op = false)
  | arrive (i : Nat)
  | lose (i : Nat)
  | say (r : Report)

namespace Desk

/-- A call to the pool that neither begins nor ends a clear. -/
def callPool (s : Desk) : Op → Desk
  | .beginClear _ _ _ _ | .endClear _ => s
  | op => { s with pool := Pool.next s.pool op }

/-- A supervisor goes on. -/
def setParty (s : Desk) (i : Nat) (f : Party → Party) : Desk :=
  match s.parties[i]? with
  | some p => { s with parties := s.parties.set i (f p) }
  | none => s

/-- One event. -/
def next (s : Desk) : DeskAct → Desk
  | .pool op => s.callPool op
  | .registry rows => { s with sessions := rows }
  | .clear pool workerId seen now => s.beginCall pool workerId seen now
  | .advance number others =>
    match s.calls.get? number with
    | some c => s.advance c others
    | none => s
  | .join agentId sessionToken =>
    { s with parties := s.parties ++ [⟨agentId, sessionToken, [], [], .start⟩] }
  | .connect i threads => s.setParty i fun p ↦ { p with threads, frames := [] }
  | .subscribe i thread => s.setParty i fun p ↦ { p with threads := p.threads ++ [thread] }
  | .miss i => s.setParty i fun p ↦ { p with frames := p.frames.drop 1 }
  | .pump i => s.setParty i Party.pump
  | .session i op _ =>
    match s.parties[i]? with
    | some p =>
      let injector := Supervisor.next p.injector op
      { s with
        parties := s.parties.set i { p with injector }
        reports := s.reports ++ p.newReports injector }
    | none => s
  | .arrive i =>
    match s.reports[i]? with
    | some r => ({ s with reports := s.reports.eraseIdx i }.workerCleared r).2
    | none => s
  | .lose i => { s with reports := s.reports.eraseIdx i }
  | .say r => (s.workerCleared r).2

end Desk

/-! ### Ids -/

theorem underscore_not_mem (now : Int) : '_' ∉ (toString now).toList := by
  cases now with
  | ofNat n =>
    have hlist : (toString (Int.ofNat n)).toList = Nat.toDigits 10 n := by
      rw [← Nat.toList_repr]
      rfl
    rw [hlist]
    exact Nat.underscore_not_in_toDigits
  | negSucc n =>
    have hlist : (toString (Int.negSucc n)).toList = '-' :: Nat.toDigits 10 (n + 1) := by
      simp [toString, Int.repr]
    rw [hlist]
    simp [Nat.underscore_not_in_toDigits]

/-- The number tells the ids apart. -/
theorem clearIdOf_inj {now now' : Int} {n n' : Nat} (h : clearIdOf now n = clearIdOf now' n') :
    n = n' := by
  have hlist : (toString now).toList ++ '_' :: n.repr.toList =
      (toString now').toList ++ '_' :: n'.repr.toList := by
    have hlist := congrArg String.toList h
    have hbar : (toString "_").toList = ['_'] := rfl
    simp only [clearIdOf, String.toList_append, List.append_assoc, hbar] at hlist
    exact List.append_cancel_left hlist
  rw [Nat.toList_repr, Nat.toList_repr] at hlist
  obtain ⟨-, -, hdigits⟩ := (List.append_cons_inj_of_notMem (underscore_not_mem now)
    Nat.underscore_not_in_toDigits).mp hlist
  have hvalue := congrArg (Nat.ofDigitChars 10 · 0) hdigits
  simpa [Nat.ofDigitChars_ten_toDigits] using hvalue

/-! ### What is known of a call -/

/-- A later state of a call. -/
structure ClearCall.Later (c c' : ClearCall) : Prop where
  number : c'.number = c.number
  clearId : c'.clearId = c.clearId
  worker : c'.worker = c.worker
  rank : c.stage.rank ≤ c'.stage.rank

namespace Desk

variable {s s' : Desk} {c : ClearCall} {p : Party} {act : DeskAct}

/-- Every call goes forward. -/
def Later (s s' : Desk) : Prop := ∀ c ∈ s.calls.rows, ∃ c' ∈ s'.calls.rows, c.Later c'

/-- A call with this id and worker has been sent out. -/
def Sent (s : Desk) (clearId worker : String) : Prop :=
  ∃ c ∈ s.calls.rows, c.clearId = clearId ∧ c.worker = worker ∧ 2 ≤ c.stage.rank

/-- A supervisor knows of calls for its session only, and its frames are of calls that were
sent. -/
structure PartyKnown (s : Desk) (p : Party) : Prop where
  frames : ∀ f ∈ p.frames, s.Sent f.clearId f.targetAgentId
  requests : ∀ req ∈ p.injector.requests, s.Sent req.clearId p.agentId
  progress : p.injector.Progress

/-- A row of `CLEARS` is of a call that got no report. -/
structure Waits (c : ClearCall) (w : Waiter) : Prop where
  number : c.number = w.number
  clearId : c.clearId = w.clearId
  worker : c.worker = w.worker
  slot : c.slot = none
  rank : 1 ≤ c.stage.rank

/-- Ids are told apart, `CLEARS` holds calls, and what goes around is of calls that were sent. -/
structure Known (s : Desk) : Prop where
  fresh : ∀ c ∈ s.calls.rows, c.number < s.issued
  named : ∀ c ∈ s.calls.rows, ∃ now, c.clearId = clearIdOf now c.number
  begun : ∀ c ∈ s.calls.rows, c.stage = .begun → c.slot = none
  waits : ∀ w ∈ s.clears.rows, ∃ c ∈ s.calls.rows, Waits c w
  parties : ∀ p ∈ s.parties, s.PartyKnown p
  reports : ∀ r ∈ s.reports, s.Sent r.clearId r.agentId

theorem Later.refl (s : Desk) : s.Later s := fun c hc ↦ ⟨c, hc, rfl, rfl, rfl, le_rfl⟩

theorem Later.trans {s'' : Desk} (h : s.Later s') (h' : s'.Later s'') : s.Later s'' := by
  intro c hc
  obtain ⟨c', hc', hlater⟩ := h c hc
  obtain ⟨c'', hc'', hlater'⟩ := h' c' hc'
  exact ⟨c'', hc'', hlater'.number.trans hlater.number, hlater'.clearId.trans hlater.clearId,
    hlater'.worker.trans hlater.worker, hlater.rank.trans hlater'.rank⟩

theorem later_of_calls (h : s'.calls = s.calls) : s.Later s' := by
  intro c hc
  rw [h]
  exact Later.refl s c hc

theorem Sent.later {clearId worker : String} (h : s.Sent clearId worker) (hlater : s.Later s') :
    s'.Sent clearId worker := by
  obtain ⟨c, hc, hid, hworker, hrank⟩ := h
  obtain ⟨c', hc', h'⟩ := hlater c hc
  exact ⟨c', hc', h'.clearId.trans hid, h'.worker.trans hworker, hrank.trans h'.rank⟩

theorem PartyKnown.later (h : s.PartyKnown p) (hlater : s.Later s') : s'.PartyKnown p where
  frames f hf := (h.frames f hf).later hlater
  requests req hreq := (h.requests req hreq).later hlater
  progress := h.progress

/-- One id, one call. -/
theorem Known.unique (h : Known s) {c' : ClearCall} (hc : c ∈ s.calls.rows)
    (hc' : c' ∈ s.calls.rows) (hid : c.clearId = c'.clearId) : c = c' := by
  obtain ⟨now, hnow⟩ := h.named c hc
  obtain ⟨now', hnow'⟩ := h.named c' hc'
  have hnumber : c.number = c'.number := clearIdOf_inj (hnow.symm.trans (hid.trans hnow'))
  exact s.calls.eq_of_key_eq hc hc' hnumber

theorem mem_setStage {number : Nat} {stage : Stage} {x : ClearCall} :
    x ∈ (s.setStage number stage).calls.rows ↔
      ∃ y ∈ s.calls.rows, (if y.number = number then { y with stage } else y) = x := by
  simp [setStage, Table.updateKey]

theorem mem_setSlot {number : Nat} {outcome : Except String Unit} {x : ClearCall} :
    x ∈ (s.setSlot number outcome).calls.rows ↔
      ∃ y ∈ s.calls.rows,
        (if y.number = number then { y with slot := some outcome } else y) = x := by
  simp [setSlot, Table.updateKey]

/-- A call that gets to a stage is itself, the others are as they were. -/
theorem cases_setStage (hc : c ∈ s.calls.rows) {stage : Stage} {x : ClearCall}
    (hx : x ∈ (s.setStage c.number stage).calls.rows) :
    x = { c with stage } ∨ (x ∈ s.calls.rows ∧ x.number ≠ c.number) := by
  obtain ⟨y, hy, rfl⟩ := mem_setStage.mp hx
  split
  · next hnumber =>
    rw [s.calls.eq_of_key_eq hy hc hnumber]
    exact Or.inl rfl
  · next hnumber => exact Or.inr ⟨hy, hnumber⟩

theorem later_setStage (hc : c ∈ s.calls.rows) {stage : Stage}
    (hrank : c.stage.rank ≤ stage.rank) : s.Later (s.setStage c.number stage) := by
  intro x hx
  by_cases hnumber : x.number = c.number
  · rw [s.calls.eq_of_key_eq hx hc hnumber]
    exact ⟨_, mem_setStage.mpr ⟨c, hc, if_pos rfl⟩, rfl, rfl, rfl, hrank⟩
  · exact ⟨x, mem_setStage.mpr ⟨x, hx, if_neg hnumber⟩, rfl, rfl, rfl, le_rfl⟩

theorem later_setSlot {number : Nat} {outcome : Except String Unit} :
    s.Later (s.setSlot number outcome) := by
  intro x hx
  by_cases hnumber : x.number = number
  · exact ⟨_, mem_setSlot.mpr ⟨x, hx, if_pos hnumber⟩, rfl, rfl, rfl, le_rfl⟩
  · exact ⟨x, mem_setSlot.mpr ⟨x, hx, if_neg hnumber⟩, rfl, rfl, rfl, le_rfl⟩

/-! ### One step -/

/-- What the supervisors and the reports have is known when the calls go forward. -/
theorem Known.frame (h : Known s) (hlater : s.Later s')
    (hcalls : ∀ c ∈ s'.calls.rows, c.number < s'.issued ∧
      (∃ now, c.clearId = clearIdOf now c.number) ∧ (c.stage = .begun → c.slot = none))
    (hclears : ∀ w ∈ s'.clears.rows, ∃ c ∈ s'.calls.rows, Waits c w)
    (hparties : ∀ p ∈ s'.parties, p ∈ s.parties ∨ s'.PartyKnown p)
    (hreports : ∀ r ∈ s'.reports, r ∈ s.reports ∨ s'.Sent r.clearId r.agentId) : Known s' where
  fresh c hc := (hcalls c hc).1
  named c hc := (hcalls c hc).2.1
  begun c hc := (hcalls c hc).2.2
  waits := hclears
  parties p hp := by
    rcases hparties p hp with hold | hnew
    · exact (h.parties p hold).later hlater
    · exact hnew
  reports r hr := by
    rcases hreports r hr with hold | hnew
    · exact (h.reports r hold).later hlater
    · exact hnew

theorem Known.call (h : Known s) (hc : c ∈ s.calls.rows) : c.number < s.issued ∧
    (∃ now, c.clearId = clearIdOf now c.number) ∧ (c.stage = .begun → c.slot = none) :=
  ⟨h.fresh c hc, h.named c hc, h.begun c hc⟩

/-- The calls and `CLEARS` are the same. -/
theorem Known.of_calls (h : Known s) (hcalls : s'.calls = s.calls) (hissued : s'.issued = s.issued)
    (hclears : s'.clears = s.clears) (hparties : ∀ p ∈ s'.parties, p ∈ s.parties ∨ s.PartyKnown p)
    (hreports : ∀ r ∈ s'.reports, r ∈ s.reports ∨ s.Sent r.clearId r.agentId) : Known s' := by
  have hlater : s.Later s' := later_of_calls hcalls
  apply h.frame hlater
  · rw [hcalls, hissued]
    exact fun c ↦ h.call
  · rw [hcalls, hclears]
    exact h.waits
  · exact fun p hp ↦ (hparties p hp).imp_right (PartyKnown.later · hlater)
  · exact fun r hr ↦ (hreports r hr).imp_right (Sent.later · hlater)

/-- A call that gets to a stage keeps its names. -/
theorem Known.setStage (h : Known s) (hc : c ∈ s.calls.rows) {stage : Stage}
    (hrank : c.stage.rank < stage.rank) : Known (s.setStage c.number stage) := by
  apply h.frame (later_setStage hc hrank.le)
  · intro x hx
    rcases cases_setStage hc hx with rfl | ⟨hx, -⟩
    · obtain ⟨hfresh, hnamed, -⟩ := h.call hc
      refine ⟨hfresh, hnamed, fun hbegun ↦ ?_⟩
      have hzero : stage.rank = 0 := congrArg Stage.rank hbegun
      omega
    · exact h.call hx
  · intro w hw
    obtain ⟨x, hx, hwaits⟩ := h.waits w hw
    by_cases hnumber : x.number = c.number
    · have hsame := s.calls.eq_of_key_eq hx hc hnumber
      subst hsame
      exact ⟨_, mem_setStage.mpr ⟨x, hx, if_pos rfl⟩, hwaits.number, hwaits.clearId,
        hwaits.worker, hwaits.slot, hwaits.rank.trans hrank.le⟩
    · exact ⟨x, mem_setStage.mpr ⟨x, hx, if_neg hnumber⟩, hwaits⟩
  · exact fun _ ↦ Or.inl
  · exact fun _ ↦ Or.inl

theorem Known.deleteClear (h : Known s) (clearId : String) :
    Known { s with clears := s.clears.deleteKey clearId } := by
  refine h.frame (later_of_calls rfl) (fun _ ↦ h.call) ?_ (fun _ ↦ Or.inl) fun _ ↦ Or.inl
  exact fun w hw ↦ h.waits w (Table.mem_delete.mp hw).1

/-- The call of a row that leaves `CLEARS` gets a report. -/
theorem Known.report (h : Known s) {w : Waiter} (hw : w ∈ s.clears.rows)
    (outcome : Except String Unit) :
    Known ({ s with clears := s.clears.deleteKey w.clearId }.setSlot w.number outcome) := by
  obtain ⟨b, hb, hwaits⟩ := h.waits w hw
  apply h.frame (later_setSlot (s := { s with clears := s.clears.deleteKey w.clearId }))
  · intro x hx
    obtain ⟨y, hy, rfl⟩ := mem_setSlot.mp hx
    split
    · next hnumber =>
      have hsame := s.calls.eq_of_key_eq hy hb (hnumber.trans hwaits.number.symm)
      obtain ⟨hfresh, hnamed, -⟩ := h.call hy
      refine ⟨hfresh, hnamed, fun hbegun ↦ ?_⟩
      have hrank := hwaits.rank
      rw [← hsame, show y.stage = .begun from hbegun] at hrank
      cases hrank
    · exact h.call hy
  · intro v hv
    obtain ⟨hv, hne⟩ := Table.mem_delete.mp hv
    obtain ⟨x, hx, hother⟩ := h.waits v hv
    refine ⟨x, mem_setSlot.mpr ⟨x, hx, if_neg fun hnumber ↦ ?_⟩, hother⟩
    have hsame := s.calls.eq_of_key_eq hx hb (hnumber.trans hwaits.number.symm)
    rw [hsame] at hother
    exact of_decide_eq_false hne (hother.clearId.symm.trans hwaits.clearId)
  · exact fun _ ↦ Or.inl
  · exact fun _ ↦ Or.inl

/-- The number of a call that begins is new. -/
theorem mem_beginCall (h : Known s) (hc : c ∈ s.calls.rows) {pool workerId : String}
    {seen now : Int} : c ∈ (s.beginCall pool workerId seen now).calls.rows := by
  unfold beginCall
  dsimp only
  split
  · exact Table.mem_insertOrReplace.mpr (Or.inl ⟨hc, (h.fresh c hc).ne⟩)
  · exact hc

theorem later_beginCall (h : Known s) (pool workerId : String) (seen now : Int) :
    s.Later (s.beginCall pool workerId seen now) :=
  fun c hc ↦ ⟨c, mem_beginCall h hc, rfl, rfl, rfl, le_rfl⟩

/-- A call that is there after a clear was asked for was there before, or begins. -/
theorem cases_beginCall {pool workerId : String} {seen now : Int}
    (hc : c ∈ (s.beginCall pool workerId seen now).calls.rows) :
    c ∈ s.calls.rows ∨ (c.stage = .begun ∧ c.slot = none ∧ c.number = s.issued ∧
      c.clearId = clearIdOf now s.issued ∧
      (s.beginCall pool workerId seen now).issued = s.issued + 1) := by
  unfold beginCall at hc ⊢
  dsimp only at hc ⊢
  split at hc
  · rcases Table.mem_insertOrReplace.mp hc with ⟨hold, -⟩ | rfl
    · exact Or.inl hold
    · exact Or.inr ⟨rfl, rfl, rfl, rfl, rfl⟩
  · exact Or.inl hc

theorem issued_le_beginCall {pool workerId : String} {seen now : Int} :
    s.issued ≤ (s.beginCall pool workerId seen now).issued := by
  unfold beginCall
  dsimp only
  split
  · exact Nat.le_succ _
  · exact le_rfl

theorem beginCall_frame {pool workerId : String} {seen now : Int} :
    (s.beginCall pool workerId seen now).clears = s.clears ∧
      (s.beginCall pool workerId seen now).parties = s.parties ∧
      (s.beginCall pool workerId seen now).reports = s.reports := by
  unfold beginCall
  dsimp only
  split
  · exact ⟨rfl, rfl, rfl⟩
  · exact ⟨rfl, rfl, rfl⟩

theorem Known.beginCall (h : Known s) (pool workerId : String) (seen now : Int) :
    Known (s.beginCall pool workerId seen now) := by
  obtain ⟨hclears, hparties, hreports⟩ := @beginCall_frame s pool workerId seen now
  apply h.frame (later_beginCall h pool workerId seen now)
  · intro c hc
    rcases cases_beginCall hc with hold | ⟨-, hslot, hnumber, hid, hissued⟩
    · obtain ⟨hfresh, hrest⟩ := h.call hold
      exact ⟨hfresh.trans_le issued_le_beginCall, hrest⟩
    · rw [hnumber, hissued]
      exact ⟨Nat.lt_succ_self _, ⟨now, hid⟩, fun _ ↦ hslot⟩
  · rw [hclears]
    intro w hw
    obtain ⟨c, hc, hwaits⟩ := h.waits w hw
    exact ⟨c, mem_beginCall h hc, hwaits⟩
  · rw [hparties]
    exact fun _ ↦ Or.inl
  · rw [hreports]
    exact fun _ ↦ Or.inl

theorem Known.register (h : Known s) (hc : c ∈ s.calls.rows) (hstage : c.stage = .begun) :
    Known (s.register c) := by
  have hlisted : Known (s.setStage c.number .listed) :=
    h.setStage hc (by rw [hstage]; exact Nat.zero_lt_one)
  refine hlisted.frame (later_of_calls rfl) (fun _ ↦ hlisted.call) ?_ (fun _ ↦ Or.inl)
    fun _ ↦ Or.inl
  intro w hw
  rcases Table.mem_insertOrReplace.mp hw with ⟨hold, -⟩ | rfl
  · exact hlisted.waits w hold
  · exact ⟨_, mem_setStage.mpr ⟨c, hc, if_pos rfl⟩, rfl, rfl, rfl, h.begun c hc hstage, le_rfl⟩

theorem PartyKnown.hear (h : s.PartyKnown p) {thread : String} {f : ClearFrame}
    (hf : s.Sent f.clearId f.targetAgentId) : s.PartyKnown (p.hear thread f) := by
  unfold Party.hear
  split
  · refine ⟨?_, h.requests, h.progress⟩
    intro g hg
    rcases List.mem_append.mp hg with hold | hnew
    · exact h.frames g hold
    · rw [List.mem_singleton.mp hnew]
      exact hf
  · exact h

theorem Known.publish (h : Known s) (hc : c ∈ s.calls.rows) (hstage : c.stage = .listed)
    (others : Bool) : Known (s.publish c others) := by
  unfold Desk.publish
  dsimp only
  split
  · have hsent : (s.setStage c.number .asked).Sent c.clearId c.worker :=
      ⟨_, mem_setStage.mpr ⟨c, hc, if_pos rfl⟩, rfl, rfl, le_rfl⟩
    have hasked : Known (s.setStage c.number .asked) :=
      h.setStage hc (by rw [hstage]; exact Nat.lt_succ_self _)
    refine hasked.of_calls rfl rfl rfl ?_ fun _ ↦ Or.inl
    intro p hp
    obtain ⟨q, hq, rfl⟩ := List.mem_map.mp hp
    exact Or.inr ((hasked.parties q hq).hear hsent)
  · exact h.setStage hc (by rw [hstage]; decide)

theorem Known.advance (h : Known s) (hc : c ∈ s.calls.rows) (others : Bool) :
    Known (s.advance c others) := by
  unfold Desk.advance
  split
  · next hstage => exact h.register hc hstage
  · next hstage => exact h.publish hc hstage others
  · next hstage => exact h.setStage hc (by rw [hstage]; exact Nat.lt_succ_self _)
  · next hstage =>
    exact (h.deleteClear c.clearId).setStage hc (by rw [hstage]; exact Nat.lt_succ_self _)
  · next hstage =>
    have hpool : Known { s with pool := Pool.next s.pool (.endClear c.seq) } :=
      h.of_calls rfl rfl rfl (fun _ ↦ Or.inl) fun _ ↦ Or.inl
    exact hpool.setStage hc (by rw [hstage]; exact Nat.lt_succ_self _)
  · exact h

/-- A report that the daemon takes: one for a row of `CLEARS`, by its worker and with the token of
its session. -/
structure Accepts (s : Desk) (r : Report) (w : Waiter) : Prop where
  row : w ∈ s.clears.rows
  clearId : w.clearId = r.clearId
  worker : w.worker = r.agentId
  named : r.agentId ≠ ""
  token : Journal.resolveSessionToken s.sessions r.agentId r.sessionToken = true

theorem Accepts.eq {r : Report} {w : Waiter} (h : Accepts s r w) : (s.workerCleared r).2 =
    { s with clears := s.clears.deleteKey w.clearId }.setSlot w.number r.outcome := by
  have hget : s.clears.get? r.clearId = some w := Table.get?_eq_some_iff.mpr ⟨h.row, h.clearId⟩
  unfold Desk.workerCleared
  rw [if_neg (not_or.mpr ⟨h.named, not_not.mpr h.token⟩), hget]
  dsimp only
  rw [if_pos h.worker, h.clearId]

/-- A report changes nothing, or is taken. -/
theorem cases_workerCleared (s : Desk) (r : Report) :
    (s.workerCleared r).2 = s ∨ ∃ w, Accepts s r w := by
  unfold Desk.workerCleared
  split
  · exact Or.inl rfl
  · next htoken =>
    obtain ⟨hnamed, htoken⟩ := not_or.mp htoken
    split
    · next w hget =>
      obtain ⟨hw, hid⟩ := Table.get?_eq_some_iff.mp hget
      split
      · next hworker => exact Or.inr ⟨w, hw, hid, hworker, hnamed, not_not.mp htoken⟩
      · exact Or.inl rfl
    · exact Or.inl rfl

theorem Known.workerCleared (h : Known s) (r : Report) : Known (s.workerCleared r).2 := by
  rcases cases_workerCleared s r with hsame | ⟨w, hw⟩
  · rw [hsame]
    exact h
  · rw [hw.eq]
    exact h.report hw.row r.outcome

theorem PartyKnown.pump (h : s.PartyKnown p) : s.PartyKnown p.pump := by
  unfold Party.pump
  split
  · exact h
  · next f rest hframes =>
    have hf : s.Sent f.clearId f.targetAgentId :=
      h.frames f (by rw [hframes]; exact List.mem_cons_self)
    refine ⟨?_, ?_, ?_⟩
    · intro g hg
      exact h.frames g (by rw [hframes]; exact List.mem_cons_of_mem f hg)
    · intro req hreq
      dsimp only at hreq
      split at hreq
      · next htarget =>
        rcases Supervisor.System.requests_next hreq with hold | hasked
        · exact h.requests req hold
        · cases hasked
          rw [← htarget]
          exact hf
      · exact h.requests req hreq
    · dsimp only
      split
      · exact h.progress.next _
      · exact h.progress

theorem PartyKnown.session (h : s.PartyKnown p) {op : Supervisor.Op} (hop : asksClear op = false) :
    s.PartyKnown { p with injector := Supervisor.next p.injector op } := by
  refine ⟨h.frames, ?_, h.progress.next op⟩
  intro req hreq
  rcases Supervisor.System.requests_next hreq with hold | rfl
  · exact h.requests req hold
  · cases hop

/-- A report is of the clear in progress. -/
theorem mem_newReports {op : Supervisor.Op} {r : Report}
    (hr : r ∈ p.newReports (Supervisor.next p.injector op)) :
    ∃ req, p.injector.clearing = some req ∧ r.agentId = p.agentId ∧ r.clearId = req.clearId ∧
      Supervisor.System.Reports p.injector (Supervisor.next p.injector op) r.outcome := by
  unfold Party.newReports at hr
  obtain ⟨x, hx, hmap⟩ := List.mem_filterMap.mp hr
  rcases Supervisor.System.reports_next p.injector op with hsame | ⟨outcome, hnew⟩
  · rw [hsame, Nat.sub_self, List.take_zero] at hx
    cases hx
  · rw [hnew.reports, List.length_cons, Nat.add_sub_cancel_left, List.take_succ_cons,
      List.take_zero] at hx
    cases List.mem_singleton.mp hx
    obtain ⟨req, hreq, rfl⟩ := Option.map_eq_some_iff.mp hmap
    exact ⟨req, hreq, rfl, rfl, hnew⟩

theorem Known.setParty (h : Known s) {i : Nat} {f : Party → Party}
    (hf : ∀ p, s.PartyKnown p → s.PartyKnown (f p)) : Known (s.setParty i f) := by
  unfold Desk.setParty
  split
  · next p hget =>
    refine h.of_calls rfl rfl rfl ?_ fun _ ↦ Or.inl
    intro q hq
    rcases List.mem_or_eq_of_mem_set hq with hold | rfl
    · exact Or.inl hold
    · exact Or.inr (hf p (h.parties p (List.mem_of_getElem? hget)))
  · exact h

theorem Known.next (h : Known s) (act : DeskAct) : Known (s.next act) := by
  cases act with
  | pool op =>
    show Known (s.callPool op)
    unfold callPool
    split
    · exact h
    · exact h
    · exact h.of_calls rfl rfl rfl (fun _ ↦ Or.inl) fun _ ↦ Or.inl
  | registry rows => exact h.of_calls rfl rfl rfl (fun _ ↦ Or.inl) fun _ ↦ Or.inl
  | clear pool workerId seen now => exact h.beginCall pool workerId seen now
  | advance number others =>
    unfold Desk.next
    dsimp only
    split
    · next c hget => exact h.advance (Table.get?_eq_some_iff.mp hget).1 others
    · exact h
  | join agentId sessionToken =>
    refine h.of_calls rfl rfl rfl ?_ fun _ ↦ Or.inl
    intro p hp
    rcases List.mem_append.mp hp with hold | hnew
    · exact Or.inl hold
    · rw [List.mem_singleton.mp hnew]
      exact Or.inr ⟨nofun, nofun, trivial⟩
  | connect i threads => exact h.setParty fun p hp ↦ ⟨nofun, hp.requests, hp.progress⟩
  | subscribe i thread => exact h.setParty fun p hp ↦ ⟨hp.frames, hp.requests, hp.progress⟩
  | miss i =>
    apply h.setParty
    exact fun p hp ↦ ⟨fun f hf ↦ hp.frames f (List.mem_of_mem_drop hf), hp.requests, hp.progress⟩
  | pump i => exact h.setParty fun p hp ↦ hp.pump
  | session i op hop =>
    unfold Desk.next
    dsimp only
    split
    · next p hget =>
      have hp := h.parties p (List.mem_of_getElem? hget)
      refine h.of_calls rfl rfl rfl ?_ ?_
      · intro q hq
        rcases List.mem_or_eq_of_mem_set hq with hold | rfl
        · exact Or.inl hold
        · exact Or.inr (hp.session hop)
      · intro r hr
        rcases List.mem_append.mp hr with hold | hnew
        · exact Or.inl hold
        · obtain ⟨req, hreq, hagent, hid, -⟩ := mem_newReports hnew
          rw [hagent, hid]
          refine Or.inr (hp.requests req ?_)
          unfold Supervisor.System.requests
          rw [hreq]
          exact List.mem_append_right _ List.mem_cons_self
    · exact h
  | arrive i =>
    unfold Desk.next
    dsimp only
    split
    · next r hget =>
      have herased : Known { s with reports := s.reports.eraseIdx i } :=
        h.of_calls rfl rfl rfl (fun _ ↦ Or.inl) fun r hr ↦ Or.inl (List.mem_of_mem_eraseIdx hr)
      exact herased.workerCleared r
    · exact h
  | lose i =>
    exact h.of_calls rfl rfl rfl (fun _ ↦ Or.inl) fun r hr ↦ Or.inl (List.mem_of_mem_eraseIdx hr)
  | say r => exact h.workerCleared r

/-- Calls go forward. -/
theorem later_advance (hc : c ∈ s.calls.rows) (others : Bool) : s.Later (s.advance c others) := by
  unfold Desk.advance
  split
  · next hstage => exact later_setStage hc (by rw [hstage]; exact Nat.zero_le _)
  · next hstage =>
    unfold Desk.publish
    dsimp only
    split
    · exact later_setStage hc (by rw [hstage]; exact Nat.le_succ _)
    · exact later_setStage hc (by rw [hstage]; decide)
  · next hstage => exact later_setStage hc (by rw [hstage]; exact Nat.le_succ _)
  · next hstage => exact later_setStage hc (by rw [hstage]; exact Nat.le_succ _)
  · next hstage => exact later_setStage hc (by rw [hstage]; exact Nat.le_succ _)
  · exact Later.refl s

theorem later_workerCleared (r : Report) : s.Later (s.workerCleared r).2 := by
  rcases cases_workerCleared s r with hsame | ⟨w, hw⟩
  · rw [hsame]
    exact Later.refl s
  · rw [hw.eq]
    exact later_setSlot

theorem setParty_frame {i : Nat} {f : Party → Party} :
    (s.setParty i f).calls = s.calls ∧ (s.setParty i f).reports = s.reports := by
  unfold Desk.setParty
  split
  · exact ⟨rfl, rfl⟩
  · exact ⟨rfl, rfl⟩

theorem callPool_frame {op : Op} :
    (s.callPool op).calls = s.calls ∧ (s.callPool op).reports = s.reports := by
  unfold Desk.callPool
  split
  · exact ⟨rfl, rfl⟩
  · exact ⟨rfl, rfl⟩
  · exact ⟨rfl, rfl⟩

theorem calls_session {i : Nat} {op : Supervisor.Op} {hop : asksClear op = false} :
    (s.next (.session i op hop)).calls = s.calls := by
  unfold Desk.next
  dsimp only
  split
  · rfl
  · rfl

theorem later_next (h : Known s) (act : DeskAct) : s.Later (s.next act) := by
  cases act with
  | pool op => exact later_of_calls callPool_frame.1
  | clear pool workerId seen now => exact later_beginCall h pool workerId seen now
  | advance number others =>
    unfold Desk.next
    dsimp only
    split
    · next c hget => exact later_advance (Table.get?_eq_some_iff.mp hget).1 others
    · exact Later.refl s
  | connect i threads => exact later_of_calls setParty_frame.1
  | subscribe i thread => exact later_of_calls setParty_frame.1
  | miss i => exact later_of_calls setParty_frame.1
  | pump i => exact later_of_calls setParty_frame.1
  | session i op hop => exact later_of_calls calls_session
  | arrive i =>
    unfold Desk.next
    dsimp only
    split
    · exact later_workerCleared (s := { s with reports := s.reports.eraseIdx i }) _
    · exact Later.refl s
  | say r => exact later_workerCleared r
  | registry rows => exact later_of_calls rfl
  | join agentId sessionToken => exact later_of_calls rfl
  | lose i => exact later_of_calls rfl

theorem reports_advance (others : Bool) : (s.advance c others).reports = s.reports := by
  unfold Desk.advance
  split
  · rfl
  · unfold Desk.publish
    dsimp only
    split
    · rfl
    · rfl
  · rfl
  · rfl
  · rfl
  · rfl

theorem reports_workerCleared (r : Report) : (s.workerCleared r).2.reports = s.reports := by
  rcases cases_workerCleared s r with hsame | ⟨w, hw⟩
  · rw [hsame]
  · rw [hw.eq]
    rfl

/-- Only a step of a supervisor's makes a report. -/
theorem mem_reports_next {r : Report} (hr : r ∈ (s.next act).reports) :
    r ∈ s.reports ∨ ∃ i op hop p, act = .session i op hop ∧ s.parties[i]? = some p ∧
      r ∈ p.newReports (Supervisor.next p.injector op) := by
  have hsame : (s.next act).reports = s.reports → r ∈ s.reports := fun h ↦ h ▸ hr
  cases act with
  | pool op => exact Or.inl (hsame callPool_frame.2)
  | clear pool workerId seen now => exact Or.inl (hsame beginCall_frame.2.2)
  | advance number others =>
    left
    apply hsame
    unfold Desk.next
    dsimp only
    split
    · exact reports_advance others
    · rfl
  | connect i threads => exact Or.inl (hsame setParty_frame.2)
  | subscribe i thread => exact Or.inl (hsame setParty_frame.2)
  | miss i => exact Or.inl (hsame setParty_frame.2)
  | pump i => exact Or.inl (hsame setParty_frame.2)
  | session i op hop =>
    unfold Desk.next at hr
    dsimp only at hr
    split at hr
    · next p hget =>
      rcases List.mem_append.mp hr with hold | hnew
      · exact Or.inl hold
      · exact Or.inr ⟨i, op, hop, p, rfl, hget, hnew⟩
    · exact Or.inl hr
  | arrive i =>
    left
    unfold Desk.next at hr
    dsimp only at hr
    split at hr
    · rw [reports_workerCleared] at hr
      exact List.mem_of_mem_eraseIdx hr
    · exact hr
  | lose i => exact Or.inl (List.mem_of_mem_eraseIdx hr)
  | say r => exact Or.inl (hsame (reports_workerCleared r))
  | registry rows => exact Or.inl hr
  | join agentId sessionToken => exact Or.inl hr

/-! ### What a reply rests on -/

/-- In this step the worker's supervisor sees the emptied session, for this call. -/
def Sees (t : Step Desk DeskAct) (c : ClearCall) : Prop :=
  ∃ i op hop p, t.op = .session i op hop ∧ t.before.parties[i]? = some p ∧
    p.agentId = c.worker ∧ p.injector.SeesEmptied ⟨c.clearId⟩

/-- The call is at such a stage. -/
def StageIs (s : Desk) (number : Nat) (is : Stage → Prop) : Prop :=
  ∃ b ∈ s.calls.rows, b.number = number ∧ is b.stage

/-- In this step the daemon takes a report for the call, of a supervisor or another program, before
the call's wait is over. -/
structure Takes (t : Step Desk DeskAct) (c : ClearCall) (r : Report) : Prop where
  act : t.op = .say r ∨ ∃ i, t.op = .arrive i ∧ t.before.reports[i]? = some r
  clearId : r.clearId = c.clearId
  worker : r.agentId = c.worker
  accepts : ∃ w, Accepts t.before r w
  stage : t.before.StageIs c.number (·.rank ≤ 2)

/-- The session was seen empty after the call's frame was sent. -/
def SeenSent (t : Step Desk DeskAct) (c : ClearCall) : Prop :=
  Sees t c ∧ t.before.StageIs c.number (2 ≤ ·.rank)

/-- The same call, somewhere on its way. -/
structure Same (b c : ClearCall) : Prop where
  number : c.number = b.number
  clearId : c.clearId = b.clearId
  worker : c.worker = b.worker

theorem Takes.congr {t : Step Desk DeskAct} {b : ClearCall} {r : Report} (h : Takes t b r)
    (hsame : Same b c) : Takes t c r where
  act := h.act
  clearId := h.clearId.trans hsame.clearId.symm
  worker := h.worker.trans hsame.worker.symm
  accepts := h.accepts
  stage := hsame.number.symm ▸ h.stage

theorem SeenSent.congr {t : Step Desk DeskAct} {b : ClearCall} (h : SeenSent t b)
    (hsame : Same b c) : SeenSent t c := by
  unfold SeenSent Sees at h ⊢
  rw [hsame.number, hsame.clearId, hsame.worker]
  exact h

theorem Same.symm {b : ClearCall} (h : Same b c) : Same c b :=
  ⟨h.number.symm, h.clearId.symm, h.worker.symm⟩

theorem replyOf_inj {slot : Option (Except String Unit)} {outcome : Except String Unit}
    (h : replyOf slot = replyOf (some outcome)) : slot = some outcome := by
  cases slot with
  | none => cases outcome <;> cases h
  | some outcome' =>
    cases outcome <;> cases outcome' <;> cases h <;> rfl

theorem replyOf_ne_unreachable (slot : Option (Except String Unit)) :
    replyOf slot ≠ .unreachable := by
  cases slot with
  | none => nofun
  | some outcome => cases outcome <;> nofun

/-- A call before and after a step that leaves its channel. -/
structure From (b c : ClearCall) : Prop extends Same b c where
  slot : c.slot = b.slot
  rank : c.stage.rank ≤ 2 → b.stage.rank ≤ 2
  reply : ∀ reply, c.stage.reply? = some reply → reply = .unreachable ∨
    (b.stage.rank ≤ 2 ∧ reply = replyOf b.slot) ∨ b.stage.reply? = some reply

theorem From.refl (c : ClearCall) : From c c :=
  ⟨⟨rfl, rfl, rfl⟩, rfl, id, fun _ h ↦ Or.inr (Or.inr h)⟩

/-- Where a call comes from: it goes on, or begins, or gets a report. -/
inductive Origin (s : Desk) (act : DeskAct) (c : ClearCall) : Prop
  | goes (b : ClearCall) (hb : b ∈ s.calls.rows) (hfrom : From b c)
  | begins (hslot : c.slot = none) (hreply : c.stage.reply? = none) (hnumber : c.number = s.issued)
  | told (b : ClearCall) (hb : b ∈ s.calls.rows) (r : Report)
    (hact : act = .say r ∨ ∃ i, act = .arrive i ∧ s.reports[i]? = some r) (w : Waiter)
    (hw : Accepts s r w) (hwaits : Waits b w) (hc : c = { b with slot := some r.outcome })

theorem origin_setStage (hc : c ∈ s.calls.rows) {stage : Stage} {x : ClearCall}
    (hx : x ∈ (s.setStage c.number stage).calls.rows) (hfrom : From c { c with stage }) :
    Origin s act x := by
  rcases cases_setStage hc hx with rfl | ⟨hx, -⟩
  · exact .goes c hc hfrom
  · exact .goes x hx (.refl x)

theorem origin_advance (hc : c ∈ s.calls.rows) {others : Bool} {x : ClearCall}
    (hx : x ∈ (s.advance c others).calls.rows) : Origin s act x := by
  unfold Desk.advance at hx
  split at hx
  · next hstage =>
    refine origin_setStage hc hx ⟨⟨rfl, rfl, rfl⟩, rfl, fun _ ↦ ?_, nofun⟩
    rw [hstage]
    decide
  · next hstage =>
    have hrank : c.stage.rank ≤ 2 := by
      rw [hstage]
      decide
    unfold Desk.publish at hx
    dsimp only at hx
    split at hx
    · exact origin_setStage hc hx ⟨⟨rfl, rfl, rfl⟩, rfl, fun _ ↦ hrank, nofun⟩
    · refine origin_setStage hc hx ⟨⟨rfl, rfl, rfl⟩, rfl, fun _ ↦ hrank, fun reply hreply ↦ ?_⟩
      exact Or.inl (Option.some.inj hreply).symm
  · next hstage =>
    have hrank : c.stage.rank ≤ 2 := by
      rw [hstage]
      decide
    refine origin_setStage hc hx ⟨⟨rfl, rfl, rfl⟩, rfl, fun _ ↦ hrank, fun reply hreply ↦ ?_⟩
    exact Or.inr (Or.inl ⟨hrank, (Option.some.inj hreply).symm⟩)
  · next r hstage =>
    refine origin_setStage hc hx ⟨⟨rfl, rfl, rfl⟩, rfl, fun hrank ↦ ?_, fun reply hreply ↦ ?_⟩
    · exact absurd hrank (by show ¬ 4 ≤ 2; decide)
    · rw [hstage]
      exact Or.inr (Or.inr hreply)
  · next r hstage =>
    refine origin_setStage hc hx ⟨⟨rfl, rfl, rfl⟩, rfl, fun hrank ↦ ?_, fun reply hreply ↦ ?_⟩
    · exact absurd hrank (by show ¬ 5 ≤ 2; decide)
    · rw [hstage]
      exact Or.inr (Or.inr hreply)
  · exact .goes x hx (.refl x)

/-- A report that reaches the daemon, which need not be among those on their way any more. -/
theorem origin_workerCleared (h : Known s) {r : Report} (reports : List Report)
    (hact : act = .say r ∨ ∃ i, act = .arrive i ∧ s.reports[i]? = some r)
    (hc : c ∈ ({ s with reports }.workerCleared r).2.calls.rows) : Origin s act c := by
  rcases cases_workerCleared { s with reports } r with hsame | ⟨w, hw⟩
  · rw [hsame] at hc
    exact .goes c hc (.refl c)
  · rw [hw.eq] at hc
    obtain ⟨y, hy, rfl⟩ := mem_setSlot.mp hc
    split
    · next hnumber =>
      obtain ⟨b, hb, hwaits⟩ := h.waits w hw.row
      have hsame : y = b := s.calls.eq_of_key_eq hy hb (hnumber.trans hwaits.number.symm)
      exact .told y hy r hact w ⟨hw.row, hw.clearId, hw.worker, hw.named, hw.token⟩
        (hsame ▸ hwaits) rfl
    · exact .goes y hy (.refl y)

theorem origin_next (h : Known s) (hc : c ∈ (s.next act).calls.rows) :
    Origin s act c := by
  have hsame : (s.next act).calls = s.calls → Origin s act c := by
    intro hcalls
    rw [hcalls] at hc
    exact .goes c hc (.refl c)
  cases act with
  | pool op => exact hsame callPool_frame.1
  | clear pool workerId seen now =>
    rcases cases_beginCall hc with hold | ⟨hstage, hslot, hnumber, -⟩
    · exact .goes c hold (.refl c)
    · exact .begins hslot (by rw [hstage]; rfl) hnumber
  | advance number others =>
    unfold Desk.next at hc
    dsimp only at hc
    split at hc
    · next b hget => exact origin_advance (Table.get?_eq_some_iff.mp hget).1 hc
    · exact .goes c hc (.refl c)
  | connect i threads => exact hsame setParty_frame.1
  | subscribe i thread => exact hsame setParty_frame.1
  | miss i => exact hsame setParty_frame.1
  | pump i => exact hsame setParty_frame.1
  | session i op hop => exact hsame calls_session
  | arrive i =>
    unfold Desk.next at hc
    dsimp only at hc
    split at hc
    · next r hget => exact origin_workerCleared h _ (Or.inr ⟨i, rfl, hget⟩) hc
    · exact .goes c hc (.refl c)
  | say r => exact origin_workerCleared h s.reports (Or.inl rfl) hc
  | registry rows => exact hsame rfl
  | join agentId sessionToken => exact hsame rfl
  | lose i => exact hsame rfl

/-! ### Runs -/

/-- What is said of a call rests on steps before, and what was taken for it is kept. -/
structure Backed (tr : List (Step Desk DeskAct)) (s : Desk) : Prop where
  known : Known s
  later : ∀ t ∈ tr, t.before.Later s
  reports : ∀ r ∈ s.reports, r.outcome = .ok () → ∃ c ∈ s.calls.rows, c.clearId = r.clearId ∧
    ∃ t ∈ tr, SeenSent t c
  slots : ∀ c ∈ s.calls.rows, c.stage.rank ≤ 2 → ∀ outcome, c.slot = some outcome →
    ∃ t ∈ tr, ∃ r, Takes t c r ∧ r.outcome = outcome
  replies : ∀ c ∈ s.calls.rows, ∀ outcome, c.stage.reply? = some (replyOf (some outcome)) →
    ∃ t ∈ tr, ∃ r, Takes t c r ∧ r.outcome = outcome
  kept : ∀ t ∈ tr, ∀ c ∈ s.calls.rows, ∀ r, Takes t c r → c.slot = some r.outcome ∧
    ∀ reply, c.stage.reply? = some reply → reply = .unreachable ∨ reply = replyOf (some r.outcome)

variable {tr : List (Step Desk DeskAct)}

theorem Later.same (h : s.Later s') {b : ClearCall} (hb : b ∈ s.calls.rows)
    (hc : c ∈ s'.calls.rows) (hnumber : b.number = c.number) :
    Same b c ∧ b.stage.rank ≤ c.stage.rank := by
  obtain ⟨c', hc', hlater⟩ := h b hb
  rw [s'.calls.eq_of_key_eq hc' hc (hlater.number.trans hnumber)] at hlater
  exact ⟨⟨hlater.number, hlater.clearId, hlater.worker⟩, hlater.rank⟩

/-- A report of success rests on a step in which the session was seen empty, and is of a call. -/
theorem Backed.seenSent (h : Backed tr s) {r : Report} (hr : r ∈ (s.next act).reports)
    (hok : r.outcome = .ok ()) : ∃ c ∈ s.calls.rows, c.clearId = r.clearId ∧
      ∃ t ∈ tr ++ [⟨s, act, s.next act⟩], SeenSent t c := by
  rcases mem_reports_next hr with hold | ⟨i, op, hop, p, hact, hget, hnew⟩
  · obtain ⟨c, hc, hid, t, ht, hseen⟩ := h.reports r hold hok
    exact ⟨c, hc, hid, t, List.mem_append_left _ ht, hseen⟩
  · have hp := h.known.parties p (List.mem_of_getElem? hget)
    obtain ⟨req, hreq, hagent, hid, hreports⟩ := mem_newReports hnew
    have hmem : req ∈ p.injector.requests := by
      unfold Supervisor.System.requests
      rw [hreq]
      exact List.mem_append_right _ List.mem_cons_self
    obtain ⟨c, hc, hcid, hworker, hrank⟩ := hp.requests req hmem
    rw [hok] at hreports
    have hempty := hreports.seesEmptied hp.progress hreq
    refine ⟨c, hc, hcid.trans hid.symm, _, List.mem_append_right _ List.mem_cons_self, ?_⟩
    refine ⟨⟨i, op, hop, p, hact, hget, hworker.symm, ?_⟩, c, hc, rfl, hrank⟩
    rw [hcid]
    exact hempty

/-- The call of a report that is taken has it in its channel. -/
theorem Takes.kept (h : Known s) {r : Report} (ht : Takes ⟨s, act, s.next act⟩ c r)
    (hc : c ∈ (s.next act).calls.rows) : c.slot = some r.outcome ∧ c.stage.reply? = none := by
  obtain ⟨w, hw⟩ := ht.accepts
  obtain ⟨b, hb, hwaits⟩ := h.waits w hw.row
  obtain ⟨x, hx, hnumber, hrank⟩ := ht.stage
  obtain ⟨hsame, -⟩ := (later_next h act).same hx hc hnumber
  have hbx : b = x := h.unique hb hx
    (hwaits.clearId.trans (hw.clearId.trans (ht.clearId.trans hsame.clearId)))
  have hset : ∀ reports, c ∈ ({ s with reports }.workerCleared r).2.calls.rows →
      c.slot = some r.outcome ∧ c.stage.reply? = none := by
    intro reports hmem
    have haccepts : Accepts { s with reports } r w :=
      ⟨hw.row, hw.clearId, hw.worker, hw.named, hw.token⟩
    rw [haccepts.eq] at hmem
    obtain ⟨y, hy, rfl⟩ := mem_setSlot.mp hmem
    have hynumber : y.number = w.number := by
      have hkept : (if y.number = w.number then { y with slot := some r.outcome } else y).number =
          y.number := by
        split
        · rfl
        · rfl
      rw [← hkept, ← hnumber, ← hbx, hwaits.number]
    have hyb : y = x := s.calls.eq_of_key_eq hy hx
      (hynumber.trans (hwaits.number.symm.trans (congrArg ClearCall.number hbx)))
    rw [if_pos hynumber]
    refine ⟨rfl, ?_⟩
    subst hyb
    exact Stage.reply?_of_rank hrank
  rcases ht.act with hact | ⟨i, hact, hget⟩
  · subst hact
    exact hset s.reports hc
  · subst hact
    unfold Desk.next at hc
    dsimp only at hc hget
    rw [hget] at hc
    exact hset _ hc

theorem Backed.next (h : Backed tr s) (act : DeskAct) :
    Backed (tr ++ [⟨s, act, s.next act⟩]) (s.next act) := by
  have hlater := later_next h.known act
  have hnew : ∀ b ∈ s.calls.rows, b.stage.rank ≤ 2 → ∀ r w, Accepts s r w → Waits b w →
      (act = .say r ∨ ∃ i, act = .arrive i ∧ s.reports[i]? = some r) →
      Takes ⟨s, act, s.next act⟩ b r := by
    intro b hb hrank r w hw hwaits hact
    exact ⟨hact, hw.clearId.symm.trans hwaits.clearId.symm, hw.worker.symm.trans hwaits.worker.symm,
      ⟨w, hw⟩, b, hb, rfl, hrank⟩
  have hold : ∀ {b c : ClearCall} {outcome}, Same b c →
      (∃ t ∈ tr, ∃ r, Takes t b r ∧ r.outcome = outcome) →
      ∃ t ∈ tr ++ [⟨s, act, s.next act⟩], ∃ r, Takes t c r ∧ r.outcome = outcome := by
    rintro b c outcome hsame ⟨t, ht, r, htakes, hr⟩
    exact ⟨t, List.mem_append_left _ ht, r, htakes.congr hsame, hr⟩
  refine ⟨h.known.next act, ?_, ?_, ?_, ?_, ?_⟩
  · intro t ht
    rcases List.mem_append.mp ht with hin | hlast
    · exact (h.later t hin).trans hlater
    · rw [List.mem_singleton.mp hlast]
      exact hlater
  · intro r hr hok
    obtain ⟨b, hb, hbid, t, ht, hseen⟩ := h.seenSent hr hok
    obtain ⟨c, hc, hforward⟩ := hlater b hb
    exact ⟨c, hc, hforward.clearId.trans hbid, t, ht,
      hseen.congr ⟨hforward.number, hforward.clearId, hforward.worker⟩⟩
  · intro c hc hrank outcome hslot
    cases origin_next h.known hc with
    | goes b hb hfrom =>
      exact hold hfrom.toSame (h.slots b hb (hfrom.rank hrank) outcome (hfrom.slot ▸ hslot))
    | begins hnone _ _ =>
      rw [hnone] at hslot
      cases hslot
    | told b hb r hact w hw hwaits hcall =>
      subst hcall
      exact ⟨_, List.mem_append_right _ List.mem_cons_self, r,
        (hnew b hb hrank r w hw hwaits hact).congr ⟨rfl, rfl, rfl⟩, Option.some.inj hslot⟩
  · intro c hc outcome hreply
    cases origin_next h.known hc with
    | goes b hb hfrom =>
      rcases hfrom.reply _ hreply with hun | ⟨hrank, hslot⟩ | hbefore
      · exact absurd hun (replyOf_ne_unreachable _)
      · exact hold hfrom.toSame (h.slots b hb hrank outcome (replyOf_inj hslot.symm))
      · exact hold hfrom.toSame (h.replies b hb outcome hbefore)
    | begins _ hnone _ =>
      rw [hnone] at hreply
      cases hreply
    | told b hb r hact w hw hwaits hcall =>
      subst hcall
      exact hold (b := b) ⟨rfl, rfl, rfl⟩ (h.replies b hb outcome hreply)
  · intro t ht c hc r htakes
    rcases List.mem_append.mp ht with hin | hlast
    · cases origin_next h.known hc with
      | goes b hb hfrom =>
        obtain ⟨hslot, hreply⟩ := h.kept t hin b hb r (htakes.congr hfrom.toSame.symm)
        refine ⟨hfrom.slot.trans hslot, fun reply hc' ↦ ?_⟩
        rcases hfrom.reply reply hc' with hun | ⟨-, hslot'⟩ | hbefore
        · exact Or.inl hun
        · exact Or.inr (hslot'.trans (congrArg replyOf hslot))
        · exact hreply reply hbefore
      | begins _ _ hnumber =>
        -- its number is new, so nothing was taken for it
        obtain ⟨x, hx, hxnumber, -⟩ := htakes.stage
        obtain ⟨x', hx', hforward⟩ := h.later t hin x hx
        have hlt := h.known.fresh x' hx'
        rw [hforward.number, hxnumber, hnumber] at hlt
        exact absurd hlt (Nat.lt_irrefl _)
      | told b hb r' hact w hw hwaits hcall =>
        subst hcall
        obtain ⟨hslot, -⟩ := h.kept t hin b hb r (htakes.congr ⟨rfl, rfl, rfl⟩)
        rw [hwaits.slot] at hslot
        cases hslot
    · rw [List.mem_singleton.mp hlast] at htakes
      obtain ⟨hslot, hnone⟩ := htakes.kept h.known hc
      exact ⟨hslot, fun reply hreply ↦ by rw [hnone] at hreply; cases hreply⟩

theorem backed_start : Backed [] .start where
  known := ⟨List.forall_mem_nil _, List.forall_mem_nil _, List.forall_mem_nil _,
    List.forall_mem_nil _, List.forall_mem_nil _, List.forall_mem_nil _⟩
  later := List.forall_mem_nil _
  reports := List.forall_mem_nil _
  slots := List.forall_mem_nil _
  replies := List.forall_mem_nil _
  kept := List.forall_mem_nil _

theorem backed_run (acts : List DeskAct) :
    Backed (trace Desk.next .start acts) (run Desk.next .start acts) := by
  induction acts using List.reverseRecOn with
  | nil => exact backed_start
  | append_singleton acts act ih =>
    rw [trace_concat, run_concat]
    exact ih.next act

/-- The gateway's answer is the outcome of a report exactly when the daemon took it for the call
before the call's wait was over; that is the only one that is taken. -/
theorem reply_iff (acts : List DeskAct) (c : ClearCall)
    (hc : c ∈ (run Desk.next .start acts).calls.rows) (reply : Reply)
    (hreply : c.stage.reply? = some reply) (hreached : reply ≠ .unreachable)
    (outcome : Except String Unit) :
    reply = replyOf (some outcome) ↔
      ∃ t ∈ trace Desk.next .start acts, ∃ r, Takes t c r ∧ r.outcome = outcome := by
  have hbacked := backed_run acts
  constructor
  · rintro rfl
    exact hbacked.replies c hc outcome hreply
  · rintro ⟨t, ht, r, htakes, rfl⟩
    exact ((hbacked.kept t ht c hc r htakes).2 reply hreply).resolve_left hreached

/-- When the gateway is told that a worker is cleared, the worker's supervisor saw the emptied
session for this call while the call waited, with no message waiting and nothing of its own written
since it typed `/clear` and pressed Enter; or another program said so with the token of the worker's
session. -/
theorem cleared_empty (acts : List DeskAct) (c : ClearCall)
    (hc : c ∈ (run Desk.next .start acts).calls.rows) (hreply : c.stage.reply? = some .cleared) :
    ∃ t ∈ trace Desk.next .start acts,
      (Sees t c ∧ t.before.StageIs c.number (· = .asked)) ∨
        ∃ r, t.op = .say r ∧ Takes t c r ∧ r.outcome = .ok () := by
  have hbacked := backed_run acts
  obtain ⟨t, ht, r, htakes, hok⟩ := hbacked.replies c hc (.ok ()) hreply
  rcases htakes.act with hsay | ⟨i, -, hget⟩
  · exact ⟨t, ht, Or.inr ⟨r, hsay, htakes, hok⟩⟩
  · obtain ⟨first, rest, hacts, hbefore⟩ := exists_of_mem_trace ht
    have hfirst := backed_run first
    rw [← hbefore] at hfirst
    obtain ⟨b, hb, hid, t', ht', hseen⟩ := hfirst.reports r (List.mem_of_getElem? hget) hok
    obtain ⟨x, hx, hnumber, hrank⟩ := htakes.stage
    obtain ⟨hxc, -⟩ := (hbacked.later t ht).same hx hc hnumber
    have hbx : b = x := hfirst.known.unique hb hx (hid.trans (htakes.clearId.trans hxc.clearId))
    subst hbx
    have hin : t' ∈ trace Desk.next .start acts := by
      rw [hacts, trace_append]
      exact List.mem_append_left _ ht'
    obtain ⟨hsees, y, hy, hynumber, hsent⟩ := hseen.congr hxc
    refine ⟨t', hin, Or.inl ⟨hsees, y, hy, hynumber, ?_⟩⟩
    obtain ⟨-, hforward⟩ := (hfirst.later t' ht').same hy hb (hynumber.trans hnumber.symm)
    exact Stage.eq_asked (le_antisymm (hforward.trans hrank) hsent)

/-! ### A clear that is answered -/

theorem asksClear_step (timedOut : Bool) (failure : Option String) :
    asksClear (.step timedOut failure) = false := rfl

theorem asksClear_screen (screen : Supervisor.Screen) : asksClear (.screen screen) = false := rfl

/-- The injector goes on by itself. -/
def goOn : DeskAct := .session 0 (.step false none) (asksClear_step false none)

/-- A gateway asks for a clear; the session's supervisor types `/clear` and sees it done. -/
def clearedRun : List DeskAct :=
  [.pool (.registry oneSession), .pool (.join "w1" "p" 1 0),
    .registry ⟨[⟨"w1", none, some "t", .alive, none, none, none⟩], List.nodup_singleton _⟩,
    .join "w1" "t", .connect 0 ["agent:w1"], .clear "p" "w1" 0 0, .advance 0 false,
    .advance 0 false, .pump 0, goOn, goOn, goOn, goOn,
    .session 0 (.screen ⟨false, some "/clear", false, ""⟩) (asksClear_screen _),
    goOn, goOn, goOn, goOn,
    .session 0 (.screen ⟨false, some "", true, ""⟩) (asksClear_screen _), goOn, .arrive 0,
    .advance 0 false, .advance 0 false, .advance 0 false]

def clearedCall : ClearCall := ⟨0, 2, "clr_0_0", "w1", .answered .cleared, some (.ok ())⟩

theorem clearedCall_mem : clearedCall ∈ (run Desk.next .start clearedRun).calls.rows := by
  have hrows : (run Desk.next .start clearedRun).calls.rows = [clearedCall] := by rfl
  rw [hrows]
  exact List.mem_cons_self

theorem reply_iff_cleared : ∃ t ∈ trace Desk.next .start clearedRun, ∃ r,
    Takes t clearedCall r ∧ r.outcome = .ok () :=
  (reply_iff clearedRun clearedCall clearedCall_mem .cleared rfl nofun (.ok ())).mp rfl

theorem cleared_empty_seen : ∃ t ∈ trace Desk.next .start clearedRun,
    (Sees t clearedCall ∧ t.before.StageIs 0 (· = .asked)) ∨
      ∃ r, t.op = .say r ∧ Takes t clearedCall r ∧ r.outcome = .ok () :=
  cleared_empty clearedRun clearedCall clearedCall_mem rfl

end Desk

end Claudebase.Pool
