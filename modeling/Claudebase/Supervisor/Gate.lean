import Claudebase.Supervisor.Inject

/-!
# The gate and the operator's draft

`src/supervisor/inject.rs:201–285`. The injector looks at the draft before it writes and never
again: the pause before Enter re-checks the modal only. So it leaves the operator's line alone
as long as nothing is typed between that look and the end of the write.
-/

namespace Claudebase.Supervisor
open Claudebase.Base

/-- The injector has looked at the draft and its write is not over. -/
def Pc.InWindow : Pc → Prop
  | .write _ | .typed | .recheck _ | .enter _ | .settle _ | .erase _ => True
  | .top | .gateModal _ | .gateDraft _ | .emptied | .stopped _ => False

/-- A step at which nothing of the operator's gets on the line under a write: keys read during
one leave the line clean, and the line is clean when the look at the draft passes, whatever
is still to be forwarded. -/
def Quiet (t : Step System Op) : Prop :=
  match t.op with
  | .read bytes => t.before.pc.InWindow → (t.before.draft.observe bytes).isClean = true
  | .step _ _ => ∀ task, t.before.pc = .gateDraft task → t.before.draft.isClean = true →
      (operatorLine t.before.pty).isClean = true
  | _ => True

/-- What a step owes to the operator: Enter only without a modal at the last look and on an
untouched line, and only an untouched line is erased or declared clean. -/
structure Respects (t : Step System Op) : Prop where
  enter : ∀ task, t.after.pty = .enter task :: t.before.pty →
    t.before.lastModal = false ∧ t.before.Untouched
  erase : t.after.pty = .erase :: t.before.pty → t.before.Untouched
  settle : ∀ timedOut failure task, t.op = .step timedOut failure →
    t.before.pc = .settle task → t.before.Untouched

/-- The tracker knows the line, the line is clean during a write, and Enter follows a look that
saw no modal. -/
structure Tracked (s : System) : Prop where
  draft : s.draft = s.typedLine
  window : s.pc.InWindow → (operatorLine s.pty).isClean = true ∧ s.draft.isClean = true
  modal : ∀ task, s.pc = .enter task → s.lastModal = false

theorem tracked_start : Tracked .start :=
  ⟨rfl, fun h ↦ h.elim, fun _ h ↦ nomatch h⟩

/-- During a write the line is untouched. -/
theorem Tracked.untouched {s : System} (h : Tracked s) (hpc : s.pc.InWindow) : s.Untouched := by
  obtain ⟨hline, hdraft⟩ := h.window hpc
  rw [h.draft] at hdraft
  exact ⟨hline, hdraft⟩

/-- A change that leaves the tracker, the operator's line and the bytes in flight. -/
theorem Tracked.of_frame {s s' : System} (h : Tracked s) (hdraft : s'.draft = s.draft)
    (hline : operatorLine s'.pty = operatorLine s.pty) (hflight : s'.inFlight = s.inFlight)
    (hpc : s'.pc.InWindow → s.pc.InWindow)
    (hmodal : ∀ task, s'.pc = .enter task → s'.lastModal = false) : Tracked s' := by
  refine ⟨?_, fun hin ↦ ?_, hmodal⟩
  · rw [hdraft, h.draft, System.typedLine, System.typedLine, hline, hflight]
  · rw [hline, hdraft]
    exact h.window (hpc hin)

/-- The operator's keystrokes are read. -/
theorem Tracked.read {s : System} {bytes : List UInt8} (h : Tracked s)
    (hquiet : s.pc.InWindow → (s.draft.observe bytes).isClean = true) :
    Tracked (next s (.read bytes)) := by
  unfold next
  dsimp only
  split
  · next hflight =>
    refine ⟨?_, fun hin ↦ ⟨(h.window hin).1, hquiet hin⟩, h.modal⟩
    show s.draft.observe bytes = (operatorLine s.pty).observe bytes
    rw [h.draft, System.typedLine, hflight]
  · exact h

/-- They arrive on the line. -/
theorem Tracked.forward {s : System} (h : Tracked s) : Tracked (next s .forward) := by
  unfold next
  dsimp only
  split
  · next bytes hflight =>
    have hline : s.draft = (operatorLine s.pty).observe bytes := by
      rw [h.draft, System.typedLine, hflight]
    refine ⟨hline, fun hin ↦ ?_, h.modal⟩
    show ((operatorLine s.pty).observe bytes).isClean = true ∧ s.draft.isClean = true
    rw [← hline]
    exact ⟨(h.window hin).2, (h.window hin).2⟩
  · exact h

/-- Taking a message leaves what is shared with the operator. -/
theorem takeMessage_frame (s : System) :
    (takeMessage s).draft = s.draft ∧ (takeMessage s).inFlight = s.inFlight := by
  unfold takeMessage
  split
  · exact ⟨rfl, rfl⟩
  · exact ⟨rfl, rfl⟩

/-- A gate that is tried is no write. -/
theorem waiting_eq (s : System) : ¬ (waiting s).InWindow ∧ ∀ task, waiting s ≠ .enter task := by
  unfold waiting
  split
  · exact ⟨id, nofun⟩
  · split
    · exact ⟨id, nofun⟩
    · exact ⟨id, nofun⟩

/-- A failed write ends the thread or the clear. -/
theorem Tracked.writeFailed {s : System} (h : Tracked s) (task : Task) (pasted : Bool)
    (e : String) : Tracked (s.writeFailed task pasted e) := by
  cases task with
  | block => exact h.of_frame rfl rfl rfl (fun hin ↦ hin.elim) (fun _ hpc ↦ nomatch hpc)
  | clear => exact h.of_frame rfl rfl rfl (fun hin ↦ hin.elim) (fun _ hpc ↦ nomatch hpc)

/-- Each step of the injector keeps the line known. -/
theorem Tracked.injectorStep {s : System} (h : Tracked s) (timedOut : Bool)
    (failure : Option String)
    (hquiet : ∀ task, s.pc = .gateDraft task → s.draft.isClean = true →
      (operatorLine s.pty).isClean = true) :
    Tracked (injectorStep s timedOut failure) := by
  unfold Supervisor.injectorStep
  cases hpc : s.pc with
  | top =>
    dsimp only
    unfold takeNext
    split
    · exact h.of_frame rfl rfl rfl (fun hin ↦ hin.elim) (fun _ he ↦ nomatch he)
    · obtain ⟨hdraft, hflight⟩ := takeMessage_frame s
      have hgate := waiting_eq (takeClears (takeMessage s))
      have hline := congrArg operatorLine (pty_takeMessage s)
      refine h.of_frame hdraft hline hflight (fun hin ↦ ?_) fun task he ↦ ?_
      · exact absurd hin hgate.1
      · exact absurd he (hgate.2 task)
  | gateModal task =>
    dsimp only
    split
    · exact h.of_frame rfl rfl rfl (fun hin ↦ hin.elim) (fun _ he ↦ nomatch he)
    · exact h.of_frame rfl rfl rfl (fun hin ↦ hin.elim) (fun _ he ↦ nomatch he)
  | gateDraft task =>
    dsimp only
    split
    · next hclean =>
      have hline := hquiet task hpc hclean
      cases task with
      | block => exact ⟨h.draft, fun _ ↦ ⟨hline, hclean⟩, fun _ he ↦ nomatch he⟩
      | clear => exact ⟨h.draft, fun _ ↦ ⟨hline, hclean⟩, fun _ he ↦ nomatch he⟩
    · exact h.of_frame rfl rfl rfl (fun hin ↦ hin.elim) (fun _ he ↦ nomatch he)
  | write task =>
    have hin : s.pc.InWindow := by rw [hpc]; trivial
    cases failure with
    | some e => exact h.writeFailed task false e
    | none =>
      cases task with
      | block => exact h.of_frame rfl rfl rfl (fun _ ↦ hin) (fun _ he ↦ nomatch he)
      | clear => exact h.of_frame rfl rfl rfl (fun _ ↦ hin) (fun _ he ↦ nomatch he)
  | typed =>
    have hin : s.pc.InWindow := by rw [hpc]; trivial
    dsimp only
    split
    · exact h.of_frame rfl rfl rfl (fun _ ↦ hin) (fun _ he ↦ nomatch he)
    · split
      · exact h.of_frame rfl rfl rfl (fun _ ↦ hin) (fun _ he ↦ nomatch he)
      · exact h
  | recheck task =>
    have hin : s.pc.InWindow := by rw [hpc]; trivial
    cases hmodal : s.screen.modalIsUp with
    | false => exact h.of_frame rfl rfl rfl (fun _ ↦ hin) (fun _ _ ↦ rfl)
    | true =>
      cases task with
      | block => exact h.of_frame rfl rfl rfl (fun hin ↦ hin.elim) (fun _ he ↦ nomatch he)
      | clear => exact h.of_frame rfl rfl rfl (fun _ ↦ hin) (fun _ he ↦ nomatch he)
  | enter task =>
    have hin : s.pc.InWindow := by rw [hpc]; trivial
    cases failure with
    | some e => exact h.writeFailed task true e
    | none =>
      have hline : (operatorLine s.pty).clear = operatorLine s.pty :=
        DraftTracker.clear_of_isClean (h.window hin).1
      exact h.of_frame rfl hline rfl (fun _ ↦ hin) (fun _ he ↦ nomatch he)
  | settle task =>
    have hin : s.pc.InWindow := by rw [hpc]; trivial
    have hdraft : s.draft.clear = s.draft := DraftTracker.clear_of_isClean (h.window hin).2
    cases task with
    | block => exact h.of_frame hdraft rfl rfl (fun hin ↦ hin.elim) (fun _ he ↦ nomatch he)
    | clear => exact h.of_frame hdraft rfl rfl (fun hin ↦ hin.elim) (fun _ he ↦ nomatch he)
  | erase why =>
    cases failure with
    | some e => exact h.of_frame rfl rfl rfl (fun hin ↦ hin.elim) (fun _ he ↦ nomatch he)
    | none => exact h.of_frame rfl rfl rfl (fun hin ↦ hin.elim) (fun _ he ↦ nomatch he)
  | emptied =>
    dsimp only
    split
    · exact h.of_frame rfl rfl rfl (fun hin ↦ hin.elim) (fun _ he ↦ nomatch he)
    · split
      · exact h.of_frame rfl rfl rfl (fun hin ↦ hin.elim) (fun _ he ↦ nomatch he)
      · exact h
  | stopped pasted => exact h

/-- Each event of a quiet run keeps the line known. -/
theorem tracked_after {t : Step System Op} (ht : t.after = next t.before t.op)
    (h : Tracked t.before) (hquiet : Quiet t) : Tracked t.after := by
  rw [ht]
  unfold Quiet at hquiet
  cases hop : t.op with
  | receive msg => exact h.of_frame rfl rfl rfl id h.modal
  | askClear req => exact h.of_frame rfl rfl rfl id h.modal
  | hangUp => exact h.of_frame rfl rfl rfl id h.modal
  | finish => exact h.of_frame rfl rfl rfl id h.modal
  | screen screen => exact h.of_frame rfl rfl rfl id h.modal
  | read bytes =>
    rw [hop] at hquiet
    exact h.read hquiet
  | forward => exact h.forward
  | step timedOut failure =>
    rw [hop] at hquiet
    exact h.injectorStep timedOut failure hquiet

/-- A step from a state in which the line is known respects the operator. -/
theorem Tracked.respects {t : Step System Op} (ht : t.after = next t.before t.op)
    (h : Tracked t.before) : Respects t where
  enter task hpty := by
    rw [ht] at hpty
    have hpc := pc_of_enter hpty
    exact ⟨h.modal task hpc, h.untouched (by rw [hpc]; trivial)⟩
  erase hpty := by
    rw [ht] at hpty
    obtain ⟨why, hpc⟩ := pc_of_erase hpty
    exact h.untouched (by rw [hpc]; trivial)
  settle _ _ task _ hpc := h.untouched (by rw [hpc]; trivial)

/-- Along every run in which nothing of the operator's gets on the line under a write, the
injector presses Enter only without a modal and on an untouched line, and never erases or
declares clean a line the operator has started. -/
theorem injector_respects_draft (ops : List Op)
    (hquiet : ∀ t ∈ trace next .start ops, Quiet t) :
    ∀ t ∈ trace next .start ops, Respects t := by
  have hall := invariant_of_trace tracked_start fun t ht hbefore ↦
    tracked_after (after_of_mem_trace ht) hbefore (hquiet t ht)
  intro t ht
  exact (hall t ht).1.respects (after_of_mem_trace ht)

/-- A message is pasted and submitted with nobody at the keyboard. -/
def quietRun : List Op :=
  [.receive ⟨"m1", "hi"⟩, .step false none, .step false none, .step false none,
    .step false none, .step false none, .step false none, .step false none]

theorem injector_respects_draft_quiet :
    (run next .start quietRun).pty = [.enter .block, .paste [⟨"m1", "hi"⟩]] ∧
      ∀ t ∈ trace next .start quietRun, Respects t := by
  refine ⟨by decide, injector_respects_draft quietRun ?_⟩
  intro t ht
  simp only [quietRun, trace, List.mem_cons, List.not_mem_nil, or_false] at ht
  rcases ht with rfl | rfl | rfl | rfl | rfl | rfl | rfl | rfl
  · trivial
  all_goals
    intro task _ _
    decide

/-- The operator types between the paste and Enter: the letter is submitted with the message. -/
def typedOverRun : List Op :=
  [.receive ⟨"m1", "hi"⟩, .step false none, .step false none, .step false none,
    .step false none, .read [0x78], .forward, .step false none, .step false none]

theorem injector_respects_draft_typed_over :
    ¬ ∀ ops, ∀ t ∈ trace next .start ops, Respects t := by
  intro hclaim
  have hlast : ⟨run next .start (typedOverRun.take 8), .step false none,
      run next .start typedOverRun⟩ ∈ trace next .start typedOverRun :=
    List.mem_of_getElem? (i := 8) rfl
  have hpty : (run next .start typedOverRun).pty =
      .enter .block :: (run next .start (typedOverRun.take 8)).pty := by decide
  obtain ⟨-, hline, -⟩ := (hclaim typedOverRun _ hlast).enter .block hpty
  have hdirty : (operatorLine (run next .start (typedOverRun.take 8)).pty).isClean = false := by
    decide
  rw [hdirty] at hline
  cases hline

end Claudebase.Supervisor
