import Claudebase.Supervisor.Inject

/-!
# A cleared session

`src/supervisor/inject.rs:56–70,139–240`. A request to clear is taken when no message waits.
`/clear` is typed, then Enter is pressed, and the screen is watched. A report of success says that
the screen showed the emptied session after these two, with nothing of the injector's between them
or after them.
-/

namespace Claudebase.Supervisor
open Claudebase.Base

/-- What the operator types. -/
def Write.IsKeys : Write → Prop
  | .keys _ => True
  | _ => False

namespace System

/-- Of what the injector wrote, `/clear` is the last. -/
def Typed (s : System) : Prop :=
  ∃ later older, s.pty = later ++ .typeClear :: older ∧ ∀ w ∈ later, w.IsKeys

/-- Of what the injector wrote, `/clear` and its Enter are the last. -/
def Submitted (s : System) : Prop :=
  ∃ later between older, s.pty = later ++ .enter .clear :: (between ++ .typeClear :: older) ∧
    (∀ w ∈ later, w.IsKeys) ∧ ∀ w ∈ between, w.IsKeys

/-- The requests that are not reported yet. -/
def requests (s : System) : List ClearRequest := s.clearInbox ++ s.clears ++ s.clearing.toList

/-- What is written of a clear by the time the injector is where it is. -/
def Progress (s : System) : Prop :=
  match s.pc with
  | .gateModal .clear | .gateDraft .clear | .write .clear => s.queue = []
  | .typed | .recheck .clear | .enter .clear => s.queue = [] ∧ s.Typed
  | .settle .clear | .emptied => s.queue = [] ∧ s.Submitted
  | _ => True

/-- The injector saw the emptied session for this request, which it submitted with no message
waiting. -/
structure SeesEmptied (s : System) (req : ClearRequest) : Prop where
  clearing : s.clearing = some req
  screen : s.screen.showsClearedSession = true
  queue : s.queue = []
  submitted : s.Submitted

variable {s s' : System}

/-! ### Keystrokes -/

theorem isKeys_cons {bytes : List UInt8} {later : List Write} (h : ∀ w ∈ later, w.IsKeys) :
    ∀ w ∈ .keys bytes :: later, w.IsKeys :=
  List.forall_mem_cons.mpr ⟨trivial, h⟩

theorem Typed.keys (h : s.Typed) {bytes : List UInt8} (hpty : s'.pty = .keys bytes :: s.pty) :
    s'.Typed := by
  obtain ⟨later, older, hs, hkeys⟩ := h
  refine ⟨.keys bytes :: later, older, ?_, isKeys_cons hkeys⟩
  rw [hpty, hs]
  rfl

theorem Submitted.keys (h : s.Submitted) {bytes : List UInt8}
    (hpty : s'.pty = .keys bytes :: s.pty) : s'.Submitted := by
  obtain ⟨later, between, older, hs, hkeys, hbetween⟩ := h
  refine ⟨.keys bytes :: later, between, older, ?_, isKeys_cons hkeys, hbetween⟩
  rw [hpty, hs]
  rfl

theorem Typed.congr (h : s.Typed) (hpty : s'.pty = s.pty) : s'.Typed := by
  unfold Typed
  rw [hpty]
  exact h

theorem Submitted.congr (h : s.Submitted) (hpty : s'.pty = s.pty) : s'.Submitted := by
  unfold Submitted
  rw [hpty]
  exact h

/-- Enter submits what was typed. -/
theorem Typed.submitted (h : s.Typed) (hpty : s'.pty = .enter .clear :: s.pty) :
    s'.Submitted := by
  obtain ⟨later, older, hs, hkeys⟩ := h
  exact ⟨[], later, older, by rw [hpty, hs]; rfl, nofun, hkeys⟩

theorem typed_of_typeClear (hpty : s'.pty = .typeClear :: s.pty) : s'.Typed :=
  ⟨[], s.pty, hpty, nofun⟩

/-! ### Steps -/

/-- An event that leaves the queue and the place, and writes nothing but keystrokes. -/
theorem Progress.of_frame (h : s.Progress) (hpc : s'.pc = s.pc) (hqueue : s'.queue = s.queue)
    (hpty : s'.pty = s.pty ∨ ∃ bytes, s'.pty = .keys bytes :: s.pty) : s'.Progress := by
  have htyped : s.Typed → s'.Typed := by
    intro h
    rcases hpty with hpty | ⟨bytes, hpty⟩
    · exact h.congr hpty
    · exact h.keys hpty
  have hsubmitted : s.Submitted → s'.Submitted := by
    intro h
    rcases hpty with hpty | ⟨bytes, hpty⟩
    · exact h.congr hpty
    · exact h.keys hpty
  unfold Progress at h ⊢
  rw [hpc, hqueue]
  split at h
  · exact h
  · exact h
  · exact h
  · exact ⟨h.1, htyped h.2⟩
  · exact ⟨h.1, htyped h.2⟩
  · exact ⟨h.1, htyped h.2⟩
  · exact ⟨h.1, hsubmitted h.2⟩
  · exact ⟨h.1, hsubmitted h.2⟩
  · trivial

theorem progress_takeNext : (takeNext s).Progress := by
  unfold takeNext
  split
  · trivial
  · unfold waiting
    dsimp only
    split
    · trivial
    · next hempty =>
      split
      · unfold Progress
        simpa using hempty
      · trivial

theorem progress_writeFailed (task : Task) (pasted : Bool) (e : String) :
    (s.writeFailed task pasted e).Progress := by
  cases task with
  | block => trivial
  | clear => trivial

theorem Progress.injectorStep (h : s.Progress) (timedOut : Bool) (failure : Option String) :
    (injectorStep s timedOut failure).Progress := by
  unfold Supervisor.injectorStep
  cases hpc : s.pc with
  | top => exact progress_takeNext
  | gateModal task =>
    dsimp only
    split
    · trivial
    · cases task with
      | block => trivial
      | clear =>
        rw [Progress, hpc] at h
        exact h
  | gateDraft task =>
    dsimp only
    split
    · cases task with
      | block => trivial
      | clear =>
        rw [Progress, hpc] at h
        exact h
    · trivial
  | write task =>
    cases failure with
    | some e => exact progress_writeFailed task false e
    | none =>
      cases task with
      | block => trivial
      | clear =>
        rw [Progress, hpc] at h
        exact ⟨h, typed_of_typeClear rfl⟩
  | typed =>
    rw [Progress, hpc] at h
    dsimp only
    split
    · trivial
    · split
      · exact h
      · rw [Progress, hpc]
        exact h
  | recheck task =>
    cases s.screen.modalIsUp with
    | true =>
      cases task with
      | block => trivial
      | clear => trivial
    | false =>
      cases task with
      | block => trivial
      | clear =>
        rw [Progress, hpc] at h
        exact h
  | enter task =>
    cases failure with
    | some e => exact progress_writeFailed task true e
    | none =>
      cases task with
      | block => trivial
      | clear =>
        rw [Progress, hpc] at h
        exact ⟨h.1, h.2.submitted rfl⟩
  | settle task =>
    cases task with
    | block => trivial
    | clear =>
      rw [Progress, hpc] at h
      exact ⟨h.1, h.2.congr rfl⟩
  | erase why =>
    cases failure with
    | some e => trivial
    | none => trivial
  | emptied =>
    rw [Progress, hpc] at h
    dsimp only
    split
    · trivial
    · split
      · trivial
      · rw [Progress, hpc]
        exact h
  | stopped pasted =>
    rw [Progress, hpc]
    trivial

theorem Progress.next (h : s.Progress) (op : Op) : (Supervisor.next s op).Progress := by
  cases op with
  | step timedOut failure => exact h.injectorStep timedOut failure
  | read bytes =>
    unfold Supervisor.next
    dsimp only
    split
    · exact h.of_frame rfl rfl (Or.inl rfl)
    · exact h
  | forward =>
    unfold Supervisor.next
    dsimp only
    split
    · exact h.of_frame rfl rfl (Or.inr ⟨_, rfl⟩)
    · exact h
  | _ => exact h.of_frame rfl rfl (Or.inl rfl)

/-! ### Reports -/

/-- A step that reports a clear: the one in progress, and a success is one that was seen. -/
structure Reports (s s' : System) (outcome : Except String Unit) : Prop where
  reports : s'.reports = (s.clearing, outcome) :: s.reports
  seen : outcome = .ok () → s.pc = .emptied ∧ s.screen.showsClearedSession = true

/-- What a step does with the requests: it reports none, or the one in progress, and takes no new
ones. -/
inductive Settles (s s' : System) : Prop
  | quiet (hreports : s'.reports = s.reports) (hrequests : s'.requests ⊆ s.requests)
  | reported (outcome : Except String Unit) (hreports : Reports s s' outcome)
    (hrequests : s'.requests ⊆ s.requests)

/-- A step that leaves what was asked and what was reported. -/
theorem Settles.of_same (hreports : s'.reports = s.reports) (hrequests : s'.requests = s.requests) :
    Settles s s' :=
  .quiet hreports (hrequests ▸ List.Subset.refl _)

/-- The one in progress is reported, the others are left. -/
theorem settles_report {outcome : Except String Unit}
    (hreports : s'.reports = (s.clearing, outcome) :: s.reports)
    (hrequests : s'.requests = s.clearInbox ++ s.clears)
    (hseen : outcome = .ok () → s.pc = .emptied ∧ s.screen.showsClearedSession = true) :
    Settles s s' := by
  apply Settles.reported outcome ⟨hreports, hseen⟩
  rw [hrequests]
  exact List.subset_append_left _ _

theorem settles_writeFailed (task : Task) (pasted : Bool) (e : String) :
    Settles s (s.writeFailed task pasted e) := by
  cases task with
  | block => exact .of_same rfl rfl
  | clear => exact settles_report rfl (List.append_nil _) nofun

theorem settles_takeNext : Settles s (takeNext s) := by
  unfold takeNext takeMessage
  split
  · exact .of_same rfl rfl
  · have hrequests : [] ++ (s.clears ++ s.clearInbox) ++ s.clearing.toList ⊆ s.requests := by
      unfold requests
      intro req h
      simp only [List.nil_append, List.mem_append] at h ⊢
      tauto
    dsimp only
    split
    · exact .quiet rfl hrequests
    · exact .quiet rfl hrequests

theorem settles_step (s : System) (timedOut : Bool) (failure : Option String) :
    Settles s (injectorStep s timedOut failure) := by
  unfold injectorStep
  cases hpc : s.pc with
  | top => exact settles_takeNext
  | gateModal task => exact .of_same rfl rfl
  | gateDraft task =>
    dsimp only
    split
    · cases task with
      | block => exact .of_same rfl rfl
      | clear =>
        -- the first of the requests is the one in progress from now on
        refine .quiet rfl ?_
        unfold requests
        intro req h
        simp only [List.mem_append, Option.mem_toList] at h ⊢
        rcases h with (h | h) | h
        · exact Or.inl (Or.inl h)
        · exact Or.inl (Or.inr (List.mem_of_mem_drop h))
        · exact Or.inl (Or.inr (List.mem_of_mem_head? h))
    · exact .of_same rfl rfl
  | write task =>
    cases failure with
    | some e => exact settles_writeFailed task false e
    | none =>
      cases task with
      | block => exact .of_same rfl rfl
      | clear => exact .of_same rfl rfl
  | typed =>
    dsimp only
    split
    · exact .of_same rfl rfl
    · split
      · exact .of_same rfl rfl
      · exact .of_same rfl rfl
  | recheck task =>
    cases s.screen.modalIsUp with
    | false => exact .of_same rfl rfl
    | true =>
      cases task with
      | block => exact .of_same rfl rfl
      | clear => exact .of_same rfl rfl
  | enter task =>
    cases failure with
    | some e => exact settles_writeFailed task true e
    | none => exact .of_same rfl rfl
  | settle task =>
    cases task with
    | block => exact .of_same rfl rfl
    | clear => exact .of_same rfl rfl
  | erase why =>
    cases failure with
    | some e => exact settles_report rfl (List.append_nil _) nofun
    | none => exact settles_report rfl (List.append_nil _) nofun
  | emptied =>
    dsimp only
    split
    · exact settles_report rfl (List.append_nil _) nofun
    · split
      · next hshows => exact settles_report rfl (List.append_nil _) fun _ ↦ ⟨hpc, hshows⟩
      · exact .of_same rfl rfl
  | stopped pasted => exact .of_same rfl rfl

/-- Only a request from outside is new. -/
theorem settles_next {op : Op} (hop : ∀ req, op ≠ .askClear req) :
    Settles s (Supervisor.next s op) := by
  cases op with
  | askClear req => exact absurd rfl (hop req)
  | step timedOut failure => exact settles_step s timedOut failure
  | read bytes =>
    unfold Supervisor.next
    dsimp only
    split
    · exact .of_same rfl rfl
    · exact .of_same rfl rfl
  | forward =>
    unfold Supervisor.next
    dsimp only
    split
    · exact .of_same rfl rfl
    · exact .of_same rfl rfl
  | _ => exact .of_same rfl rfl

/-- An event reports nothing, or one clear. -/
theorem reports_next (s : System) (op : Op) :
    (Supervisor.next s op).reports = s.reports ∨
      ∃ outcome, Reports s (Supervisor.next s op) outcome := by
  by_cases hasks : ∃ req, op = .askClear req
  · obtain ⟨req, rfl⟩ := hasks
    exact Or.inl rfl
  · cases settles_next (s := s) (not_exists.mp hasks) with
    | quiet hreports hrequests => exact Or.inl hreports
    | reported outcome hreports hrequests => exact Or.inr ⟨outcome, hreports⟩

/-- A success that is reported was seen. -/
theorem Reports.seesEmptied {op : Op} (h : Reports s (Supervisor.next s op) (.ok ()))
    (hprogress : s.Progress) {req : ClearRequest} (hreq : s.clearing = some req) :
    s.SeesEmptied req := by
  obtain ⟨hpc, hshows⟩ := h.seen rfl
  rw [Progress, hpc] at hprogress
  exact ⟨hreq, hshows, hprogress.1, hprogress.2⟩

/-! ### Requests -/

/-- A request comes from outside, and stays the same until it is reported. -/
theorem requests_next {op : Op} {req : ClearRequest} (h : req ∈ (Supervisor.next s op).requests) :
    req ∈ s.requests ∨ op = .askClear req := by
  by_cases hasks : ∃ req, op = .askClear req
  · obtain ⟨new, rfl⟩ := hasks
    unfold Supervisor.next requests at h
    unfold requests
    simp only [List.mem_append, List.mem_singleton] at h ⊢
    rcases h with ((h | rfl) | h) | h
    · exact Or.inl (Or.inl (Or.inl h))
    · exact Or.inr rfl
    · exact Or.inl (Or.inl (Or.inr h))
    · exact Or.inl (Or.inr h)
  · left
    cases settles_next (s := s) (not_exists.mp hasks) with
    | quiet hreports hrequests => exact hrequests h
    | reported outcome hreports hrequests => exact hrequests h

end System

end Claudebase.Supervisor
