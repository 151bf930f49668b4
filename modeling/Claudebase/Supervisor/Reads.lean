import Mathlib.Data.List.Induction
import Mathlib.Data.List.TakeWhile
import Claudebase.Supervisor.Draft

/-!
# Reads that cut the operator's input

`src/supervisor/draft.rs:97–219`, `src/supervisor/mod.rs:377–393`. The tracker sees the input one
read at a time and looks for the end of an escape sequence inside the read. `Scan` reads byte by
byte and remembers where in a sequence it is: on one read the two agree, and a read can be joined
to the next one just if it ends between sequences. The text kept for the log is that of the read.
-/

namespace Claudebase.Supervisor

/-! ### A scan that remembers its place -/

/-- Where in an escape sequence a scan is. -/
inductive Place where
  | atRest
  | escape
  | control (params : List UInt8)
  | single
  | mouse (left : Nat)
  deriving DecidableEq, Repr

/-- What last made the line dirty: a typed byte, or a sequence. -/
inductive Dirt where
  | typed
  | sequence (bytes : List UInt8)
  deriving DecidableEq, Repr

structure Scan where
  place : Place
  pending : Nat
  recalled : Bool
  dirt : Option Dirt
  deriving DecidableEq, Repr

namespace Scan

/-- A byte outside sequences. -/
def typeByte (s : Scan) (b : UInt8) : Scan :=
  if b = 0x0d ∨ b = 0x0a then { s with pending := 0, recalled := false }
  else if b = 0x03 ∨ b = 0x15 then { s with pending := 0, recalled := false }
  else if b = 0x17 then { s with pending := max s.pending 1 }
  else if b = 0x7f ∨ b = 0x08 then { s with pending := s.pending - 1 }
  else if b ≤ 0x1f then s
  else if 0x80 ≤ b ∧ b ≤ 0xbf then s
  else { s with pending := s.pending + 1, dirt := some .typed }

/-- A sequence that is over. -/
def finish (s : Scan) (effect : EscEffect) (bytes : List UInt8) : Scan :=
  match effect with
  | .putsTextOnLine => { s with place := .atRest, recalled := true, dirt := some (.sequence bytes) }
  | .inert => { s with place := .atRest }

/-- What a control sequence with these parameters and this final byte does. -/
def controlEffect (params : List UInt8) (final : UInt8) : EscEffect :=
  if final = 0x41 ∨ final = 0x42 then .putsTextOnLine
  else if final = 0x7e ∧ params = [0x32, 0x30, 0x30] then .putsTextOnLine
  else .inert

/-- What a sequence of three bytes with this last one does. -/
def singleEffect (final : UInt8) : EscEffect :=
  if final = 0x41 ∨ final = 0x42 then .putsTextOnLine else .inert

/-- One byte. -/
def step (s : Scan) (b : UInt8) : Scan :=
  match s.place with
  | .atRest => if b = esc then { s with place := .escape } else s.typeByte b
  | .escape =>
    if b = 0x5b then { s with place := .control [] }
    else if b = 0x4f then { s with place := .single }
    else { s with place := .atRest }
  | .control params =>
    if !isFinal b then { s with place := .control (params ++ [b]) }
    else if params = [] ∧ b = 0x4d then { s with place := .mouse 3 }
    else s.finish (controlEffect params b) (esc :: 0x5b :: (params ++ [b]))
  | .single => s.finish (singleEffect b) [esc, 0x4f, b]
  | .mouse left => { s with place := if left ≤ 1 then .atRest else .mouse (left - 1) }

/-- Bytes one after another. -/
def steps (s : Scan) (bytes : List UInt8) : Scan := bytes.foldl step s

@[simp] theorem steps_nil (s : Scan) : s.steps [] = s := rfl

@[simp] theorem steps_cons (s : Scan) (b : UInt8) (bytes : List UInt8) :
    s.steps (b :: bytes) = (s.step b).steps bytes := rfl

theorem steps_append (s : Scan) (a b : List UInt8) : s.steps (a ++ b) = (s.steps a).steps b :=
  List.foldl_append

end Scan

/-- The text kept for the log. -/
def Dirt.text (chunk : List UInt8) : Dirt → String
  | .typed => String.ofList ((chunk.flatMap fun b ↦ (DraftTracker.shown b).toList).take 60)
  | .sequence bytes =>
    String.ofList ((bytes.flatMap fun b ↦ (DraftTracker.shown b).toList).take 60)

/-- A tracker before its next read. -/
def DraftTracker.scan (d : DraftTracker) : Scan := ⟨.atRest, d.pending, d.recalled, none⟩

/-- What a scan of the read `chunk` says of the tracker, whose log was `log` before. -/
def Scan.tracker (s : Scan) (chunk : List UInt8) (log : String) : DraftTracker :=
  ⟨s.pending, s.recalled, (s.dirt.map (Dirt.text chunk)).getD log⟩

/-! ### On one read the tracker is the scan -/

section

variable {s : Scan} {chunk : List UInt8} {log : String}

theorem tracker_typeByte (b : UInt8) :
    (s.typeByte b).tracker chunk log = (s.tracker chunk log).seeByte chunk b := by
  unfold Scan.typeByte DraftTracker.seeByte
  split_ifs <;> rfl

theorem tracker_finish (effect : EscEffect) (bytes : List UInt8) :
    (s.finish effect bytes).tracker chunk log =
      (s.tracker chunk log).seeEscape effect bytes := by
  cases effect with
  | putsTextOnLine => rfl
  | inert => rfl

theorem steps_params {params : List UInt8} (acc : List UInt8)
    (h : ∀ b ∈ params, isFinal b = false) :
    ({ s with place := .control acc } : Scan).steps params =
      { s with place := .control (acc ++ params) } := by
  induction params generalizing acc with
  | nil => simp
  | cons b params ih =>
    have hb : isFinal b = false := h b List.mem_cons_self
    have hstep : ({ s with place := .control acc } : Scan).step b =
        { s with place := .control (acc ++ [b]) } := by
      simp [Scan.step, hb]
    rw [Scan.steps_cons, hstep, ih _ fun c hc ↦ h c (.tail _ hc)]
    simp

/-- The last byte of a control sequence with these parameters. -/
theorem step_final {params : List UInt8} {b : UInt8} (hb : isFinal b = true)
    (hmouse : ¬(params = [] ∧ b = 0x4d)) :
    ({ s with place := .control params } : Scan).step b =
      ({ s with place := .control params } : Scan).finish (Scan.controlEffect params b)
        (esc :: 0x5b :: (params ++ [b])) := by
  simp [Scan.step, hb, hmouse]

theorem finish_place (s : Scan) (place : Place) (effect : EscEffect) (bytes : List UInt8) :
    ({ s with place } : Scan).finish effect bytes = s.finish effect bytes := by
  cases effect with
  | putsTextOnLine => rfl
  | inert => rfl

theorem place_finish (s : Scan) (effect : EscEffect) (bytes : List UInt8) :
    (s.finish effect bytes).place = .atRest := by
  cases effect with
  | putsTextOnLine => rfl
  | inert => rfl

theorem place_typeByte (s : Scan) (b : UInt8) : (s.typeByte b).place = s.place := by
  unfold Scan.typeByte
  split_ifs <;> rfl

/-! ### Sequences as they are classified -/

theorem classify_mouse (tail : List UInt8) :
    classifyEscapeSequence (esc :: 0x5b :: 0x4d :: tail) = (min 6 (tail.length + 3), .inert) :=
  rfl

/-- A control sequence the read does not end. -/
theorem classify_open {params : List UInt8} (h : ∀ b ∈ params, isFinal b = false) :
    classifyEscapeSequence (esc :: 0x5b :: params) = (params.length + 2, .inert) := by
  have hmouse : params.head? ≠ some 0x4d := by
    intro hhead
    have := h 0x4d (List.mem_of_mem_head? hhead)
    exact absurd this (by decide)
  have hall : params.takeWhile (fun b ↦ !isFinal b) = params := by
    rw [List.takeWhile_eq_self_iff]
    intro b hb
    simp [h b hb]
  unfold classifyEscapeSequence
  simp [hmouse, hall]

/-- A control sequence with its final byte. -/
theorem classify_final {params tail : List UInt8} {f : UInt8}
    (h : ∀ b ∈ params, isFinal b = false) (hf : isFinal f = true)
    (hmouse : ¬(params = [] ∧ f = 0x4d)) :
    classifyEscapeSequence (esc :: 0x5b :: (params ++ f :: tail)) =
      (params.length + 3, Scan.controlEffect params f) := by
  have hhead : (params ++ f :: tail).head? ≠ some 0x4d := by
    cases params with
    | nil => simpa using hmouse
    | cons b params =>
      intro hb
      have hb : b = 0x4d := by simpa using hb
      have := h b List.mem_cons_self
      rw [hb] at this
      exact absurd this (by decide)
  have hall : (params ++ f :: tail).takeWhile (fun b ↦ !isFinal b) = params := by
    rw [List.takeWhile_append_of_pos fun b hb ↦ by simp [h b hb]]
    simp [hf]
  have hat : (params ++ f :: tail)[params.length]? = some f := by simp
  unfold classifyEscapeSequence
  simp only [hhead, hall, hat, if_false]
  ext1
  · simp
  · unfold Scan.controlEffect
    by_cases hup : f = 0x41
    · simp [hup]
    · by_cases hdown : f = 0x42
      · simp [hdown]
      · by_cases htilde : f = 0x7e
        · simp [htilde]
        · simp [hup, hdown, htilde]

theorem classify_single (f : UInt8) (tail : List UInt8) :
    classifyEscapeSequence (esc :: 0x4f :: f :: tail) = (3, Scan.singleEffect f) := by
  unfold classifyEscapeSequence Scan.singleEffect
  by_cases hup : f = 0x41
  · simp [hup]
  · by_cases hdown : f = 0x42
    · simp [hdown]
    · simp [hup, hdown]

theorem classify_other {c : UInt8} (tail : List UInt8) (hcontrol : c ≠ 0x5b) (hsingle : c ≠ 0x4f) :
    classifyEscapeSequence (esc :: c :: tail) = (2, .inert) := by
  unfold classifyEscapeSequence
  split
  · next h => exact absurd (List.cons.inj (List.cons.inj h).2).1 hcontrol
  · next h => exact absurd (List.cons.inj (List.cons.inj h).2).1 hsingle
  · rfl
  · next h => exact absurd rfl (h esc c tail)

/-- A sequence has its first byte. -/
theorem classify_pos (rest : List UInt8) : 0 < (classifyEscapeSequence (esc :: rest)).1 := by
  have hlen : 0 < (esc :: rest).length := by simp
  unfold classifyEscapeSequence
  split
  · split
    · dsimp only
      omega
    · dsimp only
      omega
  · dsimp only
    omega
  · simp
  · simp

/-- What follows the opening of a control sequence: a legacy mouse report, only parameters, or
parameters and a final byte. -/
theorem control_cases (rest : List UInt8) :
    (∃ tail, rest = 0x4d :: tail) ∨ (∀ b ∈ rest, isFinal b = false) ∨
      ∃ params f tail, rest = params ++ f :: tail ∧ (∀ b ∈ params, isFinal b = false) ∧
        isFinal f = true ∧ ¬(params = [] ∧ f = 0x4d) := by
  induction rest with
  | nil => exact Or.inr (Or.inl (by simp))
  | cons b rest ih =>
    cases hb : isFinal b with
    | true =>
      by_cases hmouse : b = 0x4d
      · exact Or.inl ⟨rest, by rw [hmouse]⟩
      · exact Or.inr (Or.inr ⟨[], b, rest, rfl, by simp, hb, fun h ↦ hmouse h.2⟩)
    | false =>
      rcases ih with ⟨tail, rfl⟩ | hall | ⟨params, f, tail, rfl, hparams, hf, -⟩
      · exact Or.inr (Or.inr ⟨[b], 0x4d, tail, rfl, by simpa using hb, by decide, by simp⟩)
      · exact Or.inr (Or.inl (List.forall_mem_cons.mpr ⟨hb, hall⟩))
      · exact Or.inr (Or.inr
          ⟨b :: params, f, tail, rfl, List.forall_mem_cons.mpr ⟨hb, hparams⟩, hf, by simp⟩)

/-! ### What the scan steps over -/

/-- A legacy mouse report, to its end or to that of the read. -/
theorem steps_report (tail : List UInt8) :
    ∃ place, ({ s with place := .mouse 3 } : Scan).steps (tail.take 3) = { s with place } ∧
      (place = .atRest ∨ tail.length ≤ 3) := by
  match tail with
  | [] => exact ⟨_, rfl, Or.inr (by simp)⟩
  | [_] => exact ⟨_, rfl, Or.inr (by simp)⟩
  | [_, _] => exact ⟨_, rfl, Or.inr (by simp)⟩
  | _ :: _ :: _ :: _ => exact ⟨_, rfl, Or.inl rfl⟩

/-- An escape sequence, to its end or to that of the read. -/
theorem steps_sequence (rest : List UInt8) (hrest : s.place = .atRest) :
    (s.steps ((esc :: rest).take (classifyEscapeSequence (esc :: rest)).1)).tracker chunk log =
        (s.tracker chunk log).seeEscape (classifyEscapeSequence (esc :: rest)).2
          ((esc :: rest).take (classifyEscapeSequence (esc :: rest)).1) ∧
      ((s.steps ((esc :: rest).take (classifyEscapeSequence (esc :: rest)).1)).place = .atRest ∨
        (esc :: rest).drop (classifyEscapeSequence (esc :: rest)).1 = []) := by
  have hesc : s.step esc = { s with place := .escape } := by simp [Scan.step, hrest]
  have hopen : ∀ bytes, s.steps (esc :: 0x5b :: bytes) =
      ({ s with place := .control [] } : Scan).steps bytes := by
    intro bytes
    rw [Scan.steps_cons, hesc]
    rfl
  have hthird : ∀ bytes, s.steps (esc :: 0x4f :: bytes) =
      ({ s with place := .single } : Scan).steps bytes := by
    intro bytes
    rw [Scan.steps_cons, hesc]
    rfl
  cases rest with
  | nil =>
    show (s.steps [esc]).tracker chunk log = s.tracker chunk log ∧ _
    rw [Scan.steps_cons, hesc]
    exact ⟨rfl, Or.inr rfl⟩
  | cons c rest =>
    by_cases hcontrol : c = 0x5b
    · subst hcontrol
      rcases control_cases rest with ⟨tail, rfl⟩ | hall | ⟨params, f, tail, rfl, hall, hf, hmouse⟩
      · have hlen : min 6 (tail.length + 3) = min 3 tail.length + 3 := by omega
        rw [classify_mouse, hlen]
        have htake : (esc :: 0x5b :: 0x4d :: tail).take (min 3 tail.length + 3) =
            esc :: 0x5b :: 0x4d :: tail.take 3 := by
          simp [List.take_eq_take_iff]
        obtain ⟨place, hplace, hend⟩ := @steps_report s tail
        have hsteps : s.steps (esc :: 0x5b :: 0x4d :: tail.take 3) = { s with place } := by
          rw [hopen]
          exact hplace
        rw [htake, hsteps]
        refine ⟨rfl, hend.imp id fun hshort ↦ ?_⟩
        show tail.drop (min 3 tail.length) = []
        rw [min_eq_right hshort, List.drop_length]
      · rw [classify_open hall]
        have htake : (esc :: 0x5b :: rest).take (rest.length + 2) = esc :: 0x5b :: rest := by
          simp
        rw [htake, hopen, steps_params [] hall]
        exact ⟨rfl, Or.inr (by simp)⟩
      · rw [classify_final hall hf hmouse]
        have htake : (esc :: 0x5b :: (params ++ f :: tail)).take (params.length + 3) =
            esc :: 0x5b :: (params ++ [f]) := by
          simp [List.take_append, List.take_of_length_le]
        rw [htake, hopen, Scan.steps_append, steps_params [] hall, List.nil_append,
          Scan.steps_cons, step_final hf hmouse, finish_place, Scan.steps_nil, tracker_finish]
        exact ⟨rfl, Or.inl (place_finish _ _ _)⟩
    · by_cases hsingle : c = 0x4f
      · subst hsingle
        cases rest with
        | nil =>
          show (s.steps [esc, 0x4f]).tracker chunk log = s.tracker chunk log ∧ _
          rw [hthird]
          exact ⟨rfl, Or.inr rfl⟩
        | cons f rest =>
          have htake : (esc :: 0x4f :: f :: rest).take 3 = [esc, 0x4f, f] := rfl
          have hend : ({ s with place := .single } : Scan).steps [f] =
              s.finish (Scan.singleEffect f) [esc, 0x4f, f] :=
            finish_place s .single _ _
          rw [classify_single, htake, hthird, hend, tracker_finish]
          exact ⟨rfl, Or.inl (place_finish _ _ _)⟩
      · have htake : (esc :: c :: rest).take 2 = [esc, c] := rfl
        have hend : s.steps [esc, c] = { s with place := .atRest } := by
          rw [Scan.steps_cons, hesc]
          simp [Scan.step, hcontrol, hsingle]
        rw [classify_other rest hcontrol hsingle, htake, hend]
        exact ⟨rfl, Or.inl rfl⟩

theorem observeFrom_skip (chunk : List UInt8) (d : DraftTracker) (skip : Nat)
    (bytes : List UInt8) :
    DraftTracker.observeFrom chunk skip d bytes =
      DraftTracker.observeFrom chunk 0 d (bytes.drop skip) := by
  induction bytes generalizing skip with
  | nil => simp [DraftTracker.observeFrom]
  | cons b bytes ih =>
    cases skip with
    | zero => rfl
    | succ skip => exact ih skip

/-- Between sequences the loop over a read goes on as the scan does. -/
theorem observeFrom_tracker (bytes : List UInt8) (s : Scan) (hrest : s.place = .atRest) :
    DraftTracker.observeFrom chunk 0 (s.tracker chunk log) bytes =
      (s.steps bytes).tracker chunk log := by
  induction hlen : bytes.length using Nat.strongRecOn generalizing s bytes with
  | ind n ih =>
    cases bytes with
    | nil => rfl
    | cons b rest =>
      by_cases hb : b = esc
      · subst hb
        obtain ⟨htracker, hend⟩ := @steps_sequence s chunk log rest hrest
        have hpos := classify_pos rest
        generalize hseen : classifyEscapeSequence (esc :: rest) = seen at htracker hend hpos
        have hloop : DraftTracker.observeFrom chunk 0 (s.tracker chunk log) (esc :: rest) =
            DraftTracker.observeFrom chunk 0
              ((s.steps ((esc :: rest).take seen.1)).tracker chunk log)
              ((esc :: rest).drop seen.1) := by
          obtain ⟨k, hk⟩ : ∃ k, seen.1 = k + 1 := ⟨seen.1 - 1, by omega⟩
          rw [htracker, hk, List.drop_succ_cons, ← observeFrom_skip, ← hk]
          simp only [DraftTracker.observeFrom, if_true, hseen, hk, Nat.add_sub_cancel]
        rw [hloop, ← List.take_append_drop seen.1 (esc :: rest), Scan.steps_append,
          List.take_append_drop]
        rcases hend with hend | hend
        · refine ih _ ?_ _ _ hend rfl
          rw [List.length_drop, ← hlen]
          have : 0 < (esc :: rest).length := by simp
          omega
        · rw [hend]
          rfl
      · have hstep : s.step b = s.typeByte b := by simp [Scan.step, hrest, hb]
        have hloop : DraftTracker.observeFrom chunk 0 (s.tracker chunk log) (b :: rest) =
            DraftTracker.observeFrom chunk 0 ((s.typeByte b).tracker chunk log) rest := by
          rw [tracker_typeByte]
          simp only [DraftTracker.observeFrom, hb, if_false]
        rw [hloop, Scan.steps_cons, hstep]
        exact ih rest.length (by rw [← hlen]; simp) rest _ ((place_typeByte s b).trans hrest) rfl

/-- What one read leaves is what the scan of it says. -/
theorem observe_eq (d : DraftTracker) (bytes : List UInt8) :
    d.observe bytes = (d.scan.steps bytes).tracker bytes d.lastDirty :=
  observeFrom_tracker bytes d.scan rfl

end

/-! ### What is promised of reads -/

/-- What injection looks at. -/
def DraftTracker.line (d : DraftTracker) : Nat × Bool := (d.pending, d.recalled)

/-- Reads one after another. -/
def DraftTracker.observeAll (d : DraftTracker) (reads : List (List UInt8)) : DraftTracker :=
  reads.foldl observe d

/-- Whatever the tracker, however many of the reads came and whatever comes next, the line is the
one of a single read. -/
def SameLine (reads : List (List UInt8)) : Prop :=
  ∀ (d : DraftTracker) (n : Nat) (next : List UInt8),
    (d.observeAll (reads.take n ++ [next])).line =
      (d.observe ((reads.take n).flatten ++ next)).line

/-- Whatever the tracker, it is left as by a single read. -/
def SameState (reads : List (List UInt8)) : Prop :=
  ∀ d : DraftTracker, d.observeAll reads = d.observe reads.flatten

/-- A scan that starts at a place with an empty line. -/
def Scan.blank (place : Place) : Scan := ⟨place, 0, false, none⟩

/-- A read ends between sequences. -/
def endsAtRest (bytes : List UInt8) : Bool := ((Scan.blank .atRest).steps bytes).place == .atRest

/-- What of a read last made the line dirty. -/
def dirtOf (bytes : List UInt8) : Option Dirt := ((Scan.blank .atRest).steps bytes).dirt

/-- The text the reads leave in the log. -/
def logged (reads : List (List UInt8)) : Option String :=
  reads.foldl (fun log bytes ↦ ((dirtOf bytes).map (Dirt.text bytes)).or log) none

/-! ### What bytes do from a place -/

namespace Scan

/-- Bytes take every scan at a place to one place, change its line by one function, and leave
one new dirt or none. -/
def Uniform (place : Place) (bytes : List UInt8) : Prop :=
  ∃ (place' : Place) (f : Nat × Bool → Nat × Bool) (e : Option Dirt), ∀ pending recalled dirt,
    (⟨place, pending, recalled, dirt⟩ : Scan).steps bytes =
      ⟨place', (f (pending, recalled)).1, (f (pending, recalled)).2, Option.or e dirt⟩

theorem uniform_typeByte (b : UInt8) :
    ∃ (f : Nat × Bool → Nat × Bool) (e : Option Dirt), ∀ pending recalled dirt,
      (⟨.atRest, pending, recalled, dirt⟩ : Scan).typeByte b =
        ⟨.atRest, (f (pending, recalled)).1, (f (pending, recalled)).2, Option.or e dirt⟩ := by
  unfold typeByte
  split_ifs
  · exact ⟨fun _ ↦ (0, false), none, fun _ _ _ ↦ rfl⟩
  · exact ⟨fun _ ↦ (0, false), none, fun _ _ _ ↦ rfl⟩
  · exact ⟨fun l ↦ (max l.1 1, l.2), none, fun _ _ _ ↦ rfl⟩
  · exact ⟨fun l ↦ (l.1 - 1, l.2), none, fun _ _ _ ↦ rfl⟩
  · exact ⟨fun l ↦ l, none, fun _ _ _ ↦ rfl⟩
  · exact ⟨fun l ↦ l, none, fun _ _ _ ↦ rfl⟩
  · exact ⟨fun l ↦ (l.1 + 1, l.2), some .typed, fun _ _ _ ↦ rfl⟩

theorem uniform_finish (place : Place) (effect : EscEffect) (bytes : List UInt8) :
    ∃ (f : Nat × Bool → Nat × Bool) (e : Option Dirt), ∀ pending recalled dirt,
      (⟨place, pending, recalled, dirt⟩ : Scan).finish effect bytes =
        ⟨.atRest, (f (pending, recalled)).1, (f (pending, recalled)).2, Option.or e dirt⟩ := by
  cases effect with
  | putsTextOnLine => exact ⟨fun l ↦ (l.1, true), some (.sequence bytes), fun _ _ _ ↦ rfl⟩
  | inert => exact ⟨fun l ↦ l, none, fun _ _ _ ↦ rfl⟩

theorem uniform_step (place : Place) (b : UInt8) : Uniform place [b] := by
  unfold Uniform
  simp only [steps_cons, steps_nil]
  have hplace : ∀ next : Place, ∃ (place' : Place) (f : Nat × Bool → Nat × Bool)
      (e : Option Dirt), ∀ pending recalled dirt, (⟨next, pending, recalled, dirt⟩ : Scan) =
        ⟨place', (f (pending, recalled)).1, (f (pending, recalled)).2, Option.or e dirt⟩ :=
    fun next ↦ ⟨next, fun l ↦ l, none, fun _ _ _ ↦ rfl⟩
  cases place with
  | atRest =>
    by_cases hb : b = esc
    · simp only [step, hb, if_true]
      exact hplace _
    · simp only [step, hb, if_false]
      exact ⟨_, uniform_typeByte b⟩
  | escape =>
    simp only [step]
    split_ifs
    · exact hplace _
    · exact hplace _
    · exact hplace _
  | control params =>
    simp only [step]
    split_ifs
    · exact hplace _
    · exact hplace _
    · exact ⟨_, uniform_finish _ _ _⟩
  | single => exact ⟨_, uniform_finish _ _ _⟩
  | mouse left => exact hplace _

theorem uniform (place : Place) (bytes : List UInt8) : Uniform place bytes := by
  induction bytes generalizing place with
  | nil => exact ⟨place, fun l ↦ l, none, fun _ _ _ ↦ rfl⟩
  | cons b bytes ih =>
    obtain ⟨middle, f, e, hstep⟩ := uniform_step place b
    obtain ⟨last, g, e', hrest⟩ := ih middle
    refine ⟨last, fun l ↦ g (f l), e'.or e, fun pending recalled dirt ↦ ?_⟩
    have hfirst : (⟨place, pending, recalled, dirt⟩ : Scan).step b = _ :=
      hstep pending recalled dirt
    rw [steps_cons, hfirst, hrest, Option.or_assoc]

/-- The place after some bytes depends on the place before alone. -/
theorem place_steps {s t : Scan} (h : s.place = t.place) (bytes : List UInt8) :
    (s.steps bytes).place = (t.steps bytes).place := by
  obtain ⟨place, f, e, hsteps⟩ := uniform s.place bytes
  have hs := hsteps s.pending s.recalled s.dirt
  have ht := hsteps t.pending t.recalled t.dirt
  rw [h] at ht
  rw [show s.steps bytes = _ from hs, show t.steps bytes = _ from ht]

/-- The dirt the bytes leave is laid over the one before. -/
theorem dirt_steps (s : Scan) (bytes : List UInt8) :
    (s.steps bytes).dirt = ((blank s.place).steps bytes).dirt.or s.dirt := by
  obtain ⟨place, f, e, hsteps⟩ := uniform s.place bytes
  have hs := hsteps s.pending s.recalled s.dirt
  have hblank := hsteps 0 false none
  rw [show s.steps bytes = _ from hs, show (blank s.place).steps bytes = _ from hblank]
  simp

/-- The line after some bytes depends on the place and the line before. -/
theorem line_steps {s t : Scan} (hplace : s.place = t.place) (hpending : s.pending = t.pending)
    (hrecalled : s.recalled = t.recalled) (bytes : List UInt8) :
    (s.steps bytes).pending = (t.steps bytes).pending ∧
      (s.steps bytes).recalled = (t.steps bytes).recalled := by
  obtain ⟨place, f, e, hsteps⟩ := uniform s.place bytes
  have hs := hsteps s.pending s.recalled s.dirt
  have ht := hsteps s.pending s.recalled t.dirt
  rw [show s.steps bytes = _ from hs]
  rw [hplace, hpending, hrecalled] at ht
  rw [show t.steps bytes = _ from ht, hpending, hrecalled]
  exact ⟨rfl, rfl⟩

end Scan

/-! ### Joining reads -/

theorem endsAtRest_iff (d : DraftTracker) (bytes : List UInt8) :
    endsAtRest bytes = true ↔ (d.scan.steps bytes).place = .atRest := by
  rw [endsAtRest, beq_iff_eq, @Scan.place_steps (.blank .atRest) d.scan rfl]

theorem line_observe (d : DraftTracker) (bytes : List UInt8) :
    (d.observe bytes).line =
      ((d.scan.steps bytes).pending, (d.scan.steps bytes).recalled) := by
  rw [observe_eq]
  rfl

theorem line_observe_congr {d d' : DraftTracker} (h : d.line = d'.line) (bytes : List UInt8) :
    (d.observe bytes).line = (d'.observe bytes).line := by
  have hscan : d.scan = d'.scan := by
    obtain ⟨hpending, hrecalled⟩ := Prod.mk.inj h
    rw [DraftTracker.scan, DraftTracker.scan, hpending, hrecalled]
  rw [line_observe, line_observe, hscan]

/-- A read that ends between sequences can be joined to the next one. -/
theorem line_observe_append {a : List UInt8} (h : endsAtRest a = true) (d : DraftTracker)
    (b : List UInt8) : ((d.observe a).observe b).line = (d.observe (a ++ b)).line := by
  rw [line_observe, line_observe, Scan.steps_append]
  obtain ⟨hpending, hrecalled⟩ := Prod.mk.inj (line_observe d a)
  have hplace := (endsAtRest_iff d a).mp h
  obtain ⟨hp, hr⟩ := Scan.line_steps (s := (d.observe a).scan) (t := d.scan.steps a)
    hplace.symm hpending hrecalled b
  rw [hp, hr]

/-- One that does not swallows the next typed byte. -/
theorem line_observe_swallow {a : List UInt8} (h : ¬endsAtRest a = true) (d : DraftTracker) :
    (d.observe (a ++ [0x78])).line = (d.observe a).line := by
  rw [line_observe, line_observe, Scan.steps_append]
  rw [endsAtRest_iff d] at h
  generalize d.scan.steps a = s at h
  obtain ⟨place, pending, recalled, dirt⟩ := s
  cases place with
  | atRest => exact absurd rfl h
  | escape => rfl
  | control params =>
    have hfinal : isFinal 0x78 = true := by decide
    have heffect : Scan.controlEffect params 0x78 = .inert := by
      simp [Scan.controlEffect]
    simp [Scan.step, hfinal, heffect, Scan.finish]
  | single => rfl
  | mouse left => rfl

theorem line_observe_typed (d : DraftTracker) :
    (d.observe [0x78]).line = (d.pending + 1, d.recalled) := rfl

theorem observeAll_append (d : DraftTracker) (ps qs : List (List UInt8)) :
    d.observeAll (ps ++ qs) = (d.observeAll ps).observeAll qs :=
  List.foldl_append

theorem line_observeAll {ps : List (List UInt8)} (h : ∀ p ∈ ps, endsAtRest p = true)
    (d : DraftTracker) (next : List UInt8) :
    (d.observeAll (ps ++ [next])).line = (d.observe (ps.flatten ++ next)).line := by
  induction ps generalizing d with
  | nil => rfl
  | cons p ps ih =>
    have hrest := ih (fun q hq ↦ h q (.tail _ hq)) (d.observe p)
    rw [line_observe_append (h p List.mem_cons_self)] at hrest
    rw [List.flatten_cons, List.append_assoc]
    exact hrest

/-- Reads are like one read, whatever comes next, just if each ends between sequences. -/
theorem sameLine_iff (ps : List (List UInt8)) :
    SameLine ps ↔ ∀ p ∈ ps, endsAtRest p = true := by
  constructor
  · intro h
    induction ps using List.reverseRecOn with
    | nil => simp
    | append_singleton ps p ih =>
      have hbefore : SameLine ps := by
        intro d n next
        have hn := h d (min n ps.length) next
        rw [List.take_append_of_le_length (min_le_right _ _)] at hn
        rwa [← List.take_eq_take_min] at hn
      have hrest := ih hbefore
      intro q hq
      rcases List.mem_append.mp hq with hq | hq
      · exact hrest q hq
      · rw [List.mem_singleton.mp hq]
        by_contra hcut
        -- a typed byte after the cut is seen, and on one read it is not
        have htyped := h .new (ps.length + 1) [0x78]
        rw [List.take_of_length_le (by simp)] at htyped
        have hseen : (DraftTracker.new.observeAll (ps ++ [p] ++ [[0x78]])).line =
            (((DraftTracker.new.observeAll ps).observe p).pending + 1,
              ((DraftTracker.new.observeAll ps).observe p).recalled) := by
          rw [observeAll_append, observeAll_append]
          exact line_observe_typed _
        have hswallowed : (DraftTracker.new.observe ((ps ++ [p]).flatten ++ [0x78])).line =
            ((DraftTracker.new.observeAll ps).observe p).line := by
          rw [List.flatten_append, List.flatten_singleton, List.append_assoc,
            ← line_observeAll hrest, observeAll_append]
          exact line_observe_swallow hcut _
        rw [hseen, hswallowed] at htyped
        exact absurd (congrArg Prod.fst htyped) (Nat.succ_ne_self _)
  · intro h d n next
    exact line_observeAll (fun p hp ↦ h p (List.mem_of_mem_take hp)) d next

/-! ### The log -/

theorem dirt_scan (d : DraftTracker) (bytes : List UInt8) :
    (d.scan.steps bytes).dirt = dirtOf bytes := by
  rw [Scan.dirt_steps]
  exact Option.or_none

theorem dirtOf_append {a : List UInt8} (h : endsAtRest a = true) (b : List UInt8) :
    dirtOf (a ++ b) = (dirtOf b).or (dirtOf a) := by
  rw [dirtOf, Scan.steps_append, Scan.dirt_steps, beq_iff_eq.mp h]
  rfl

theorem logged_append (ps qs : List (List UInt8)) :
    logged (ps ++ qs) = (logged qs).or (logged ps) := by
  induction qs using List.reverseRecOn with
  | nil => simp [logged]
  | append_singleton qs q ih =>
    have hlast : ∀ xs, logged (xs ++ [q]) = ((dirtOf q).map (Dirt.text q)).or (logged xs) := by
      intro xs
      rw [logged, List.foldl_append]
      rfl
    rw [← List.append_assoc, hlast, hlast, ih, Option.or_assoc]

theorem logged_singleton (p : List UInt8) : logged [p] = (dirtOf p).map (Dirt.text p) := by
  simp [logged]

theorem lastDirty_observeAll (d : DraftTracker) (ps : List (List UInt8)) :
    (d.observeAll ps).lastDirty = (logged ps).getD d.lastDirty := by
  induction ps using List.reverseRecOn with
  | nil => rfl
  | append_singleton ps p ih =>
    rw [observeAll_append, logged_append, logged_singleton]
    show ((d.observeAll ps).observe p).lastDirty = _
    rw [observe_eq, Scan.tracker, dirt_scan, ih]
    cases dirtOf p with
    | none => rfl
    | some dirt => rfl

/-- Reads leave some text in the log just if one read does. -/
theorem isSome_logged {ps : List (List UInt8)} (h : ∀ p ∈ ps, endsAtRest p = true)
    (last : List UInt8) :
    (logged (ps ++ [last])).isSome = (logged [(ps ++ [last]).flatten]).isSome := by
  induction ps with
  | nil => simp
  | cons p ps ih =>
    have hrest := ih fun q hq ↦ h q (.tail _ hq)
    have hfirst : logged (p :: ps ++ [last]) = (logged (ps ++ [last])).or (logged [p]) :=
      logged_append [p] (ps ++ [last])
    rw [logged_singleton, Option.isSome_map] at hrest ⊢
    rw [hfirst, Option.isSome_or, hrest, logged_singleton, Option.isSome_map, List.cons_append,
      List.flatten_cons, dirtOf_append (h p List.mem_cons_self), Option.isSome_or]

theorem eq_of_line {d d' : DraftTracker} (hline : d.line = d'.line)
    (hlog : d.lastDirty = d'.lastDirty) : d = d' := by
  obtain ⟨pending, recalled, lastDirty⟩ := d
  obtain ⟨hpending, hrecalled⟩ := Prod.mk.inj hline
  subst hpending hrecalled hlog
  rfl

/-- Reads one after another leave the tracker as one read does, and its line the same whatever
comes next, just if each but the last ends between sequences and the text that goes to the log
is that of the whole. -/
theorem reads_joined_iff (ps : List (List UInt8)) (last : List UInt8) :
    SameLine ps ∧ SameState (ps ++ [last]) ↔
      (∀ p ∈ ps, endsAtRest p = true) ∧
        logged (ps ++ [last]) = logged [(ps ++ [last]).flatten] := by
  rw [sameLine_iff]
  apply and_congr_right
  intro hrest
  have hsome := isSome_logged hrest last
  constructor
  · intro h
    have hlog := congrArg DraftTracker.lastDirty (h .new)
    have hone : DraftTracker.new.observe (ps ++ [last]).flatten =
        DraftTracker.new.observeAll [(ps ++ [last]).flatten] := rfl
    rw [hone, lastDirty_observeAll, lastDirty_observeAll] at hlog
    cases hreads : logged (ps ++ [last]) with
    | none =>
      rw [hreads, Option.isSome_none] at hsome
      exact (Option.isSome_eq_false_iff.mp hsome.symm |> Option.isNone_iff_eq_none.mp).symm
    | some text =>
      rw [hreads, Option.isSome_some] at hsome
      obtain ⟨text', htext'⟩ := Option.isSome_iff_exists.mp hsome.symm
      rw [hreads, htext'] at hlog
      rw [htext']
      exact congrArg some hlog
  · intro hlog d
    apply eq_of_line
    · rw [line_observeAll hrest, List.flatten_append, List.flatten_singleton]
    · have hone : d.observe (ps ++ [last]).flatten = d.observeAll [(ps ++ [last]).flatten] := rfl
      rw [hone, lastDirty_observeAll, lastDirty_observeAll, hlog]

/-- A cursor key cut after its first byte becomes two typed characters. -/
theorem reads_joined_cursor_key : ¬SameState [[esc], [0x5b, 0x43]] := by
  intro h
  have hclean := congrArg DraftTracker.isClean (h .new)
  exact absurd hclean (by decide)

end Claudebase.Supervisor
