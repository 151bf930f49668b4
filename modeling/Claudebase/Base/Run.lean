import Mathlib.Data.List.Basic
import Mathlib.Data.List.Induction

/-!
# Transactions and runs

A transaction either commits a new state or fails and leaves the old one. A run applies one
operation after another; its trace keeps every step, and an invariant that each step keeps
under a condition on that step holds along every trace whose steps meet the condition.
-/

namespace Claudebase.Base

universe u v w

/-! ### Success of composed computations -/

section Outcome

variable {ε : Type u} {α β : Type v}

/-- A sequence succeeds when both parts do. -/
theorem bind_eq_ok {x : Except ε α} {f : α → Except ε β} {b : β} :
    (x >>= f) = .ok b ↔ ∃ a, x = .ok a ∧ f a = .ok b := by
  cases x with
  | error e => simp [bind, Except.bind]
  | ok a => simp [bind, Except.bind]

theorem pure_eq_ok {a b : α} : (pure a : Except ε α) = .ok b ↔ a = b := by
  simp [pure, Except.pure]

/-- A result is read off a success. -/
theorem map_eq_ok {x : Except ε α} {f : α → β} {b : β} :
    x.map f = .ok b ↔ ∃ a, x = .ok a ∧ f a = b := by
  cases x with
  | error e => simp [Except.map]
  | ok a => simp [Except.map]

/-- Go on only when `p` holds. -/
def require (p : Prop) [Decidable p] (e : ε) : Except ε Unit := if p then .ok () else .error e

theorem require_eq_ok {p : Prop} [Decidable p] {e : ε} {a : Unit} :
    require p e = .ok a ↔ p := by
  unfold require
  split
  · next h => simp [h]
  · next h => simp [h]

/-- A requirement that holds changes nothing. -/
theorem require_of_pos {p : Prop} [Decidable p] {e : ε} (h : p) : require p e = .ok () :=
  require_eq_ok.mpr h

/-- Go on with what is there. -/
def okOr (o : Option α) (e : ε) : Except ε α := o.elim (.error e) .ok

theorem okOr_eq_ok {o : Option α} {e : ε} {a : α} : okOr o e = .ok a ↔ o = some a := by
  cases o with
  | none => simp [okOr]
  | some b => simp [okOr]

/-- A list is gone through when each of its items is. -/
theorem exists_mapM_ok {f : α → Except ε β} {xs : List α} :
    (∃ ys, xs.mapM f = .ok ys) ↔ ∀ x ∈ xs, ∃ y, f x = .ok y := by
  induction xs with
  | nil => exact ⟨fun _ x hx ↦ absurd hx List.not_mem_nil, fun _ ↦ ⟨[], List.mapM_nil⟩⟩
  | cons x xs ih =>
    rw [List.forall_mem_cons, ← ih, List.mapM_cons]
    constructor
    · rintro ⟨_, h⟩
      obtain ⟨y, hy, h⟩ := bind_eq_ok.mp h
      obtain ⟨ys, hys, -⟩ := bind_eq_ok.mp h
      exact ⟨⟨y, hy⟩, ys, hys⟩
    · rintro ⟨⟨y, hy⟩, ys, hys⟩
      exact ⟨y :: ys, bind_eq_ok.mpr ⟨y, hy, bind_eq_ok.mpr ⟨ys, hys, rfl⟩⟩⟩

/-- A loop goes through when each of its steps does and leaves what the next one needs. -/
theorem exists_foldlM_ok {γ : Type w} {f : β → γ → Except ε β} {I : β → Prop} {xs : List γ} {s : β}
    (hs : I s) (hstep : ∀ s x, I s → ∃ s', f s x = .ok s' ∧ I s') :
    ∃ s', xs.foldlM f s = .ok s' ∧ I s' := by
  induction xs generalizing s with
  | nil => exact ⟨s, rfl, hs⟩
  | cons x xs ih =>
    obtain ⟨s₁, h₁, hs₁⟩ := hstep s x hs
    obtain ⟨s', h', hs'⟩ := ih hs₁
    exact ⟨s', by rw [List.foldlM_cons]; exact bind_eq_ok.mpr ⟨s₁, h₁, h'⟩, hs'⟩

/-- A loop of steps that each keep a relation keeps it. -/
theorem rel_foldlM {γ : Type w} {f : β → γ → Except ε β} {R : β → β → Prop} (hrefl : ∀ s, R s s)
    (htrans : ∀ a b c, R a b → R b c → R a c) (hstep : ∀ s x s', f s x = .ok s' → R s s')
    {xs : List γ} {s s' : β} (h : xs.foldlM f s = .ok s') : R s s' := by
  induction xs generalizing s with
  | nil =>
    rw [List.foldlM_nil, pure_eq_ok] at h
    exact h ▸ hrefl s
  | cons x xs ih =>
    rw [List.foldlM_cons] at h
    obtain ⟨t, ht, h⟩ := bind_eq_ok.mp h
    exact htrans s t s' (hstep s x t ht) (ih h)

end Outcome

/-- What a transaction answers, and the state after it: a failure rolls back. -/
def transact {ε α σ : Type*} (s : σ) : Except ε (α × σ) → Except ε α × σ
  | .ok (a, s') => (.ok a, s')
  | .error e => (.error e, s)

/-- A failed transaction leaves the state. -/
theorem transact_error {ε α σ : Type*} {s s' : σ} {body : Except ε (α × σ)} {e : ε}
    (h : transact s body = (.error e, s')) : s' = s := by
  cases body with
  | ok r => cases h
  | error e' => cases h; rfl

/-- After a transaction the state is the old one, or the one its body computed. -/
theorem transact_cases {ε α σ : Type*} (s : σ) (body : Except ε (α × σ)) :
    (transact s body).2 = s ∨ ∃ a, body = .ok (a, (transact s body).2) := by
  cases body with
  | ok r => exact Or.inr ⟨r.1, rfl⟩
  | error e => exact Or.inl rfl

/-! ### Runs -/

section Run

variable {σ : Type u} {ο : Type v} {next : σ → ο → σ}

/-- One step of a run. -/
structure Step (σ : Type u) (ο : Type v) where
  before : σ
  op : ο
  after : σ

/-- The state after a run. -/
def run (next : σ → ο → σ) (s : σ) (ops : List ο) : σ := ops.foldl next s

/-- The steps of a run. -/
def trace (next : σ → ο → σ) : σ → List ο → List (Step σ ο)
  | _, [] => []
  | s, o :: ops => ⟨s, o, next s o⟩ :: trace next (next s o) ops

@[simp] theorem run_concat {s : σ} {ops : List ο} {o : ο} :
    run next s (ops ++ [o]) = next (run next s ops) o := by
  simp [run]

/-- A run goes on where the one before it ended. -/
theorem run_append {s : σ} {ops ops' : List ο} :
    run next s (ops ++ ops') = run next (run next s ops) ops' := by
  simp [run]

/-- The last step of a longer run. -/
theorem trace_concat {s : σ} {ops : List ο} {o : ο} :
    trace next s (ops ++ [o]) =
      trace next s ops ++ [⟨run next s ops, o, next (run next s ops) o⟩] := by
  induction ops generalizing s with
  | nil => rfl
  | cons o' ops ih =>
    rw [List.cons_append, trace, ih]
    rfl

/-- The steps of a run are those of its first part and those after it. -/
theorem trace_append {s : σ} (ops ops' : List ο) :
    trace next s (ops ++ ops') = trace next s ops ++ trace next (run next s ops) ops' := by
  induction ops generalizing s with
  | nil => rfl
  | cons o ops ih =>
    rw [List.cons_append, trace, trace, ih, List.cons_append]
    rfl

/-- Where in a run a step is. -/
theorem exists_of_mem_trace {s : σ} {ops : List ο} {t : Step σ ο} (h : t ∈ trace next s ops) :
    ∃ first rest, ops = first ++ t.op :: rest ∧ t.before = run next s first := by
  induction ops generalizing s with
  | nil => cases h
  | cons o ops ih =>
    rcases List.mem_cons.mp h with rfl | h
    · exact ⟨[], ops, rfl, rfl⟩
    · obtain ⟨first, rest, hops, hbefore⟩ := ih h
      exact ⟨o :: first, rest, congrArg (o :: ·) hops, hbefore⟩

/-- The step that follows the start of a run. -/
theorem mem_trace_append {s : σ} (ops : List ο) (o : ο) (ops' : List ο) :
    ⟨run next s ops, o, next (run next s ops) o⟩ ∈ trace next s (ops ++ o :: ops') := by
  induction ops generalizing s with
  | nil => exact List.mem_cons_self
  | cons o' ops ih => exact List.mem_cons_of_mem _ ih

/-- A step of a trace is a step of the system. -/
theorem after_of_mem_trace {s : σ} {ops : List ο} {t : Step σ ο} (h : t ∈ trace next s ops) :
    t.after = next t.before t.op := by
  induction ops generalizing s with
  | nil => cases h
  | cons o ops ih =>
    rcases List.mem_cons.mp h with rfl | h
    · rfl
    · exact ih h

/-- An invariant that every step of a trace keeps holds before and after each of them. -/
theorem invariant_of_trace {I : σ → Prop} {s : σ} {ops : List ο} (hs : I s)
    (hstep : ∀ t ∈ trace next s ops, I t.before → I t.after) :
    ∀ t ∈ trace next s ops, I t.before ∧ I t.after := by
  induction ops generalizing s with
  | nil => exact fun t ht ↦ by cases ht
  | cons o ops ih =>
    have hnext : I (next s o) := hstep ⟨s, o, next s o⟩ List.mem_cons_self hs
    intro t ht
    rcases List.mem_cons.mp ht with rfl | ht
    · exact ⟨hs, hnext⟩
    · exact ih hnext (fun t ht ↦ hstep t (List.mem_cons_of_mem _ ht)) t ht

/-- An invariant that every step of a trace keeps holds at the end of the run. -/
theorem invariant_of_run {I : σ → Prop} {s : σ} {ops : List ο} (hs : I s)
    (hstep : ∀ t ∈ trace next s ops, I t.before → I t.after) : I (run next s ops) := by
  induction ops generalizing s with
  | nil => exact hs
  | cons o ops ih =>
    have hnext : I (next s o) := hstep ⟨s, o, next s o⟩ List.mem_cons_self hs
    exact ih hnext fun t ht ↦ hstep t (List.mem_cons_of_mem _ ht)

/-- Where a step keeps an invariant exactly when it meets a condition, given what every step
keeps, a run keeps it throughout exactly when all its steps meet the condition. -/
theorem forall_trace_iff_of_invariant {I J : σ → Prop} {P : σ → ο → Prop} {s : σ} {ops : List ο}
    (hI : I s) (hJ : J s) (hkeep : ∀ s o, J s → J (next s o))
    (hstep : ∀ s o, J s → I s → (I (next s o) ↔ P s o)) :
    (∀ t ∈ trace next s ops, I t.after) ↔ ∀ t ∈ trace next s ops, P t.before t.op := by
  induction ops generalizing s with
  | nil => simp [trace]
  | cons o ops ih =>
    rw [trace, List.forall_mem_cons, List.forall_mem_cons]
    constructor
    · rintro ⟨hnext, hrest⟩
      exact ⟨(hstep s o hJ hI).mp hnext, (ih hnext (hkeep s o hJ)).mp hrest⟩
    · rintro ⟨hsafe, hrest⟩
      have hnext : I (next s o) := (hstep s o hJ hI).mpr hsafe
      exact ⟨hnext, (ih hnext (hkeep s o hJ)).mpr hrest⟩

/-- The same where nothing else is known of the states. -/
theorem forall_trace_iff {I : σ → Prop} {P : σ → ο → Prop} {s : σ} {ops : List ο} (hs : I s)
    (hstep : ∀ s o, I s → (I (next s o) ↔ P s o)) :
    (∀ t ∈ trace next s ops, I t.after) ↔ ∀ t ∈ trace next s ops, P t.before t.op :=
  @forall_trace_iff_of_invariant σ ο next I (fun _ ↦ True) P s ops hs trivial
    (fun _ _ _ ↦ trivial) fun s o _ h ↦ hstep s o h

/-- Every operation of a run has its step. -/
theorem exists_step {s : σ} {ops : List ο} {o : ο} (h : o ∈ ops) :
    ∃ t ∈ trace next s ops, t.op = o := by
  induction ops generalizing s with
  | nil => cases h
  | cons o' ops ih =>
    rcases List.mem_cons.mp h with rfl | h
    · exact ⟨_, List.mem_cons_self, rfl⟩
    · obtain ⟨t, ht, hop⟩ := ih h
      exact ⟨t, List.mem_cons_of_mem _ ht, hop⟩

/-- What has come to hold in a run came to hold in one of its steps. -/
theorem exists_step_of_run {P : σ → Prop} {s : σ} {ops : List ο} (hs : ¬ P s)
    (h : P (run next s ops)) : ∃ t ∈ trace next s ops, ¬ P t.before ∧ P t.after := by
  induction ops generalizing s with
  | nil => exact absurd h hs
  | cons o ops ih =>
    by_cases hnext : P (next s o)
    · exact ⟨_, List.mem_cons_self, hs, hnext⟩
    · obtain ⟨t, ht, hstep⟩ := ih hnext h
      exact ⟨t, List.mem_cons_of_mem _ ht, hstep⟩

/-- The operation of a step is one of the run's. -/
theorem op_mem_of_mem_trace {s : σ} {ops : List ο} {t : Step σ ο} (h : t ∈ trace next s ops) :
    t.op ∈ ops := by
  induction ops generalizing s with
  | nil => cases h
  | cons o ops ih =>
    rcases List.mem_cons.mp h with rfl | h
    · exact List.mem_cons_self
    · exact List.mem_cons_of_mem _ (ih h)

/-- A preorder that every step respects relates the start of a run to its end. -/
theorem rel_run {R : σ → σ → Prop} (hrefl : ∀ s, R s s) (htrans : ∀ a b c, R a b → R b c → R a c)
    (hstep : ∀ s o, R s (next s o)) (s : σ) (ops : List ο) : R s (run next s ops) := by
  induction ops generalizing s with
  | nil => exact hrefl s
  | cons o ops ih => exact htrans _ _ _ (hstep s o) (ih (next s o))

/-- A preorder that every step respects relates what a step leaves to the end of the run. -/
theorem rel_of_mem_trace {R : σ → σ → Prop} (hrefl : ∀ s, R s s)
    (htrans : ∀ a b c, R a b → R b c → R a c) (hstep : ∀ s o, R s (next s o)) {s : σ}
    {ops : List ο} {t : Step σ ο} (h : t ∈ trace next s ops) : R t.after (run next s ops) := by
  induction ops generalizing s with
  | nil => cases h
  | cons o ops ih =>
    rcases List.mem_cons.mp h with rfl | h
    · exact rel_run hrefl htrans hstep (next s o) ops
    · exact ih h

end Run

/-!
## The latest of some operations

What a run leaves of a part of the state is what the latest operation that sets that part left, and
what it has put in a log was put there by one of its operations.
-/

variable {α : Type u}

/-- A list and one more element, cut at an element. -/
theorem concat_eq_append_cons {xs before later : List α} {o x : α} :
    xs ++ [o] = before ++ x :: later ↔
      (later = [] ∧ xs = before ∧ o = x) ∨
        ∃ rest, later = rest ++ [o] ∧ xs = before ++ x :: rest := by
  constructor
  · intro h
    rcases List.eq_nil_or_concat later with rfl | ⟨rest, y, rfl⟩
    · obtain ⟨hxs, hx⟩ := List.append_inj' h rfl
      exact Or.inl ⟨rfl, hxs, by simpa using hx⟩
    · right
      rw [List.concat_eq_append, ← List.cons_append, ← List.append_assoc] at h
      obtain ⟨hxs, hy⟩ := List.append_inj' h rfl
      have hy : o = y := by simpa using hy
      subst hy
      exact ⟨rest, List.concat_eq_append, hxs⟩
  · rintro (⟨rfl, rfl, rfl⟩ | ⟨rest, rfl, rfl⟩)
    · rfl
    · simp

variable {σ : Type u} {ο : Type v} {ν : Type w} {next : σ → ο → σ} {s : σ} {ops : List ο}

/-- A part of the state is as the latest operation left it that sets it. -/
theorem latest_iff (value : σ → ν) (sets : ο → Bool)
    (hkeep : ∀ s o, sets o = false → value (next s o) = value s) {v : ν} :
    value (run next s ops) = v ↔
      (∃ before o later, ops = before ++ o :: later ∧ sets o = true ∧
        (∀ x ∈ later, sets x = false) ∧ value (next (run next s before) o) = v) ∨
      ((∀ x ∈ ops, sets x = false) ∧ value s = v) := by
  induction ops using List.reverseRecOn with
  | nil => simp [run]
  | append_singleton ops o ih =>
    rw [run_concat]
    cases ho : sets o with
    | true =>
      constructor
      · exact fun hv ↦ Or.inl ⟨ops, o, [], rfl, ho, by simp, hv⟩
      · rintro (⟨before, x, later, heq, hx, hlater, hv⟩ | ⟨hnone, -⟩)
        · rcases concat_eq_append_cons.mp heq with ⟨-, rfl, rfl⟩ | ⟨rest, rfl, -⟩
          · exact hv
          · have hno := hlater o (by simp)
            rw [ho] at hno
            cases hno
        · have hno := hnone o (by simp)
          rw [ho] at hno
          cases hno
    | false =>
      rw [hkeep _ o ho, ih]
      constructor
      · rintro (⟨before, x, later, rfl, hx, hlater, hv⟩ | ⟨hnone, hv⟩)
        · refine Or.inl ⟨before, x, later ++ [o], by simp, hx, ?_, hv⟩
          intro y hy
          rcases List.mem_append.mp hy with hy | hy
          · exact hlater y hy
          · rw [List.mem_singleton.mp hy]
            exact ho
        · right
          refine ⟨fun x hx ↦ ?_, hv⟩
          rcases List.mem_append.mp hx with hx | hx
          · exact hnone x hx
          · rw [List.mem_singleton.mp hx]
            exact ho
      · rintro (⟨before, x, later, heq, hx, hlater, hv⟩ | ⟨hnone, hv⟩)
        · rcases concat_eq_append_cons.mp heq with ⟨-, -, rfl⟩ | ⟨rest, rfl, rfl⟩
          · rw [ho] at hx
            cases hx
          · exact Or.inl ⟨before, x, rest, rfl, hx,
              fun y hy ↦ hlater y (List.mem_append_left _ hy), hv⟩
        · exact Or.inr ⟨fun x hx ↦ hnone x (List.mem_append_left _ hx), hv⟩

/-- What is in a log was there, or an operation of the run has put it there. -/
theorem mem_log_iff {ε : Type w} (log : σ → List ε) (adds : σ → ο → List ε)
    (hadds : ∀ s o, log (next s o) = log s ++ adds s o) {e : ε} :
    e ∈ log (run next s ops) ↔ e ∈ log s ∨
      ∃ before o later, ops = before ++ o :: later ∧ e ∈ adds (run next s before) o := by
  induction ops using List.reverseRecOn with
  | nil => simp [run]
  | append_singleton ops o ih =>
    rw [run_concat, hadds, List.mem_append, ih]
    constructor
    · rintro ((h | ⟨before, x, later, rfl, hx⟩) | h)
      · exact Or.inl h
      · exact Or.inr ⟨before, x, later ++ [o], by simp, hx⟩
      · exact Or.inr ⟨ops, o, [], rfl, h⟩
    · rintro (h | ⟨before, x, later, heq, hx⟩)
      · exact Or.inl (Or.inl h)
      · rcases concat_eq_append_cons.mp heq with ⟨-, rfl, rfl⟩ | ⟨rest, -, rfl⟩
        · exact Or.inr hx
        · exact Or.inl (Or.inr ⟨before, x, rest, rfl, hx⟩)

end Claudebase.Base
