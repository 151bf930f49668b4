import Mathlib.Data.List.DropRight
import Mathlib.Data.List.Infix

/-!
# Trees of files

What is at each path: a file, a folder or nothing. Whatever has something below it is a folder, and
the operations keep that. One that fails can leave part of its work: some of the folders it was
to make, or what it had not removed yet.
-/

namespace Claudebase.Base

universe u

/-- The names from the root on. -/
abbrev TreePath := List String

/-- What is at a path. -/
inductive Node (α : Type u) where
  | file (data : List α)
  | dir
  deriving DecidableEq, Repr

/-- What is at each path; only a folder has something below it. -/
structure FileTree (α : Type u) where
  node : TreePath → Option (Node α)
  closed : ∀ {p q : TreePath}, q <+: p → q ≠ p → node p ≠ none → node q = some .dir

/-- A proper prefix is one of the path without its last name. -/
theorem prefix_dropLast {p q : TreePath} (h : q <+: p) (hne : q ≠ p) : q <+: p.dropLast := by
  obtain ⟨r, rfl⟩ := h
  have hr : r ≠ [] := by
    rintro rfl
    simp at hne
  rw [List.dropLast_append_of_ne_nil hr]
  exact List.prefix_append q _

/-- Two paths to one place. -/
theorem comparable {p q r : TreePath} (hp : p <+: r) (hq : q <+: r) : p <+: q ∨ q <+: p :=
  List.prefix_or_prefix_of_prefix hp hq

namespace FileTree

variable {α : Type u}

/-- Nothing anywhere. -/
def empty : FileTree α := ⟨fun _ ↦ none, fun _ _ h ↦ absurd rfl h⟩

/-- There is a file at `p`. -/
def IsFile (t : FileTree α) (p : TreePath) : Prop := ∃ d, t.node p = some (.file d)

instance (t : FileTree α) (p : TreePath) : Decidable (t.IsFile p) :=
  match h : t.node p with
  | some (.file d) => isTrue ⟨d, h⟩
  | some .dir => isFalse (by rintro ⟨d, hd⟩; rw [h] at hd; cases hd)
  | none => isFalse (by rintro ⟨d, hd⟩; rw [h] at hd; cases hd)

instance (t : FileTree α) (p : TreePath) : Decidable (t.node p = some .dir) :=
  match h : t.node p with
  | some (.file d) => isFalse (by simp)
  | some .dir => isTrue rfl
  | none => isFalse (by simp)

variable {t t' : FileTree α} {p q : TreePath}

/-- Below nothing there is nothing. -/
theorem none_below (h : t.node p = none) (hq : p <+: q) : t.node q = none := by
  by_cases heq : p = q
  · exact heq ▸ h
  · by_contra hnode
    rw [t.closed hq heq hnode] at h
    cases h

/-- Below a file there is nothing. -/
theorem IsFile.none_below (h : t.IsFile p) (hq : p <+: q) (hne : p ≠ q) : t.node q = none := by
  obtain ⟨d, hd⟩ := h
  by_contra hnode
  rw [t.closed hq hne hnode] at hd
  cases hd

/-! ### Operations -/

/-- The folders on the way to `p` that have at most `k` names, where no file is in the way. -/
def makeDirs (t : FileTree α) (p : TreePath) (k : Nat) : Option (FileTree α) :=
  if ∀ q ∈ p.inits, ¬ t.IsFile q then
    some {
      node := fun q ↦ if q <+: p ∧ q.length ≤ k then some .dir else t.node q
      closed := by
        intro q r hr hne hq
        by_cases hrp : r <+: p ∧ r.length ≤ k
        · rw [if_pos hrp]
        · rw [if_neg hrp]
          by_cases hqp : q <+: p ∧ q.length ≤ k
          · exact absurd ⟨hr.trans hqp.1, hr.length_le.trans hqp.2⟩ hrp
          · rw [if_neg hqp] at hq
            exact t.closed hr hne hq }
  else none

/-- A new file in a folder. -/
def create (t : FileTree α) (p : TreePath) (d : List α) : Option (FileTree α) :=
  if h : t.node p = none ∧ t.node p.dropLast = some .dir then
    some {
      node := Function.update t.node p (some (.file d))
      closed := by
        intro q r hr hne hq
        have hrp : r ≠ p := by
          rintro rfl
          rw [Function.update_of_ne hne.symm] at hq
          exact hq (none_below h.1 hr)
        rw [Function.update_of_ne hrp]
        by_cases hqp : q = p
        · subst hqp
          by_cases hlast : r = q.dropLast
          · rw [hlast, h.2]
          · exact t.closed (prefix_dropLast hr hne) hlast (by simp [h.2])
        · rw [Function.update_of_ne hqp] at hq
          exact t.closed hr hne hq }
  else none

/-- What a file holds. -/
def write (t : FileTree α) (p : TreePath) (d : List α) : Option (FileTree α) :=
  if h : t.IsFile p then
    some {
      node := Function.update t.node p (some (.file d))
      closed := by
        intro q r hr hne hq
        have hrp : r ≠ p := by
          rintro rfl
          rw [Function.update_of_ne hne.symm] at hq
          exact hq (h.none_below hr hne)
        rw [Function.update_of_ne hrp]
        by_cases hqp : q = p
        · subst hqp
          obtain ⟨d', hd'⟩ := h
          exact t.closed hr hne (by simp [hd'])
        · rw [Function.update_of_ne hqp] at hq
          exact t.closed hr hne hq }
  else none

/-- A file can take the place of a file, and a folder that of an empty one. -/
def Replaces (t : FileTree α) (names : List String) (a b : TreePath) : Prop :=
  t.node b = none ∨ t.IsFile a ∧ t.IsFile b ∨
    t.node a = some .dir ∧ t.node b = some .dir ∧ names = []

instance (t : FileTree α) (names : List String) (a b : TreePath) :
    Decidable (t.Replaces names a b) := inferInstanceAs (Decidable (_ ∨ _))

/-- What is at `a`, and below it, goes to `b`, whose names are `names`; never below itself. -/
def rename (t : FileTree α) (names : List String) (a b : TreePath) :
    Option (FileTree α) :=
  if h : t.node a ≠ none ∧ ¬ a <+: b ∧ t.node b.dropLast = some .dir ∧ t.Replaces names a b then
    some {
      node := fun q ↦
        if b <+: q then t.node (a ++ q.drop b.length) else if a <+: q then none else t.node q
      closed := by
        intro q r hr hne hq
        by_cases hbr : b <+: r
        · obtain ⟨x, rfl⟩ := hbr
          obtain ⟨y, rfl⟩ := hr
          have hbq : b <+: b ++ x ++ y := ⟨x ++ y, by rw [List.append_assoc]⟩
          rw [if_pos hbq] at hq
          rw [if_pos (List.prefix_append b x), List.drop_left]
          rw [List.append_assoc, List.drop_left, ← List.append_assoc] at hq
          refine t.closed (List.prefix_append (a ++ x) y) ?_ hq
          simpa using hne
        · rw [if_neg hbr]
          by_cases hbq : b <+: q
          · -- `r` is on the way to `b`
            have hrb : r <+: b := (comparable hr hbq).resolve_right hbr
            have hrne : r ≠ b := by
              rintro rfl
              exact hbr (List.prefix_refl r)
            rw [if_neg fun har ↦ h.2.1 (har.trans hrb)]
            by_cases hlast : r = b.dropLast
            · rw [hlast, h.2.2.1]
            · exact t.closed (prefix_dropLast hrb hrne) hlast (by simp [h.2.2.1])
          · rw [if_neg hbq] at hq
            by_cases haq : a <+: q
            · rw [if_pos haq] at hq
              exact absurd rfl hq
            · rw [if_neg haq] at hq
              rw [if_neg fun har ↦ haq (har.trans hr)]
              exact t.closed hr hne hq }
  else none

/-- What is at `p` and below it, where `gone` says so; with a folder goes what is below it. -/
def remove (t : FileTree α) (p : TreePath) (gone : TreePath → Bool) : FileTree α where
  node q := if p <+: q ∧ ∃ r ∈ q.inits, p <+: r ∧ gone r = true then none else t.node q
  closed := by
    intro q r hr hne hq
    by_cases hgone : p <+: q ∧ ∃ r ∈ q.inits, p <+: r ∧ gone r = true
    · rw [if_pos hgone] at hq
      exact absurd rfl hq
    · rw [if_neg hgone] at hq
      rw [if_neg]
      · exact t.closed hr hne hq
      · rintro ⟨hpr, s, hs, hrest⟩
        rw [List.mem_inits] at hs
        exact hgone ⟨hpr.trans hr, s, (List.mem_inits s q).mpr (hs.trans hr), hrest⟩

/-- A folder and all below it. -/
def removeTree (t : FileTree α) (p : TreePath) : Option (FileTree α) :=
  if t.node p = some .dir then some (t.remove p fun _ ↦ true) else none

/-- A file. -/
def removeFile (t : FileTree α) (p : TreePath) : Option (FileTree α) :=
  if t.IsFile p then some (t.remove p fun _ ↦ true) else none

/-! ### What an operation leaves -/

theorem node_makeDirs {k : Nat} (h : t.makeDirs p k = some t') (q : TreePath) :
    t'.node q = if q <+: p ∧ q.length ≤ k then some .dir else t.node q := by
  unfold makeDirs at h
  split at h
  · cases h
    rfl
  · cases h

/-- Where no file is in the way the folders are made. -/
theorem exists_makeDirs (h : ∀ q, q <+: p → ¬ t.IsFile q) (k : Nat) :
    ∃ t', t.makeDirs p k = some t' := by
  unfold makeDirs
  rw [if_pos fun q hq ↦ h q ((List.mem_inits q p).mp hq)]
  exact ⟨_, rfl⟩

/-- Where a folder is made there was one, or nothing. -/
theorem not_isFile_of_makeDirs {k : Nat} (h : t.makeDirs p k = some t') (hq : q <+: p) :
    ¬ t.IsFile q := by
  unfold makeDirs at h
  split at h
  · next hclear => exact hclear q ((List.mem_inits q p).mpr hq)
  · cases h

theorem create_eq_some {d : List α} (h : t.create p d = some t') :
    t.node p = none ∧ t.node p.dropLast = some .dir ∧
      t'.node = Function.update t.node p (some (.file d)) := by
  unfold create at h
  split at h
  · next hfree =>
    cases h
    exact ⟨hfree.1, hfree.2, rfl⟩
  · cases h

theorem exists_create (h : t.node p = none) (hparent : t.node p.dropLast = some .dir)
    (d : List α) : ∃ t', t.create p d = some t' := by
  unfold create
  rw [dif_pos ⟨h, hparent⟩]
  exact ⟨_, rfl⟩

theorem write_eq_some {d : List α} (h : t.write p d = some t') :
    t.IsFile p ∧ t'.node = Function.update t.node p (some (.file d)) := by
  unfold write at h
  split at h
  · next hfile =>
    cases h
    exact ⟨hfile, rfl⟩
  · cases h

theorem exists_write (h : t.IsFile p) (d : List α) : ∃ t', t.write p d = some t' := by
  unfold write
  rw [dif_pos h]
  exact ⟨_, rfl⟩

theorem rename_eq_some {names : List String} {a b : TreePath}
    (h : t.rename names a b = some t') :
    ¬ a <+: b ∧ t.Replaces names a b ∧ ∀ q, t'.node q =
      if b <+: q then t.node (a ++ q.drop b.length) else if a <+: q then none else t.node q := by
  unfold rename at h
  split at h
  · next hmove =>
    cases h
    exact ⟨hmove.2.1, hmove.2.2.2, fun q ↦ rfl⟩
  · cases h

theorem exists_rename {names : List String} {a b : TreePath} (ha : t.node a ≠ none)
    (hab : ¬ a <+: b) (hparent : t.node b.dropLast = some .dir) (hb : t.node b = none) :
    ∃ t', t.rename names a b = some t' := by
  unfold rename
  rw [dif_pos ⟨ha, hab, hparent, .inl hb⟩]
  exact ⟨_, rfl⟩

/-- What is renamed is gone from where it was. -/
theorem node_old_of_rename {names : List String} {a b : TreePath}
    (h : t.rename names a b = some t') (hba : ¬ b <+: a) : t'.node a = none := by
  rw [(rename_eq_some h).2.2, if_neg hba, if_pos (List.prefix_refl a)]

theorem node_remove (gone : TreePath → Bool) (q : TreePath) :
    (t.remove p gone).node q = none ∨ (t.remove p gone).node q = t.node q := by
  unfold remove
  dsimp only
  split
  · exact .inl rfl
  · exact .inr rfl

theorem node_remove_of_not_below (gone : TreePath → Bool) (h : ¬ p <+: q) :
    (t.remove p gone).node q = t.node q := by
  unfold remove
  dsimp only
  rw [if_neg fun hq ↦ h hq.1]

/-- Nothing is left of what is removed whole. -/
theorem node_remove_all : (t.remove p fun _ ↦ true).node p = none := by
  unfold remove
  dsimp only
  rw [if_pos]
  exact ⟨List.prefix_refl p, p, (List.mem_inits p p).mpr (List.prefix_refl p), List.prefix_refl p,
    rfl⟩

theorem removeTree_eq_some (h : t.removeTree p = some t') :
    t' = t.remove p fun _ ↦ true := by
  unfold removeTree at h
  split at h
  · cases h
    rfl
  · cases h

theorem removeFile_eq_some (h : t.removeFile p = some t') :
    t' = t.remove p fun _ ↦ true := by
  unfold removeFile at h
  split at h
  · cases h
    rfl
  · cases h

end FileTree

end Claudebase.Base
