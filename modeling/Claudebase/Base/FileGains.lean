import Claudebase.Base.FileIo

/-!
# Files put into a tree

A file is put where nothing is, with the folders it is in; many are when none of them is at or
below another's place. What a tree holds after it follows from the files alone. A folder that is
renamed keeps what is below it.
-/

namespace Claudebase.Base

universe u

variable {α : Type u} {p q r : TreePath}

/-- Neither path leads to the other. -/
def Incomparable (p q : TreePath) : Prop := ¬ p <+: q ∧ ¬ q <+: p

theorem Incomparable.symm (h : Incomparable p q) : Incomparable q p := ⟨h.2, h.1⟩

/-- What is below one is not above the other. -/
theorem Incomparable.append (h : Incomparable p q) (r s : TreePath) :
    Incomparable (p ++ r) (q ++ s) := by
  constructor
  · intro hpre
    have hp : p <+: q ++ s := (List.prefix_append p r).trans hpre
    exact (comparable hp (List.prefix_append q s)).elim h.1 h.2
  · intro hpre
    have hq : q <+: p ++ r := (List.prefix_append q s).trans hpre
    exact (comparable hq (List.prefix_append p r)).elim h.2 h.1

theorem Incomparable.append_left (h : Incomparable p q) (r : TreePath) :
    Incomparable (p ++ r) q := by
  simpa using h.append r []

/-- Paths below one folder. -/
theorem incomparable_append_iff : Incomparable (r ++ p) (r ++ q) ↔ Incomparable p q := by
  unfold Incomparable
  rw [List.prefix_append_right_inj, List.prefix_append_right_inj]

/-- Two names. -/
theorem incomparable_cons {a b : String} (h : a ≠ b) : Incomparable (a :: p) (b :: q) := by
  constructor
  · intro hpre
    exact h (List.cons_prefix_cons.mp hpre).1
  · intro hpre
    exact h (List.cons_prefix_cons.mp hpre).1.symm

/-- Files of which none is at or below another's place. -/
def Separate (files : List (TreePath × List α)) : Prop :=
  files.Pairwise fun f g ↦ Incomparable f.1 g.1

/-- What a file below a folder holds, where the files are changed by their paths in it. -/
theorem lookup_below (r p : TreePath) (g : TreePath → List α → List α)
    (files : List (TreePath × List α)) :
    (files.map fun f ↦ (r ++ f.1, g f.1 f.2)).lookup (r ++ p) = (files.lookup p).map (g p) := by
  induction files with
  | nil => rfl
  | cons f files ih =>
    rw [List.map_cons, List.lookup_cons, List.lookup_cons, ih]
    by_cases hpf : p = f.1
    · subst hpf
      simp
    · have hne : r ++ p ≠ r ++ f.1 := fun he ↦ hpf (List.append_cancel_left he)
      rw [beq_false_of_ne hne, beq_false_of_ne hpf]

/-- Where no file is there is none. -/
theorem lookup_of_not_prefix {files : List (TreePath × List α)}
    (h : ∀ f ∈ files, ¬ p <+: f.1) : files.lookup p = none := by
  rw [List.lookup_eq_none_iff]
  intro f hf
  rw [bne_iff_ne]
  exact fun he ↦ h f hf (he ▸ List.prefix_refl _)

namespace FileTree

variable {t t' t₁ : FileTree α} {d : List α} {files : List (TreePath × List α)}

/-- What the file at a path holds. -/
def fileAt (t : FileTree α) (p : TreePath) : Option (List α) :=
  match t.node p with
  | some (.file d) => some d
  | _ => none

/-- Nothing is there, and no file is in the way. -/
structure Room (t : FileTree α) (p : TreePath) : Prop where
  free : t.node p = none
  way : ∀ q, q <+: p → ¬ t.IsFile q

/-- Below a free place whose folder can be made there is room. -/
theorem Room.append (h : t.Room p) (r : TreePath) : t.Room (p ++ r) where
  free := none_below h.free (List.prefix_append p r)
  way q hq := by
    rcases comparable hq (List.prefix_append p r) with hqp | hpq
    · exact h.way q hqp
    · rintro ⟨d, hd⟩
      rw [none_below h.free hpq] at hd
      cases hd

/-- In a folder that is there. -/
theorem room_of_dir {name : String} (hfree : t.node (p ++ [name]) = none)
    (hdir : t.node p = some .dir) : t.Room (p ++ [name]) where
  free := hfree
  way q hq := by
    rintro ⟨d, hd⟩
    by_cases heq : q = p ++ [name]
    · rw [heq, hfree] at hd
      cases hd
    · have hqp : q <+: p := by simpa using prefix_dropLast hq heq
      by_cases hqe : q = p
      · rw [hqe, hdir] at hd
        cases hd
      · have hq := t.closed hqp hqe (by rw [hdir]; exact Option.some_ne_none _)
        rw [hq] at hd
        cases hd

/-- A tree with one more file, in its folders. -/
def Gains (t t' : FileTree α) (p : TreePath) (d : List α) : Prop :=
  ∀ q, t'.node q = if q = p then some (.file d) else if q <+: p then some .dir else t.node q

/-- A tree with some more files, each in its folders. -/
def GainsAll (t t' : FileTree α) (files : List (TreePath × List α)) : Prop :=
  ∀ q, t'.node q =
    match files.lookup q with
    | some d => some (.file d)
    | none => if ∃ f ∈ files, q <+: f.1 then some .dir else t.node q

theorem GainsAll.nil (t : FileTree α) : t.GainsAll t [] := by
  intro q
  simp

/-- A file in a folder that is there. -/
theorem exists_gains_of_dir (hfree : t.node p = none) (hdir : t.node p.dropLast = some .dir)
    (d : List α) : ∃ t₁ t', t.create p [] = some t₁ ∧ t₁.write p d = some t' ∧ t.Gains t' p d := by
  obtain ⟨t₁, h₁⟩ := exists_create hfree hdir []
  obtain ⟨-, -, hnode₁⟩ := create_eq_some h₁
  have hfile : t₁.IsFile p := ⟨[], by rw [hnode₁, Function.update_self]⟩
  obtain ⟨t', h'⟩ := exists_write hfile d
  obtain ⟨-, hnode'⟩ := write_eq_some h'
  refine ⟨t₁, t', h₁, h', fun q ↦ ?_⟩
  rw [hnode', hnode₁, Function.update_idem]
  by_cases hqp : q = p
  · rw [hqp, Function.update_self, if_pos rfl]
  · rw [Function.update_of_ne hqp, if_neg hqp]
    split
    · next hpre =>
      have hlast := prefix_dropLast hpre hqp
      by_cases heq : q = p.dropLast
      · rw [heq, hdir]
      · exact t.closed hlast heq (by rw [hdir]; exact Option.some_ne_none _)
    · rfl

/-- A file and its folders. -/
theorem exists_gains (h : t.Room p) (hp : p ≠ []) (d : List α) :
    ∃ t₁ t₂ t', t.makeDirs p.dropLast p.dropLast.length = some t₁ ∧ t₁.create p [] = some t₂ ∧
      t₂.write p d = some t' ∧ t.Gains t' p d := by
  obtain ⟨t₁, h₁⟩ := exists_makeDirs (fun q hq ↦ h.way q (hq.trans (List.dropLast_prefix p)))
    p.dropLast.length
  have hnode₁ := node_makeDirs h₁
  have hnot : ¬ p <+: p.dropLast := by
    intro hpre
    have hlength := hpre.length_le
    have hpos := List.length_pos_of_ne_nil hp
    rw [List.length_dropLast] at hlength
    omega
  have hfree : t₁.node p = none := by
    rw [hnode₁, if_neg fun hpre ↦ hnot hpre.1]
    exact h.free
  have hdir : t₁.node p.dropLast = some .dir := by
    rw [hnode₁, if_pos ⟨List.prefix_refl _, le_refl _⟩]
  obtain ⟨t₂, t', h₂, h', hgains⟩ := exists_gains_of_dir hfree hdir d
  refine ⟨t₁, t₂, t', h₁, h₂, h', fun q ↦ ?_⟩
  rw [hgains q]
  by_cases hqp : q = p
  · rw [if_pos hqp, if_pos hqp]
  · rw [if_neg hqp, if_neg hqp]
    split
    · rfl
    · next hpre =>
      rw [hnode₁, if_neg fun hlast ↦ hpre (hlast.1.trans (List.dropLast_prefix p))]

/-- A file leaves room elsewhere. -/
theorem Gains.room (h : t.Gains t' p d) (hroom : t.Room q) (hpq : Incomparable p q) :
    t'.Room q where
  free := by
    have hne : q ≠ p := fun he ↦ hpq.1 (he ▸ List.prefix_refl _)
    rw [h q, if_neg hne, if_neg hpq.2]
    exact hroom.free
  way r hr := by
    rintro ⟨e, he⟩
    have hne : r ≠ p := fun heq ↦ hpq.1 (heq ▸ hr)
    rw [h r, if_neg hne] at he
    split at he
    · cases he
    · exact hroom.way r hr ⟨e, he⟩

/-- A folder stays one. -/
theorem Gains.dir (h : t.Gains t' p d) (hfree : t.node p = none) (hdir : t.node q = some .dir) :
    t'.node q = some .dir := by
  have hne : q ≠ p := by
    rintro rfl
    cases hfree.symm.trans hdir
  rw [h q, if_neg hne, hdir, ite_self]

/-- One file and then others. -/
theorem Gains.cons {f : TreePath × List α} (h : t.Gains t₁ f.1 f.2) (h' : t₁.GainsAll t' files)
    (hseparate : Separate (f :: files)) : t.GainsAll t' (f :: files) := by
  obtain ⟨hapart, -⟩ := List.pairwise_cons.mp hseparate
  intro q
  rw [h' q, List.lookup_cons]
  by_cases hqf : q = f.1
  · subst hqf
    have hnone : files.lookup f.1 = none := lookup_of_not_prefix fun g hg ↦ (hapart g hg).1
    have hout : ¬ ∃ g ∈ files, f.1 <+: g.1 := fun ⟨g, hg, hpre⟩ ↦ (hapart g hg).1 hpre
    rw [hnone, beq_self_eq_true]
    dsimp only
    rw [if_neg hout, h f.1, if_pos rfl]
  · rw [beq_false_of_ne hqf]
    cases hlook : files.lookup q with
    | some e => rfl
    | none =>
      dsimp only
      rw [h q, if_neg hqf]
      simp only [List.mem_cons, exists_eq_or_imp]
      by_cases hrest : ∃ g ∈ files, q <+: g.1
      · rw [if_pos hrest, if_pos (Or.inr hrest)]
      · rw [if_neg hrest]
        simp only [hrest, or_false]

/-- Where one of the files goes it is. -/
theorem GainsAll.node_of_lookup (h : t.GainsAll t' files) (hlook : files.lookup q = some d) :
    t'.node q = some (.file d) := by
  rw [h q, hlook]

/-- Where none of the files is or goes through nothing changes. -/
theorem GainsAll.node_eq (h : t.GainsAll t' files) (hout : ∀ f ∈ files, ¬ q <+: f.1) :
    t'.node q = t.node q := by
  rw [h q, lookup_of_not_prefix hout]
  exact if_neg fun ⟨f, hf, hpre⟩ ↦ hout f hf hpre

/-- Where there was no file only these are. -/
theorem GainsAll.fileAt (h : t.GainsAll t' files) (hq : t.node q = none) :
    t'.fileAt q = files.lookup q := by
  unfold FileTree.fileAt
  rw [h q]
  cases files.lookup q with
  | some d => rfl
  | none =>
    dsimp only
    split
    · next d hd =>
      split at hd
      · cases hd
      · cases hq.symm.trans hd
    · rfl

/-- A folder stays one where each of the files found room. -/
theorem GainsAll.dir (h : t.GainsAll t' files) (hfree : ∀ f ∈ files, t.node f.1 = none)
    (hdir : t.node q = some .dir) : t'.node q = some .dir := by
  have hnone : files.lookup q = none := by
    rw [List.lookup_eq_none_iff]
    intro f hf
    rw [bne_iff_ne]
    rintro rfl
    cases (hfree f hf).symm.trans hdir
  rw [h q, hnone, hdir]
  exact ite_self _

/-! ### Renames -/

/-- What was at `a` and below it is at `b`, and what is elsewhere stays. -/
structure Moves (t t' : FileTree α) (a b : TreePath) : Prop where
  below : ∀ p, t'.node (b ++ p) = t.node (a ++ p)
  other : ∀ {q}, ¬ a <+: q → ¬ b <+: q → t'.node q = t.node q

theorem moves_of_rename {names : List String} {a b : TreePath}
    (h : t.rename names a b = some t') : t.Moves t' a b where
  below p := by
    rw [(rename_eq_some h).2.2, if_pos (List.prefix_append b p), List.drop_left]
  other ha hb := by
    rw [(rename_eq_some h).2.2, if_neg hb, if_neg ha]

/-- Nothing to rename. -/
theorem moves_of_none {a b : TreePath} (ha : t.node a = none) (hb : t.node b = none) :
    t.Moves t a b where
  below p := by
    rw [none_below ha (List.prefix_append a p), none_below hb (List.prefix_append b p)]
  other _ _ := rfl

/-- Below a place that is apart from both. -/
theorem Moves.apart {a b : TreePath} (h : t.Moves t' a b) (ha : Incomparable a q)
    (hb : Incomparable b q) (r : TreePath) : t'.node (q ++ r) = t.node (q ++ r) :=
  h.other (ha.symm.append_left r).2 (hb.symm.append_left r).2

theorem Moves.node_eq {a b : TreePath} (h : t.Moves t' a b) (ha : Incomparable a q)
    (hb : Incomparable b q) : t'.node q = t.node q := h.other ha.1 hb.1

/-- Nothing is there, in a folder that is. -/
structure Open (t : FileTree α) (p : TreePath) : Prop where
  free : t.node p = none
  dir : t.node p.dropLast = some .dir

theorem Moves.open {a b : TreePath} (h : t.Moves t' a b) (ha : Incomparable a q)
    (hb : Incomparable b q) (hq : t.Open q) : t'.Open q where
  free := (h.node_eq ha hb).trans hq.free
  dir := by
    have hlast := List.dropLast_prefix q
    rw [h.other (fun hpre ↦ ha.1 (hpre.trans hlast)) fun hpre ↦ hb.1 (hpre.trans hlast)]
    exact hq.dir

/-- Neither end of one rename leads to one of another. -/
structure MovesApart (m n : TreePath × TreePath) : Prop where
  old : Incomparable m.1 n.1
  oldNew : Incomparable m.1 n.2
  newOld : Incomparable m.2 n.1
  new : Incomparable m.2 n.2

/-- What was at each old place and below it is at the new one, and what is elsewhere stays. -/
structure MovesAll (t t' : FileTree α) (moves : List (TreePath × TreePath)) : Prop where
  below : ∀ m ∈ moves, ∀ p, t'.node (m.2 ++ p) = t.node (m.1 ++ p)
  other : ∀ {q}, (∀ m ∈ moves, ¬ m.1 <+: q ∧ ¬ m.2 <+: q) → t'.node q = t.node q

theorem MovesAll.nil (t : FileTree α) : t.MovesAll t [] := ⟨by simp, fun _ ↦ rfl⟩

/-- One rename and then others that are apart from it. -/
theorem Moves.cons {m : TreePath × TreePath} {moves : List (TreePath × TreePath)}
    (h : t.Moves t₁ m.1 m.2) (h' : t₁.MovesAll t' moves) (hapart : ∀ n ∈ moves, MovesApart m n) :
    t.MovesAll t' (m :: moves) where
  below k hk p := by
    rcases List.mem_cons.mp hk with rfl | hk
    · have hsame : t'.node (k.2 ++ p) = t₁.node (k.2 ++ p) := h'.other fun n hn ↦
        ⟨((hapart n hn).newOld.append_left p).2, ((hapart n hn).new.append_left p).2⟩
      rw [hsame, h.below]
    · rw [h'.below k hk, h.apart (hapart k hk).old (hapart k hk).newOld]
  other hout := by
    obtain ⟨hm, hmoves⟩ := List.forall_mem_cons.mp hout
    rw [h'.other hmoves, h.other hm.1 hm.2]

end FileTree

/-! ### Programs that go through -/

namespace FileIo

variable {A ε β γ : Type} {x : FileIo ε A β} {f : β → FileIo ε A γ} {t t₁ t₂ : FileTree A}

/-- On the tree `t` the program ends with `b` and leaves `t'`, whatever the log. -/
def Reaches (x : FileIo ε A β) (t : FileTree A) (b : β) (t' : FileTree A) : Prop :=
  ∀ log, ∃ log', x.runOn ⟨t, log⟩ = (.ok b, ⟨t', log'⟩)

theorem reaches_pure (b : β) : Reaches (pure b : FileIo ε A β) t b t :=
  fun log ↦ ⟨log, runOn_pure b⟩

theorem reaches_bind {b : β} {c : γ} (hx : Reaches x t b t₁) (hf : Reaches (f b) t₁ c t₂) :
    Reaches (x >>= f) t c t₂ := by
  intro log
  obtain ⟨log₁, h₁⟩ := hx log
  obtain ⟨log₂, h₂⟩ := hf log₁
  exact ⟨log₂, (runOn_bind_ok h₁).trans h₂⟩

theorem reaches_look {g : FileTree A → β} {f : β → FileIo ε A γ} {c : γ}
    (hf : Reaches (f (g t)) t c t₁) : Reaches (look g >>= f) t c t₁ :=
  fun log ↦ (hf log).imp fun _ h ↦ runOn_look_bind.trans h

theorem reaches_attempt {f : Except ε β → FileIo ε A γ} {b : β} {c : γ} (hx : Reaches x t b t₁)
    (hf : Reaches (f (.ok b)) t₁ c t₂) : Reaches (attempt x >>= f) t c t₂ := by
  intro log
  obtain ⟨log₁, h₁⟩ := hx log
  obtain ⟨log₂, h₂⟩ := hf log₁
  refine ⟨log₂, ?_⟩
  rw [runOn_attempt_bind, h₁]
  exact h₂

/-- An operation that is let through, where none fails. -/
theorem reaches_perform {host : FileHost A} (hhost : ∀ n, host.fault n = none) (e : ε)
    {op : FileOp A} (h : op.run host.names t = some t₁) : Reaches (perform host e op) t () t₁ :=
  fun _ ↦ ⟨_, runOn_perform_ok (hhost _) h⟩

end FileIo

end Claudebase.Base
