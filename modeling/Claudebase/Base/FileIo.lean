import Claudebase.Base.FileTree

/-!
# Programs over trees of files

A program does one operation after another, and ends with the first that fails. Any of them can
fail, and leave part of its work; the log has every operation that was tried, and whether it went
through. What a program can change follows from the paths its operations are given.
-/

namespace Claudebase.Base

/-! ### Operations -/

/-- How an operation fails: how much of a write is done, or how many folders made, and what of a
folder is already removed. -/
structure Fault where
  part : Nat
  gone : TreePath → Bool

/-- An operation. `read` stands for whatever reads from elsewhere. -/
inductive FileOp (α : Type) where
  | read
  | makeDirs (p : TreePath)
  | create (p : TreePath)
  | write (p : TreePath) (data : List α)
  | sync (p : TreePath)
  | rename (a b : TreePath)
  | removeTree (p : TreePath)
  | removeFile (p : TreePath)
  deriving DecidableEq, Repr

variable {α : Type}

namespace FileOp

/-- An operation that is let through; nothing where it is refused. -/
def run (names : FileTree α → TreePath → List String) (t : FileTree α) :
    FileOp α → Option (FileTree α)
  | .read => some t
  | .makeDirs p => t.makeDirs p p.length
  | .create p => t.create p []
  | .write p d => t.write p d
  | .sync _ => some t
  | .rename a b => t.rename (names t b) a b
  | .removeTree p => t.removeTree p
  | .removeFile p => t.removeFile p

/-- What a failed one leaves. -/
def cut (f : Fault) (t : FileTree α) : FileOp α → FileTree α
  | .makeDirs p => (t.makeDirs p f.part).getD t
  | .write p d => (t.write p (d.take f.part)).getD t
  | .removeTree p => t.remove p f.gone
  | .read | .create _ | .sync _ | .rename _ _ | .removeFile _ => t

/-- It changes what is at `p`. -/
def Touches (p : TreePath) : FileOp α → Prop
  | .read | .sync _ => False
  | .makeDirs q => p <+: q
  | .create q | .write q _ | .removeTree q | .removeFile q => q <+: p
  | .rename a b => a <+: p ∨ b <+: p

/-- It can put a file at `p`. -/
def Puts (p : TreePath) : FileOp α → Prop
  | .read | .sync _ | .makeDirs _ | .removeTree _ | .removeFile _ => False
  | .create q | .write q _ => q = p
  | .rename _ b => b <+: p

/-- It changes only what is below one of `roots`, and makes folders on the way to `ways`. -/
def Fits (roots ways : List TreePath) : FileOp α → Prop
  | .read | .sync _ => True
  | .makeDirs p => ∀ q, q <+: p → (∃ r ∈ roots, r <+: q) ∨ ∃ a ∈ ways, q <+: a
  | .create p | .write p _ | .removeTree p | .removeFile p => ∃ r ∈ roots, r <+: p
  | .rename a b => (∃ r ∈ roots, r <+: a) ∧ ∃ r ∈ roots, r <+: b

theorem Fits.mono {roots ways roots' ways' : List TreePath} (hroots : roots ⊆ roots')
    (hways : ways ⊆ ways') {op : FileOp α} (h : op.Fits roots ways) : op.Fits roots' ways' := by
  have hmore {q : TreePath} : (∃ r ∈ roots, r <+: q) → ∃ r ∈ roots', r <+: q :=
    fun ⟨r, hr, hrq⟩ ↦ ⟨r, hroots hr, hrq⟩
  cases op with
  | read => trivial
  | makeDirs p =>
    exact fun q hq ↦ (h q hq).imp hmore fun ⟨a, ha, hqa⟩ ↦ ⟨a, hways ha, hqa⟩
  | create p => exact hmore h
  | write p d => exact hmore h
  | sync p => trivial
  | rename a b => exact ⟨hmore h.1, hmore h.2⟩
  | removeTree p => exact hmore h
  | removeFile p => exact hmore h

end FileOp

/-! ### What is left alone -/

namespace FileTree

/-- What is outside `roots` stays, but for folders on the way to `ways` that were not there. -/
def Spares (roots ways : List TreePath) (t t' : FileTree α) : Prop :=
  ∀ p, (∀ r ∈ roots, ¬ r <+: p) →
    t'.node p = t.node p ∨ t.node p = none ∧ t'.node p = some .dir ∧ ∃ a ∈ ways, p <+: a

variable {roots ways : List TreePath} {t t' t'' : FileTree α}

theorem Spares.refl (t : FileTree α) : t.Spares roots ways t := fun _ _ ↦ .inl rfl

theorem Spares.trans (h : t.Spares roots ways t') (h' : t'.Spares roots ways t'') :
    t.Spares roots ways t'' := by
  intro p hp
  rcases h p hp with hsame | ⟨hnone, hdir, hway⟩
  · rcases h' p hp with hsame' | ⟨hnone', hdir', hway'⟩
    · exact .inl (hsame'.trans hsame)
    · exact .inr ⟨hsame ▸ hnone', hdir', hway'⟩
  · rcases h' p hp with hsame' | ⟨hnone', -, -⟩
    · exact .inr ⟨hnone, hsame'.trans hdir, hway⟩
    · rw [hdir] at hnone'
      cases hnone'

theorem Spares.mono {roots' ways' : List TreePath} (hroots : roots ⊆ roots') (hways : ways ⊆ ways')
    (h : t.Spares roots ways t') : t.Spares roots' ways' t' := by
  intro p hp
  refine (h p fun r hr ↦ hp r (hroots hr)).imp_right ?_
  rintro ⟨hnone, hdir, a, ha, hpa⟩
  exact ⟨hnone, hdir, a, hways ha, hpa⟩

/-- Where a tree has something outside `roots`, it has the same later. -/
theorem Spares.node_eq (h : t.Spares roots ways t') {p : TreePath} (hp : ∀ r ∈ roots, ¬ r <+: p)
    {n : Node α} (hn : t.node p = some n) : t'.node p = some n := by
  rcases h p hp with hsame | ⟨hnone, -, -⟩
  · exact hsame.trans hn
  · rw [hn] at hnone
    cases hnone

/-- Where there was nothing, off the ways, there is nothing later. -/
theorem Spares.none (h : t.Spares roots ways t') {p : TreePath} (hp : ∀ r ∈ roots, ¬ r <+: p)
    (hways : ∀ a ∈ ways, ¬ p <+: a) (hn : t.node p = none) : t'.node p = none := by
  rcases h p hp with hsame | ⟨-, -, a, ha, hway⟩
  · exact hsame.trans hn
  · exact absurd hway (hways a ha)

end FileTree

open FileTree

variable {roots ways : List TreePath} {t t' : FileTree α} {op : FileOp α}
  {names : FileTree α → TreePath → List String}

theorem spares_makeDirs {p : TreePath} {k : Nat}
    (hfits : (FileOp.makeDirs p : FileOp α).Fits roots ways)
    (h : t.makeDirs p k = some t') : t.Spares roots ways t' := by
  intro q hq
  rw [node_makeDirs h]
  split
  · next hway =>
    have hfile := not_isFile_of_makeDirs h hway.1
    obtain ⟨a, ha, hqa⟩ := (hfits q hway.1).resolve_left fun ⟨r, hr, hrq⟩ ↦ hq r hr hrq
    cases hnode : t.node q with
    | none => exact .inr ⟨rfl, rfl, a, ha, hqa⟩
    | some n =>
      cases n with
      | file d => exact absurd ⟨d, hnode⟩ hfile
      | dir => exact .inl rfl
  · exact .inl rfl

theorem spares_update {p : TreePath} {n : Option (Node α)} (hp : ∃ r ∈ roots, r <+: p)
    (h : t'.node = Function.update t.node p n) : t.Spares roots ways t' := by
  obtain ⟨r, hr, hrp⟩ := hp
  intro q hq
  left
  rw [h, Function.update_of_ne]
  rintro rfl
  exact hq r hr hrp

theorem spares_remove {p : TreePath} (hp : ∃ r ∈ roots, r <+: p) (gone : TreePath → Bool) :
    t.Spares roots ways (t.remove p gone) := by
  obtain ⟨r, hr, hrp⟩ := hp
  intro q hq
  exact .inl (node_remove_of_not_below gone fun hpq ↦ hq r hr (hrp.trans hpq))

/-- An operation that is let through. -/
theorem spares_run (hfits : op.Fits roots ways) (h : op.run names t = some t') :
    t.Spares roots ways t' := by
  cases op with
  | read =>
    cases h
    exact Spares.refl t
  | makeDirs p => exact spares_makeDirs hfits h
  | create p => exact spares_update hfits (create_eq_some h).2.2
  | write p d => exact spares_update hfits (write_eq_some h).2
  | sync p =>
    cases h
    exact Spares.refl t
  | rename a b =>
    obtain ⟨⟨r, hr, hra⟩, s, hs, hsb⟩ := hfits
    intro q hq
    left
    rw [(rename_eq_some h).2.2, if_neg fun hbq ↦ hq s hs (hsb.trans hbq),
      if_neg fun haq ↦ hq r hr (hra.trans haq)]
  | removeTree p =>
    rw [removeTree_eq_some h]
    exact spares_remove hfits _
  | removeFile p =>
    rw [removeFile_eq_some h]
    exact spares_remove hfits _

/-- One that fails. -/
theorem spares_cut (f : Fault) (hfits : op.Fits roots ways) : t.Spares roots ways (op.cut f t) := by
  cases op with
  | read => exact Spares.refl t
  | makeDirs p =>
    cases h : t.makeDirs p f.part with
    | none => simpa [FileOp.cut, h] using Spares.refl t
    | some t' => simpa [FileOp.cut, h] using spares_makeDirs hfits h
  | create p => exact Spares.refl t
  | write p d =>
    cases h : t.write p (d.take f.part) with
    | none => simpa [FileOp.cut, h] using Spares.refl t
    | some t' => simpa [FileOp.cut, h] using spares_update hfits (write_eq_some h).2
  | sync p => exact Spares.refl t
  | rename a b => exact Spares.refl t
  | removeTree p => exact spares_remove hfits f.gone
  | removeFile p => exact Spares.refl t

/-- What an operation with these roots cannot change. -/
theorem FileOp.Fits.not_touches {p : TreePath} (h : op.Fits roots ways)
    (hroots : ∀ r ∈ roots, ¬ r <+: p) (hways : ∀ a ∈ ways, ¬ p <+: a) : ¬ op.Touches p := by
  have hout {q : TreePath} : (∃ r ∈ roots, r <+: q) → ¬ q <+: p :=
    fun ⟨r, hr, hrq⟩ hqp ↦ hroots r hr (hrq.trans hqp)
  cases op with
  | read => exact id
  | makeDirs q =>
    intro hpq
    rcases h p hpq with ⟨r, hr, hrp⟩ | ⟨a, ha, hpa⟩
    · exact hroots r hr hrp
    · exact hways a ha hpa
  | create q => exact hout h
  | write q d => exact hout h
  | sync q => exact id
  | rename a b => exact not_or.mpr ⟨hout h.1, hout h.2⟩
  | removeTree q => exact hout h
  | removeFile q => exact hout h

theorem not_isFile_update {p q : TreePath} {n : Option (Node α)} (hpq : q ≠ p)
    (h : t'.node = Function.update t.node q n) (hp : ¬ t.IsFile p) : ¬ t'.IsFile p := by
  rintro ⟨d, hd⟩
  rw [h, Function.update_of_ne hpq.symm] at hd
  exact hp ⟨d, hd⟩

theorem not_isFile_makeDirs {p q : TreePath} {k : Nat} (h : t.makeDirs q k = some t')
    (hp : ¬ t.IsFile p) : ¬ t'.IsFile p := by
  rintro ⟨d, hd⟩
  rw [node_makeDirs h] at hd
  split at hd
  · cases hd
  · exact hp ⟨d, hd⟩

theorem not_isFile_remove {p q : TreePath} (gone : TreePath → Bool) (hp : ¬ t.IsFile p) :
    ¬ (t.remove q gone).IsFile p := by
  rintro ⟨d, hd⟩
  rcases @node_remove _ t q gone p with hnone | hsame
  · rw [hnone] at hd
    cases hd
  · exact hp ⟨d, hsame ▸ hd⟩

/-- Where no file is put there is none. -/
theorem not_isFile_run {p : TreePath} (hputs : ¬ op.Puts p) (h : op.run names t = some t')
    (hp : ¬ t.IsFile p) : ¬ t'.IsFile p := by
  cases op with
  | read =>
    cases h
    exact hp
  | makeDirs q => exact not_isFile_makeDirs h hp
  | create q => exact not_isFile_update hputs (create_eq_some h).2.2 hp
  | write q d => exact not_isFile_update hputs (write_eq_some h).2 hp
  | sync q =>
    cases h
    exact hp
  | rename a b =>
    have hb : ¬ b <+: p := hputs
    rintro ⟨d, hd⟩
    rw [(rename_eq_some h).2.2, if_neg hb] at hd
    split at hd
    · cases hd
    · exact hp ⟨d, hd⟩
  | removeTree q =>
    rw [removeTree_eq_some h]
    exact not_isFile_remove _ hp
  | removeFile q =>
    rw [removeFile_eq_some h]
    exact not_isFile_remove _ hp

theorem not_isFile_cut {p : TreePath} (f : Fault) (hputs : ¬ op.Puts p) (hp : ¬ t.IsFile p) :
    ¬ (op.cut f t).IsFile p := by
  cases op with
  | read => exact hp
  | makeDirs q =>
    cases h : t.makeDirs q f.part with
    | none => simpa [FileOp.cut, h] using hp
    | some t' => simpa [FileOp.cut, h] using not_isFile_makeDirs h hp
  | create q => exact hp
  | write q d =>
    cases h : t.write q (d.take f.part) with
    | none => simpa [FileOp.cut, h] using hp
    | some t' => simpa [FileOp.cut, h] using not_isFile_update hputs (write_eq_some h).2 hp
  | sync q => exact hp
  | rename a b => exact hp
  | removeTree q => exact not_isFile_remove f.gone hp
  | removeFile q => exact hp

/-! ### Programs -/

/-- What the names in a folder are, and which operations fail. -/
structure FileHost (α : Type) where
  names : FileTree α → TreePath → List String
  fault : Nat → Option Fault

/-- The tree, and the operations tried on it, each with whether it went through. -/
structure FileState (α : Type) where
  tree : FileTree α
  log : List (FileOp α × Bool)

/-- A program that ends with a value or an error. -/
abbrev FileIo (ε α β : Type) := ExceptT ε (StateM (FileState α)) β

variable {ε β γ : Type}

namespace FileIo

/-- The outcome, and the state after it. -/
def runOn (x : FileIo ε α β) (w : FileState α) : Except ε β × FileState α := (ExceptT.run x).run w

/-- One operation. -/
def perform (host : FileHost α) (e : ε) (op : FileOp α) : FileIo ε α Unit :=
  ExceptT.mk fun w ↦
    match host.fault w.log.length with
    | some f => (.error e, ⟨op.cut f w.tree, w.log ++ [(op, false)]⟩)
    | none =>
      match op.run host.names w.tree with
      | some t => (.ok (), ⟨t, w.log ++ [(op, true)]⟩)
      | none => (.error e, ⟨w.tree, w.log ++ [(op, false)]⟩)

/-- Look at the tree. -/
def look (f : FileTree α → β) : FileIo ε α β := ExceptT.mk fun w ↦ (.ok (f w.tree), w)

/-- Go on with the outcome, whichever. -/
def attempt (x : FileIo ε α β) : FileIo ε α (Except ε β) :=
  ExceptT.mk fun w ↦ (.ok (x.runOn w).1, (x.runOn w).2)

variable {x : FileIo ε α β} {f : β → FileIo ε α γ} {w w' : FileState α}

@[simp] theorem runOn_pure (b : β) : (pure b : FileIo ε α β).runOn w = (.ok b, w) := rfl

/-- A step that fails ends the program. -/
theorem runOn_bind_error {e : ε} (h : x.runOn w = (.error e, w')) :
    (x >>= f).runOn w = (.error e, w') := by
  have hrun : (ExceptT.run x).run w = (.error e, w') := h
  rw [runOn, ExceptT.run_bind, StateT.run_bind, hrun]
  rfl

theorem runOn_bind_ok {b : β} (h : x.runOn w = (.ok b, w')) :
    (x >>= f).runOn w = (f b).runOn w' := by
  have hrun : (ExceptT.run x).run w = (.ok b, w') := h
  rw [runOn, ExceptT.run_bind, StateT.run_bind, hrun]
  rfl

theorem runOn_attempt_bind {f : Except ε β → FileIo ε α γ} :
    (attempt x >>= f).runOn w = (f (x.runOn w).1).runOn (x.runOn w).2 := runOn_bind_ok rfl

theorem runOn_look_bind {g : FileTree α → β} :
    (look g >>= f).runOn w = (f (g w.tree)).runOn w := runOn_bind_ok rfl

/-- Both ways a program of two parts can end. -/
theorem runOn_bind (x : FileIo ε α β) (f : β → FileIo ε α γ) (w : FileState α) :
    (∃ b w', x.runOn w = (.ok b, w') ∧ (x >>= f).runOn w = (f b).runOn w') ∨
      ∃ e w', x.runOn w = (.error e, w') ∧ (x >>= f).runOn w = (.error e, w') := by
  rcases h : x.runOn w with ⟨e | b, w'⟩
  · exact .inr ⟨e, w', rfl, runOn_bind_error h⟩
  · exact .inl ⟨b, w', rfl, runOn_bind_ok h⟩

/-- A program of two parts ends in the first or in the second. -/
theorem cases_of_runOn {r : Except ε γ} (h : (x >>= f).runOn w = (r, w')) :
    (∃ e, r = .error e ∧ x.runOn w = (.error e, w')) ∨
      ∃ b w₁, x.runOn w = (.ok b, w₁) ∧ (f b).runOn w₁ = (r, w') := by
  rcases runOn_bind x f w with ⟨b, w₁, hx, hrun⟩ | ⟨e, w₁, hx, hrun⟩
  · exact .inr ⟨b, w₁, hx, hrun.symm.trans h⟩
  · cases hrun.symm.trans h
    exact .inl ⟨e, rfl, hx⟩

/-- One that succeeds does so in both. -/
theorem exists_of_runOn_ok {c : γ} (h : (x >>= f).runOn w = (.ok c, w')) :
    ∃ b w₁, x.runOn w = (.ok b, w₁) ∧ (f b).runOn w₁ = (.ok c, w') := by
  rcases cases_of_runOn h with ⟨e, he, -⟩ | hboth
  · cases he
  · exact hboth

/-- One that fails does so in the first part or the second. -/
theorem cases_of_runOn_error {e : ε} (h : (x >>= f).runOn w = (.error e, w')) :
    x.runOn w = (.error e, w') ∨
      ∃ b w₁, x.runOn w = (.ok b, w₁) ∧ (f b).runOn w₁ = (.error e, w') := by
  rcases cases_of_runOn h with ⟨e', he, hx⟩ | hboth
  · cases he
    exact .inl hx
  · exact .inr hboth

/-! ### What every run keeps -/

/-- Whatever its outcome, the program leaves a state that `R` relates to the one before. -/
def Keeps (R : FileState α → FileState α → Prop) (x : FileIo ε α β) : Prop :=
  ∀ w, R w (x.runOn w).2

section

variable {R : FileState α → FileState α → Prop}

/-- What a run with a known end keeps. -/
theorem Keeps.of_eq {r : Except ε β} (h : Keeps R x) (hrun : x.runOn w = (r, w')) : R w w' := by
  have hw := h w
  rw [hrun] at hw
  exact hw

theorem keeps_pure (hrefl : ∀ w, R w w) (b : β) : Keeps R (pure b : FileIo ε α β) := hrefl

theorem keeps_throw (hrefl : ∀ w, R w w) (e : ε) : Keeps R (throw e : FileIo ε α β) := hrefl

theorem keeps_look (hrefl : ∀ w, R w w) (g : FileTree α → β) :
    Keeps R (look g : FileIo ε α β) := hrefl

theorem keeps_attempt (h : Keeps R x) : Keeps R (attempt x) := h

theorem keeps_bind (htrans : ∀ a b c, R a b → R b c → R a c) (hx : Keeps R x)
    (hf : ∀ b, Keeps R (f b)) : Keeps R (x >>= f) := by
  intro w
  rcases runOn_bind x f w with ⟨b, w', hx', hrun⟩ | ⟨e, w', hx', hrun⟩
  · rw [hrun]
    have hfirst := hx w
    rw [hx'] at hfirst
    exact htrans w w' _ hfirst (hf b w')
  · rw [hrun]
    have hfirst := hx w
    rw [hx'] at hfirst
    exact hfirst

theorem keeps_foldlM {κ : Type} {g : β → κ → FileIo ε α β} (hrefl : ∀ w, R w w)
    (htrans : ∀ a b c, R a b → R b c → R a c) {xs : List κ}
    (hg : ∀ b, ∀ k ∈ xs, Keeps R (g b k)) (b : β) : Keeps R (xs.foldlM g b) := by
  induction xs generalizing b with
  | nil => exact keeps_pure hrefl b
  | cons k xs ih =>
    rw [List.foldlM_cons]
    exact keeps_bind htrans (hg b k List.mem_cons_self) fun b' ↦
      ih (fun b k hk ↦ hg b k (List.mem_cons_of_mem _ hk)) b'

end

/-- An operation does what it does, or part of it, and is put on the log. -/
theorem runOn_perform (host : FileHost α) (e : ε) (op : FileOp α) (w : FileState α) :
    (∃ t, op.run host.names w.tree = some t ∧
        (perform host e op).runOn w = (.ok (), ⟨t, w.log ++ [(op, true)]⟩)) ∨
      (∃ f, (perform host e op).runOn w = (.error e, ⟨op.cut f w.tree, w.log ++ [(op, false)]⟩)) ∨
      (perform host e op).runOn w = (.error e, ⟨w.tree, w.log ++ [(op, false)]⟩) := by
  cases hfault : host.fault w.log.length with
  | some f =>
    refine .inr (.inl ⟨f, ?_⟩)
    simp [runOn, perform, hfault, StateT.run]
  | none =>
    cases hrun : op.run host.names w.tree with
    | some t =>
      refine .inl ⟨t, rfl, ?_⟩
      simp [runOn, perform, hfault, hrun, StateT.run]
    | none =>
      refine .inr (.inr ?_)
      simp [runOn, perform, hfault, hrun, StateT.run]

/-- Where nothing fails. -/
theorem runOn_perform_ok {host : FileHost α} {e : ε} {op : FileOp α} {w : FileState α}
    {t : FileTree α} (hfault : host.fault w.log.length = none)
    (h : op.run host.names w.tree = some t) :
    (perform host e op).runOn w = (.ok (), ⟨t, w.log ++ [(op, true)]⟩) := by
  simp [runOn, perform, hfault, h, StateT.run]

/-! ### Where a program stays -/

/-- The operations in between fit the roots and the ways. -/
structure Within (roots ways : List TreePath) (w w' : FileState α) : Prop where
  log : ∃ es, w'.log = w.log ++ es ∧ ∀ e ∈ es, e.1.Fits roots ways
  spares : w.tree.Spares roots ways w'.tree

theorem Within.refl (w : FileState α) : Within roots ways w w :=
  ⟨⟨[], by simp, by simp⟩, Spares.refl w.tree⟩

theorem Within.trans (a b c : FileState α) (h : Within roots ways a b)
    (h' : Within roots ways b c) :
    Within roots ways a c := by
  obtain ⟨es, hes, hfits⟩ := h.log
  obtain ⟨es', hes', hfits'⟩ := h'.log
  refine ⟨⟨es ++ es', by rw [hes', hes, List.append_assoc], ?_⟩, h.spares.trans h'.spares⟩
  intro e he
  rcases List.mem_append.mp he with he | he
  · exact hfits e he
  · exact hfits' e he

/-- More roots and ways. -/
theorem Within.mono {roots' ways' : List TreePath} (hroots : roots ⊆ roots') (hways : ways ⊆ ways')
    {w w' : FileState α} (h : Within roots ways w w') : Within roots' ways' w w' := by
  obtain ⟨es, hes, hfits⟩ := h.log
  exact ⟨⟨es, hes, fun e he ↦ (hfits e he).mono hroots hways⟩, h.spares.mono hroots hways⟩

theorem keeps_perform_within (host : FileHost α) (e : ε) (hfits : op.Fits roots ways) :
    Keeps (Within roots ways) (perform host e op) := by
  intro w
  have hlog (b : Bool) : ∃ es, w.log ++ [(op, b)] = w.log ++ es ∧ ∀ e ∈ es, e.1.Fits roots ways :=
    ⟨[(op, b)], rfl, by simpa using hfits⟩
  rcases runOn_perform host e op w with ⟨t, hrun, h⟩ | ⟨f, h⟩ | h
  · rw [h]
    exact ⟨hlog true, spares_run hfits hrun⟩
  · rw [h]
    exact ⟨hlog false, spares_cut f hfits⟩
  · rw [h]
    exact ⟨hlog false, Spares.refl w.tree⟩

/-- No file is put at `p`. -/
def Unfiled (p : TreePath) (w w' : FileState α) : Prop :=
  ¬ w.tree.IsFile p → ¬ w'.tree.IsFile p

theorem Unfiled.refl (p : TreePath) (w : FileState α) : Unfiled p w w := id

theorem Unfiled.trans (p : TreePath) (a b c : FileState α) (h : Unfiled p a b)
    (h' : Unfiled p b c) : Unfiled p a c := h' ∘ h

theorem keeps_perform_unfiled (host : FileHost α) (e : ε) {p : TreePath} (hputs : ¬ op.Puts p) :
    Keeps (Unfiled p) (perform host e op) := by
  intro w hp
  rcases runOn_perform host e op w with ⟨t, hrun, h⟩ | ⟨f, h⟩ | h
  · rw [h]
    exact not_isFile_run hputs hrun hp
  · rw [h]
    exact not_isFile_cut f hputs hp
  · rw [h]
    exact hp

/-! ### Clearing up -/

/-- The log grows, and what is there was there. -/
structure Clears (w w' : FileState α) : Prop where
  log : w.log <+: w'.log
  gone : ∀ p, w'.tree.node p = none ∨ w'.tree.node p = w.tree.node p

theorem Clears.refl (w : FileState α) : Clears w w := ⟨List.prefix_refl _, fun _ ↦ .inr rfl⟩

theorem Clears.trans (a b c : FileState α) (h : Clears a b) (h' : Clears b c) : Clears a c where
  log := h.log.trans h'.log
  gone p := by
    rcases h'.gone p with hnone | hsame
    · exact .inl hnone
    · exact (h.gone p).imp (fun hnone ↦ hsame.trans hnone) fun h ↦ hsame.trans h

/-- A folder or a file removed, or the failure to on the log. -/
def Cleared (op : FileOp α) (p : TreePath) (w : FileState α) : Prop :=
  w.tree.node p = none ∨ (op, false) ∈ w.log

theorem Cleared.mono {p : TreePath} {w w' : FileState α} (h : Cleared op p w) (hc : Clears w w') :
    Cleared op p w' := by
  rcases h with hnone | hlog
  · exact .inl ((hc.gone p).elim id fun hsame ↦ hsame.trans hnone)
  · exact .inr (hc.log.subset hlog)

theorem clears_remove {w : FileState α} (p : TreePath) (gone : TreePath → Bool)
    (entry : FileOp α × Bool) : Clears w ⟨w.tree.remove p gone, w.log ++ [entry]⟩ :=
  ⟨List.prefix_append _ _, fun q ↦ node_remove gone q⟩

theorem clears_same {w : FileState α} (entry : FileOp α × Bool) :
    Clears w ⟨w.tree, w.log ++ [entry]⟩ := ⟨List.prefix_append _ _, fun _ ↦ .inr rfl⟩

/-- Removing a folder. -/
theorem runOn_removeTree (host : FileHost α) (e : ε) (p : TreePath) (w : FileState α) :
    Clears w ((perform host e (.removeTree p)).runOn w).2 ∧
      Cleared (.removeTree p) p ((perform host e (.removeTree p)).runOn w).2 := by
  rcases runOn_perform host e (.removeTree p) w with ⟨t, hrun, h⟩ | ⟨f, h⟩ | h
  · rw [h, removeTree_eq_some hrun]
    exact ⟨clears_remove p _ _, .inl node_remove_all⟩
  · rw [h]
    exact ⟨clears_remove p f.gone _, .inr (by simp)⟩
  · rw [h]
    exact ⟨clears_same _, .inr (by simp)⟩

/-- Removing a file. -/
theorem runOn_removeFile (host : FileHost α) (e : ε) (p : TreePath) (w : FileState α) :
    Clears w ((perform host e (.removeFile p)).runOn w).2 ∧
      Cleared (.removeFile p) p ((perform host e (.removeFile p)).runOn w).2 := by
  rcases runOn_perform host e (.removeFile p) w with ⟨t, hrun, h⟩ | ⟨f, h⟩ | h
  · rw [h, removeFile_eq_some hrun]
    exact ⟨clears_remove p _ _, .inl node_remove_all⟩
  · rw [h]
    exact ⟨clears_same _, .inr (by simp)⟩
  · rw [h]
    exact ⟨clears_same _, .inr (by simp)⟩

end FileIo

end Claudebase.Base
