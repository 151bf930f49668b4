import Claudebase.Journal.Routing

/-!
# Filing a folder's journal under its repository, one step at a time

`src/journal.rs:337–408`, `src/daemon/journal_tools.rs:122–220,338–387`. A journal has the name of
its key twice: its file is named after it, and the file records it. `adopt_path_journal` rewrites
the second before it renames the file, and goes through both only for a file that records the
folder. A call that fails is logged, and the caller makes an empty journal of the key; one that
is cut between the two leaves a file that `open` refuses under either name. Files are taken to be
named after the whole key. What the log beside a file holds is lost when the file alone is
renamed; a log without its file is discarded.
-/

namespace Claudebase.Journal
open Claudebase.Base

/-! ### Journal files -/

/-- What a journal file holds: `project_path` and `adopted_from` of its `journal_meta`, and the
rest. -/
structure Content where
  projectPath : Option Key
  adoptedFrom : Option Path
  db : Db

/-- A file and its write-ahead log: the log, where there is one, holds the newer version. -/
structure File where
  main : Content
  log : Option Content

def File.content (f : File) : Content := f.log.getD f.main

/-- What the journal files hold when they are read. -/
abbrev Catalog := Key → Option Content

/-- The routes and the files in `journals_dir`. -/
structure Disk where
  shares : Table ShareRow.key
  files : Key → Option File

namespace Disk

def content (d : Disk) : Catalog := fun key ↦ (d.files key).map File.content

/-- One file is changed. -/
def modify (d : Disk) (key : Key) (f : File → File) : Disk :=
  { d with files := Function.update d.files key ((d.files key).map f) }

end Disk

/-! ### Adoption -/

/-- The statements of `adopt_path_journal` once it has decided to go on. -/
inductive AdoptStep where
  | checkpoint | retitle | noteOrigin | rename | removeSides
  deriving DecidableEq, Repr

/-- Their order. -/
def adoptSteps : List AdoptStep :=
  [.checkpoint, .retitle, .noteOrigin, .checkpoint, .rename, .removeSides]

/-- One of them: the file of the folder `path` becomes the one of `key`. -/
def AdoptStep.run (key : Key) (path : Path) (d : Disk) : AdoptStep → Disk
  | .checkpoint => d.modify (.folder path) fun f ↦ ⟨f.content, none⟩
  | .retitle => d.modify (.folder path) fun f ↦
      { f with log := some { f.content with projectPath := some key } }
  | .noteOrigin => d.modify (.folder path) fun f ↦
      { f with log := some { f.content with adoptedFrom := some path } }
  | .rename =>
    { d with
      files := Function.update (Function.update d.files (.folder path) none) key
        ((d.files (.folder path)).map fun f ↦ ⟨f.main, none⟩) }
  | .removeSides => d

namespace Catalog

variable (c : Catalog)

/-- `journal_path(..).exists()`. -/
def has (key : Key) : Bool := (c key).isSome

/-- The folder's file records the folder and there is none of the key. -/
def adopts (key : Key) (path : Path) : Prop :=
  key ≠ .folder path ∧ c.has key = false ∧
    (c (.folder path)).bind Content.projectPath = some (.folder path)

instance (key : Key) (path : Path) : Decidable (c.adopts key path) :=
  inferInstanceAs (Decidable (_ ∧ _))

theorem has_of_eq_some {c : Catalog} {key : Key} {x : Content} (h : c key = some x) :
    c.has key = true := by
  rw [has, h]
  rfl

theorem has_of_eq_none {c : Catalog} {key : Key} (h : c key = none) : c.has key = false := by
  rw [has, h]
  rfl

/-- `open` with `create`: a journal that is made, or one that records the key or nothing. -/
def openFor (key : Key) : Except String Content :=
  match c key with
  | none => .ok ⟨some key, none, .empty⟩
  | some x =>
    match x.projectPath with
    | none => .ok { x with projectPath := some key }
    | some p =>
      if p = key then .ok x
      else .error s!"journal of {key.display} belongs to {p.display}, not {key.display}"

end Catalog

namespace Disk

/-- `adopt_path_journal` up to a step. -/
def adoptUpTo (d : Disk) (key : Key) (path : Path) (n : Nat) : Disk :=
  if d.content.adopts key path then (adoptSteps.take n).foldl (AdoptStep.run key path) d else d

/-- `open` and a write. -/
def save (d : Disk) (key : Key) (f : Db → Db) : Disk :=
  match d.content.openFor key with
  | .error _ => d
  | .ok x =>
    { d with
      files := Function.update d.files key
        (some ⟨((d.files key).map File.main).getD x, some { x with db := f x.db }⟩) }

end Disk

/-- How the adoption of a call ends: the daemon stops, or a step fails and is logged. -/
inductive Cut where
  | through
  | stops (n : Nat)
  | fails (n : Nat)
  deriving DecidableEq, Repr

/-- The steps that were done. -/
def Cut.done : Cut → Nat
  | .through => adoptSteps.length
  | .stops n => n
  | .fails n => n

/-- The call goes on with the journal. -/
def Cut.goesOn : Cut → Bool
  | .stops _ => false
  | _ => true

/-- A write of a session: adoption, then `open` and the write. -/
def Disk.call (d : Disk) (key : Key) (path : Path) (cut : Cut) (f : Db → Db) : Disk :=
  let d := d.adoptUpTo key path cut.done
  if cut.goesOn then d.save key f else d

/-- What a reader reads: a session adopts its folder's journal first. -/
def Disk.read (d : Disk) (x : Reader) : Option Db :=
  let key := resolve d.shares d.content.has x
  if x.session then
    ((d.adoptUpTo key x.path adoptSteps.length).content.openFor key).toOption.map Content.db
  else if d.content.has key then (d.content.openFor key).toOption.map Content.db
  else none

/-- An entry that a reader finds. -/
def Disk.Finds (d : Disk) (x : Reader) (e : Entry) : Prop :=
  ∃ db, d.read x = some db ∧ e ∈ db.entries.rows

/-! ### What the steps leave to read -/

/-- The folder's file after some of the steps. -/
def retitled (key : Key) (path : Path) (n : Nat) (x : Content) : Content :=
  { x with
    projectPath := if 2 ≤ n then some key else x.projectPath
    adoptedFrom := if 3 ≤ n then some path else x.adoptedFrom }

section

variable {d : Disk} {key : Key} {path : Path}

theorem content_modify {f : File → File} {k : Key} :
    (d.modify k f).content =
      Function.update d.content k ((d.files k).map fun x ↦ (f x).content) := by
  funext k'
  unfold Disk.content Disk.modify
  by_cases h : k' = k
  · subst h
    simp [Function.comp_def]
  · simp [h]

theorem content_checkpoint : (AdoptStep.run key path d .checkpoint).content = d.content := by
  rw [AdoptStep.run, content_modify]
  exact Function.update_eq_self _ _

theorem content_retitle : (AdoptStep.run key path d .retitle).content =
    Function.update d.content (.folder path)
      ((d.content (.folder path)).map fun x ↦ { x with projectPath := some key }) := by
  rw [AdoptStep.run, content_modify]
  simp [Disk.content, File.content, Function.comp_def]

theorem content_noteOrigin : (AdoptStep.run key path d .noteOrigin).content =
    Function.update d.content (.folder path)
      ((d.content (.folder path)).map fun x ↦ { x with adoptedFrom := some path }) := by
  rw [AdoptStep.run, content_modify]
  simp [Disk.content, File.content, Function.comp_def]

/-- Before the rename the file is where it was. -/
theorem content_steps {n : Nat} (hn : n < 5) :
    ((adoptSteps.take n).foldl (AdoptStep.run key path) d).content =
      Function.update d.content (.folder path)
        ((d.content (.folder path)).map (retitled key path n)) := by
  have hcases : n = 0 ∨ n = 1 ∨ n = 2 ∨ n = 3 ∨ n = 4 := by omega
  have hzero : retitled key path 0 = id := rfl
  have hone : retitled key path 1 = id := rfl
  rcases hcases with rfl | rfl | rfl | rfl | rfl
  · rw [hzero]
    simp [adoptSteps]
  · rw [hone]
    simp [adoptSteps, content_checkpoint]
  · simp only [adoptSteps, List.take, List.foldl, content_retitle, content_checkpoint]
    rfl
  · simp only [adoptSteps, List.take, List.foldl, content_retitle, content_noteOrigin,
      content_checkpoint, Function.update_self, Function.update_idem, Option.map_map]
    rfl
  · simp only [adoptSteps, List.take, List.foldl, content_retitle, content_noteOrigin,
      content_checkpoint, Function.update_self, Function.update_idem, Option.map_map]
    rfl

/-- The second checkpoint leaves nothing in the log. -/
theorem content_rename (hne : key ≠ .folder path) :
    (AdoptStep.run key path (AdoptStep.run key path d .checkpoint) .rename).content =
      Function.update (Function.update d.content (.folder path) none) key
        (d.content (.folder path)) := by
  funext k
  unfold Disk.content AdoptStep.run Disk.modify
  by_cases hk : k = key
  · subst hk
    simp only [Function.update_self, Option.map_map]
    rfl
  · by_cases hp : k = .folder path
    · subst hp
      simp [Ne.symm hne]
    · simp [hk, hp]

/-- After the rename the file is the one of the key. -/
theorem content_renamed {n : Nat} (hn : 5 ≤ n) (hne : key ≠ .folder path) :
    ((adoptSteps.take n).foldl (AdoptStep.run key path) d).content =
      Function.update (Function.update d.content (.folder path) none) key
        ((d.content (.folder path)).map (retitled key path n)) := by
  have hdone : ((adoptSteps.take n).foldl (AdoptStep.run key path) d) =
      AdoptStep.run key path (AdoptStep.run key path
        ((adoptSteps.take 3).foldl (AdoptStep.run key path) d) .checkpoint) .rename := by
    by_cases hfive : n = 5
    · subst hfive
      rfl
    · have hlength : adoptSteps.length ≤ n := show 6 ≤ n by omega
      rw [List.take_of_length_le hlength]
      rfl
  have hretitled : retitled key path n = retitled key path 3 := by
    funext x
    simp [retitled, show 2 ≤ n by omega, show 3 ≤ n by omega]
  rw [hdone, content_rename hne, content_steps (by omega), hretitled]
  simp

/-! ### What a call leaves -/

theorem shares_adoptUpTo (n : Nat) : (d.adoptUpTo key path n).shares = d.shares := by
  have hsteps : ∀ (steps : List AdoptStep) (d : Disk),
      (steps.foldl (AdoptStep.run key path) d).shares = d.shares := by
    intro steps
    induction steps with
    | nil => exact fun _ ↦ rfl
    | cons step steps ih =>
      intro d
      rw [List.foldl_cons, ih]
      cases step <;> rfl
  unfold Disk.adoptUpTo
  split
  · exact hsteps _ d
  · rfl

theorem shares_save (f : Db → Db) : (d.save key f).shares = d.shares := by
  unfold Disk.save
  split
  · rfl
  · rfl

@[simp] theorem shares_call (cut : Cut) (f : Db → Db) :
    (d.call key path cut f).shares = d.shares := by
  unfold Disk.call
  dsimp only
  split
  · rw [shares_save, shares_adoptUpTo]
  · exact shares_adoptUpTo _

theorem adoptUpTo_of_not {n : Nat} (h : ¬ d.content.adopts key path) :
    d.adoptUpTo key path n = d := if_neg h

/-- What has not begun has changed nothing to read. -/
theorem content_adoptUpTo_of_lt {n : Nat} (hn : n < 2) :
    (d.adoptUpTo key path n).content = d.content := by
  have hsame : retitled key path n = id := by
    have hcases : n = 0 ∨ n = 1 := by omega
    rcases hcases with rfl | rfl
    · rfl
    · rfl
  unfold Disk.adoptUpTo
  split
  · rw [content_steps (by omega), hsame]
    simp
  · rfl

/-- The folder's file, as it is when it is adopted. -/
theorem exists_of_adopts {c : Catalog} (h : c.adopts key path) :
    ∃ x, c (.folder path) = some x ∧ x.projectPath = some (.folder path) :=
  Option.bind_eq_some_iff.mp h.2.2

theorem content_adoptUpTo_half {n : Nat} (h : d.content.adopts key path) (hn : 2 ≤ n)
    (hn' : n < 5) :
    ∃ x x', d.content (.folder path) = some x ∧ x'.projectPath = some key ∧ x'.db = x.db ∧
      (d.adoptUpTo key path n).content = Function.update d.content (.folder path) (some x') := by
  obtain ⟨x, hx, -⟩ := exists_of_adopts h
  refine ⟨x, retitled key path n x, hx, if_pos hn, rfl, ?_⟩
  rw [Disk.adoptUpTo, if_pos h, content_steps hn', hx]
  rfl

theorem content_adoptUpTo_filed {n : Nat} (h : d.content.adopts key path) (hn : 5 ≤ n) :
    ∃ x x', d.content (.folder path) = some x ∧ x'.projectPath = some key ∧ x'.db = x.db ∧
      (d.adoptUpTo key path n).content =
        Function.update (Function.update d.content (.folder path) none) key (some x') := by
  obtain ⟨x, hx, -⟩ := exists_of_adopts h
  refine ⟨x, retitled key path n x, hx, if_pos (by omega), rfl, ?_⟩
  rw [Disk.adoptUpTo, if_pos h, content_renamed hn h.1, hx]
  rfl

/-- A journal that is made or opened is written; one of another key is left. -/
theorem content_save (f : Db → Db) : (d.save key f).content = match d.content.openFor key with
    | .error _ => d.content
    | .ok x => Function.update d.content key (some { x with db := f x.db }) := by
  unfold Disk.save
  split
  · rfl
  · funext k
    unfold Disk.content
    by_cases hk : k = key
    · subst hk
      simp [File.content]
    · simp [hk]

/-! ### Opening a journal -/

theorem openFor_of_none {c : Catalog} (h : c key = none) :
    c.openFor key = .ok ⟨some key, none, .empty⟩ := by
  rw [Catalog.openFor, h]

theorem openFor_of_eq {c : Catalog} {y : Content} (h : c key = some y)
    (hy : y.projectPath = some key) : c.openFor key = .ok y := by
  rw [Catalog.openFor, h]
  dsimp only
  rw [hy]
  exact if_pos rfl

/-- What `open` gives of a journal that is there. -/
theorem openFor_of_some {c : Catalog} {y : Content} (h : c key = some y) :
    (y.projectPath = some key ∨ y.projectPath = none) ∧
        (∃ y', c.openFor key = .ok y' ∧ y'.projectPath = some key ∧ y'.db = y.db) ∨
      ¬ (y.projectPath = some key ∨ y.projectPath = none) ∧ ∃ msg, c.openFor key = .error msg := by
  rw [Catalog.openFor, h]
  dsimp only
  cases hp : y.projectPath with
  | none => exact Or.inl ⟨Or.inr rfl, _, rfl, rfl, rfl⟩
  | some p =>
    dsimp only
    by_cases hkey : p = key
    · rw [if_pos hkey, hkey]
      exact Or.inl ⟨Or.inl rfl, _, rfl, hp.trans (congrArg some hkey), rfl⟩
    · rw [if_neg hkey]
      exact Or.inr ⟨by simp [hkey], _, rfl⟩

end

end Claudebase.Journal
