import Mathlib.Data.List.Nodup
import Claudebase.Base.Text

/-!
# Flags and link kinds of journal entries

`src/journal.rs:124–126,222–294,992`. A flag is a work item, open until it is closed, or a
mark, removed with `unmark`. Flag names are read after trimming, dropping leading `#` and
lowercasing; unknown ones are refused by name.
-/

namespace Claudebase.Journal
open Claudebase.Base

/-- The marks an entry can carry on top of its category; `src/journal.rs:249–267`. -/
inductive Flag where
  | todo | question | problem | bugreport | reminder | unverified | disputed | aiFeedback
  | specification | constraint | invariant | important | idea | concept | comment | verified
  | deprecated
  deriving DecidableEq, Repr

/-- The name a flag is stored and shown under. -/
def Flag.name : Flag → String
  | .todo => "todo"
  | .question => "question"
  | .problem => "problem"
  | .bugreport => "bugreport"
  | .reminder => "reminder"
  | .unverified => "unverified"
  | .disputed => "disputed"
  | .aiFeedback => "ai-feedback"
  | .specification => "specification"
  | .constraint => "constraint"
  | .invariant => "invariant"
  | .important => "important"
  | .idea => "idea"
  | .concept => "concept"
  | .comment => "comment"
  | .verified => "verified"
  | .deprecated => "deprecated"

/-- `FLAGS`, `src/journal.rs:252`. -/
def flags : List Flag :=
  [.todo, .question, .problem, .bugreport, .reminder, .unverified, .disputed, .aiFeedback,
    .specification, .constraint, .invariant, .important, .idea, .concept, .comment, .verified,
    .deprecated]

/-- `MARKS`, `src/journal.rs:272`. -/
def marks : List Flag :=
  [.specification, .constraint, .invariant, .important, .idea, .concept, .comment, .verified,
    .deprecated]

/-- A flag that `close` closes; `src/journal.rs:279`. -/
def closable (f : Flag) : Bool := !marks.contains f

/-- How one entry refers to another; `LINK_KINDS`, `src/journal.rs:126`. -/
inductive LinkKind where
  | cites | replaces | fixes | implements | verifies
  deriving DecidableEq, Repr

/-- The name a link kind is stored and shown under. -/
def LinkKind.name : LinkKind → String
  | .cites => "cites"
  | .replaces => "replaces"
  | .fixes => "fixes"
  | .implements => "implements"
  | .verifies => "verifies"

/-- `LINK_KINDS`, `src/journal.rs:126`. -/
def linkKinds : List LinkKind := [.cites, .replaces, .fixes, .implements, .verifies]

/-- The links that make a branch; `STRUCTURAL`, `src/journal.rs:992`. -/
def structural : LinkKind → Bool
  | .implements | .verifies | .fixes => true
  | .cites | .replaces => false

/-- The names of `flags` as an error message lists them. -/
def flagNames : String := ", ".intercalate (flags.map Flag.name)

/-- One raw flag name in the form it is looked up in. -/
def flagKey (u : Unicode) (raw : String) : List Char :=
  u.toLowercase ((trim raw.toList).dropWhile (· == '#'))

/-- The flag a raw name stands for, or the refusal naming it. -/
def readFlag (u : Unicode) (raw : String) : Except String Flag :=
  match flags.find? (fun f ↦ f.name.toList == flagKey u raw) with
  | some f => .ok f
  | none =>
    let shown := String.ofList (flagKey u raw)
    .error s!"unknown flag `{shown}`: one of {flagNames}"

/-- Known flags without repetition in `flags` order; `src/journal.rs:284`. -/
def normalizeFlags (u : Unicode) (raw : List String) : Except String (List Flag) :=
  (raw.mapM (readFlag u)).map fun wanted ↦ flags.filter (fun f ↦ wanted.contains f)

/-- The list of flags is complete. -/
theorem mem_flags (f : Flag) : f ∈ flags := by cases f <;> decide

/-- A flag is read by its own name, whatever the Unicode tables say beyond ASCII. -/
theorem readFlag_name (u : Unicode) (f : Flag) : readFlag u f.name = .ok f := by
  have hplain : (trim f.name.toList).dropWhile (· == '#') = f.name.toList ∧
      f.name.toList.map Char.toLower = f.name.toList ∧
      f.name.toList.all (fun c ↦ decide (c.toNat < 128)) = true := by
    cases f <;> decide
  obtain ⟨htrim, hlower, hascii⟩ := hplain
  have hkey : flagKey u f.name = f.name.toList := by
    rw [flagKey, htrim, u.toLowercase_ascii _ (by simpa using hascii), hlower]
  have hfind : flags.find? (fun g ↦ g.name.toList == f.name.toList) = some f := by
    cases f <;> decide
  rw [readFlag, hkey, hfind]

theorem normalizeFlags_names (u : Unicode) (named : List Flag) :
    normalizeFlags u (named.map Flag.name) = .ok (flags.filter fun f ↦ named.contains f) := by
  have hread : (named.map Flag.name).mapM (readFlag u) = .ok named := by
    induction named with
    | nil => rfl
    | cons f named ih =>
      rw [List.map_cons, List.mapM_cons, readFlag_name, ih]
      rfl
  rw [normalizeFlags, hread]
  rfl

theorem normalizeFlags_name (u : Unicode) (f : Flag) : normalizeFlags u [f.name] = .ok [f] := by
  have h := normalizeFlags_names u [f]
  rw [List.map_singleton] at h
  rw [h]
  congr 1
  cases f <;> decide

example : normalizeFlags .ascii ["#Todo", " verified ", "todo"] = .ok [.todo, .verified] := by
  decide

end Claudebase.Journal
