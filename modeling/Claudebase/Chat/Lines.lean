import Claudebase.Base.Json

/-!
# Transcript lines

`src/chat_clone.rs:78–84,248–258,317–425`. A transcript is bytes, one JSON object a line. Rewriting
one leaves out a torn last line, blank lines and lines of given types; it names the new
conversation in the others and moves their `cwd`. A line that is changed is printed anew.
-/

namespace Claudebase.Chat
open Claudebase.Base

/-- The bytes of a file. -/
abbrev Bytes := List UInt8

/-- The bytes of an ASCII text. -/
def ascii (s : String) : Bytes := s.toList.map fun c ↦ c.toNat.toUInt8

/-- `b'\n'`. -/
def newline : UInt8 := 10

/-! ### Lines -/

/-- One more byte in front of lines and what is after the last. -/
def pushByte (b : UInt8) (s : List Bytes × Bytes) : List Bytes × Bytes :=
  if b = newline then ([] :: s.1, s.2)
  else
    match s.1 with
    | [] => ([], b :: s.2)
    | line :: rest => ((b :: line) :: rest, s.2)

/-- The lines that end in a newline, without it, and what is after the last. -/
def splitLines (bs : Bytes) : List Bytes × Bytes := bs.foldr pushByte ([], [])

/-- Lines, each with its newline. -/
def joinLines (lines : List Bytes) : Bytes := lines.flatMap fun line ↦ line ++ [newline]

@[simp] theorem joinLines_nil : joinLines [] = [] := rfl

@[simp] theorem joinLines_cons (line : Bytes) (lines : List Bytes) :
    joinLines (line :: lines) = line ++ newline :: joinLines lines := by
  simp [joinLines]

theorem splitLines_cons (b : UInt8) (bs : Bytes) :
    splitLines (b :: bs) = pushByte b (splitLines bs) := rfl

/-- What has no newline is torn. -/
theorem splitLines_torn {torn : Bytes} (h : newline ∉ torn) : splitLines torn = ([], torn) := by
  induction torn with
  | nil => rfl
  | cons b bs ih =>
    rw [List.mem_cons, not_or] at h
    rw [splitLines_cons, ih h.2, pushByte, if_neg (Ne.symm h.1)]

theorem splitLines_cons_line {line : Bytes} (h : newline ∉ line) (bs : Bytes) :
    splitLines (line ++ newline :: bs) = (line :: (splitLines bs).1, (splitLines bs).2) := by
  induction line with
  | nil => rw [List.nil_append, splitLines_cons, pushByte, if_pos rfl]
  | cons b line ih =>
    rw [List.mem_cons, not_or] at h
    rw [List.cons_append, splitLines_cons, ih h.2, pushByte, if_neg (Ne.symm h.1)]

/-- Lines without newlines are read back. -/
theorem splitLines_joinLines {lines : List Bytes} (h : ∀ line ∈ lines, newline ∉ line)
    {torn : Bytes} (htorn : newline ∉ torn) : splitLines (joinLines lines ++ torn) = (lines, torn) := by
  induction lines with
  | nil => exact splitLines_torn htorn
  | cons line lines ih =>
    rw [List.forall_mem_cons] at h
    rw [joinLines_cons, List.append_assoc, List.cons_append, splitLines_cons_line h.1, ih h.2]

/-- A line has no newline in it. -/
theorem newline_not_mem (bs : Bytes) : ∀ line ∈ (splitLines bs).1, newline ∉ line := by
  induction bs with
  | nil => simp [splitLines]
  | cons b bs ih =>
    rw [splitLines_cons, pushByte]
    split
    · exact List.forall_mem_cons.mpr ⟨List.not_mem_nil, ih⟩
    · next hb =>
      cases hlines : (splitLines bs).1 with
      | nil => simp
      | cons line rest =>
        rw [hlines, List.forall_mem_cons] at ih
        refine List.forall_mem_cons.mpr ⟨?_, ih.2⟩
        rw [List.mem_cons, not_or]
        exact ⟨Ne.symm hb, ih.1⟩

/-- `u8::is_ascii_whitespace`. -/
def isAsciiWhitespace (b : UInt8) : Bool := b = 9 || b = 10 || b = 12 || b = 13 || b = 32

/-- The complete lines that are not blank. -/
def bodies (bs : Bytes) : List Bytes :=
  (splitLines bs).1.filter fun line ↦ !line.all isAsciiWhitespace

/-! ### JSON -/

/-- What a line or a file is read as, and how a value is printed on one line; the fields of an
object are in the order of their names. -/
structure Serde where
  parse : Bytes → Option Json
  print : Json → Bytes

/-- Another value for a field that is there. -/
def setField (fields : List (String × Json)) (key : String) (v : Json) : List (String × Json) :=
  fields.map fun field ↦ if field.1 = key then (key, v) else field

/-- The text of a field. -/
def fieldText (fields : List (String × Json)) (key : String) : Option String :=
  (fields.lookup key).bind Json.asStr?

/-! ### Paths -/

/-- `project_slug`. -/
def projectSlug (cwd : String) : String :=
  String.ofList (cwd.toList.map fun c ↦ if c.isAlphanum then c else '-')

/-- Either separator. -/
def isSeparator (c : Char) : Bool := c = '/' || c = '\\'

/-- `trim_end_matches(['/', '\\'])`. -/
def trimSeparators (s : List Char) : List Char := (s.reverse.dropWhile isSeparator).reverse

/-- `move_path`: `path` moved from under `src` to under `dst`. -/
def movePath (path src dst : List Char) : Option (List Char) :=
  let src := trimSeparators src
  if src <+: path then
    let rest := path.drop src.length
    if rest = [] ∨ rest.head?.any isSeparator = true then
      let dst := trimSeparators dst
      let separator := if '\\' ∈ dst ∧ '/' ∉ dst then '\\' else '/'
      some (dst ++ rest.map fun c ↦ if isSeparator c then separator else c)
    else none
  else none

/-! ### Rewriting -/

/-- `Rewrite`. -/
structure Rewrite where
  sourceId : String
  newId : String
  dropTypes : List String
  cwd : Option (String × String)

/-- One of the two fields that name the conversation. -/
def Rewrite.rename (rw : Rewrite) (s : List (String × Json) × Bool) (key : String) :
    List (String × Json) × Bool :=
  if fieldText s.1 key = some rw.sourceId then (setField s.1 key (.str rw.newId), true) else s

/-- Both, where the conversation gets another id. -/
def Rewrite.renamed (rw : Rewrite) (fields : List (String × Json)) :
    List (String × Json) × Bool :=
  if rw.sourceId ≠ rw.newId then ["sessionId", "session_id"].foldl rw.rename (fields, false)
  else (fields, false)

/-- Where `cwd` is moved to. -/
def Rewrite.moved (rw : Rewrite) (fields : List (String × Json)) : Option String :=
  rw.cwd.bind fun (src, dst) ↦ (fieldText fields "cwd").bind fun cwd ↦
    (movePath cwd.toList src.toList dst.toList).map String.ofList

/-- `rewrite_line`; nothing where the line is dropped. -/
def rewriteLine (serde : Serde) (rw : Rewrite) (body : Bytes) : Option Bytes :=
  match serde.parse body with
  | some (.obj fields) =>
    if (fieldText fields "type").any fun t ↦ rw.dropTypes.contains t then none
    else
      match rw.moved (rw.renamed fields).1 with
      | some cwd => some (serde.print (.obj (setField (rw.renamed fields).1 "cwd" (.str cwd))))
      | none =>
        if (rw.renamed fields).2 then some (serde.print (.obj (rw.renamed fields).1)) else some body
  | _ => some body

/-- `rewrite_lines`: the lines written. -/
def rewriteLines (serde : Serde) (rw : Rewrite) (bs : Bytes) : List Bytes :=
  (bodies bs).filterMap (rewriteLine serde rw)

/-- `append_title`. -/
def titleLines (serde : Serde) (id name : String) : List Bytes :=
  [serde.print (.obj [("customTitle", .str name), ("sessionId", .str id),
      ("type", .str "custom-title")]),
    serde.print (.obj [("agentName", .str name), ("sessionId", .str id),
      ("type", .str "agent-name")])]

end Claudebase.Chat
