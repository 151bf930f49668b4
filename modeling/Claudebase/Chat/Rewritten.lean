import Claudebase.Chat.Lines

/-!
# Paths that are moved

`src/chat_clone.rs:427–439`. A path at or below the old root goes below the new one, component by
component, with the separators of the new root. It comes back from there where its separators were
those of the old root.
-/

namespace Claudebase.Chat
open Claudebase.Base

/-- The root itself or a path below it, on the boundary of a component. -/
def Under (path root : List Char) : Prop :=
  path = trimSeparators root ∨
    ∃ c rest, isSeparator c = true ∧ path = trimSeparators root ++ c :: rest

/-- The style of a root: backslashes where it has them and no slash. -/
def separatorOf (root : List Char) : Char := if '\\' ∈ root ∧ '/' ∉ root then '\\' else '/'

/-- What is below the root. -/
def belowRoot (path root : List Char) : List Char := path.drop (trimSeparators root).length

/-- Every separator made one of the given style. -/
def withSeparator (separator : Char) (s : List Char) : List Char :=
  s.map fun c ↦ if isSeparator c then separator else c

theorem isSeparator_separatorOf (root : List Char) : isSeparator (separatorOf root) = true := by
  unfold separatorOf
  split <;> rfl

theorem under_iff {path root : List Char} : Under path root ↔
    ∃ rest, path = trimSeparators root ++ rest ∧
      (rest = [] ∨ rest.head?.any isSeparator = true) := by
  constructor
  · rintro (rfl | ⟨c, rest, hc, rfl⟩)
    · exact ⟨[], (List.append_nil _).symm, .inl rfl⟩
    · exact ⟨c :: rest, rfl, .inr hc⟩
  · rintro ⟨rest, rfl, hrest⟩
    cases rest with
    | nil => exact .inl (List.append_nil _)
    | cons c rest =>
      rcases hrest with hrest | hrest
      · cases hrest
      · exact .inr ⟨c, rest, hrest, rfl⟩

/-- What a path at or below the root is moved to. -/
theorem movePath_of_append {src rest : List Char}
    (h : rest = [] ∨ rest.head?.any isSeparator = true) (dst : List Char) :
    movePath (trimSeparators src ++ rest) src dst =
      some (trimSeparators dst ++ withSeparator (separatorOf (trimSeparators dst)) rest) := by
  simp only [movePath, List.prefix_append, if_true, List.drop_left, if_pos h, withSeparator,
    separatorOf]

/-- Where a path is moved to. -/
theorem movePath_eq_some_iff {path src dst moved : List Char} :
    movePath path src dst = some moved ↔ ∃ rest, path = trimSeparators src ++ rest ∧
      (rest = [] ∨ rest.head?.any isSeparator = true) ∧
      moved = trimSeparators dst ++ withSeparator (separatorOf (trimSeparators dst)) rest := by
  constructor
  · intro h
    by_cases hpre : trimSeparators src <+: path
    · obtain ⟨rest, rfl⟩ := hpre
      by_cases hrest : rest = [] ∨ rest.head?.any isSeparator = true
      · rw [movePath_of_append hrest] at h
        exact ⟨rest, rfl, hrest, (Option.some.inj h).symm⟩
      · simp only [movePath, List.prefix_append, if_true, List.drop_left, if_neg hrest] at h
        cases h
    · simp only [movePath, if_neg hpre] at h
      cases h
  · rintro ⟨rest, rfl, hrest, rfl⟩
    exact movePath_of_append hrest dst

/-- A path is moved just if it is at or below the old root. -/
theorem isSome_movePath_iff {path src dst : List Char} :
    (movePath path src dst).isSome = true ↔ Under path src := by
  rw [Option.isSome_iff_exists, under_iff]
  simp only [movePath_eq_some_iff]
  constructor
  · rintro ⟨moved, rest, hpath, hrest, -⟩
    exact ⟨rest, hpath, hrest⟩
  · rintro ⟨rest, hpath, hrest⟩
    exact ⟨_, rest, hpath, hrest, rfl⟩

theorem movePath_eq_none_iff {path src dst : List Char} :
    movePath path src dst = none ↔ ¬ Under path src := by
  rw [← @isSome_movePath_iff path src dst, Option.not_isSome_iff_eq_none]

/-! ### Components -/

section

variable {separator : Char} (h : isSeparator separator = true)
include h

theorem isSeparator_withSeparator (c : Char) :
    isSeparator (if isSeparator c then separator else c) = isSeparator c := by
  split
  · next hc => rw [h, hc]
  · rfl

/-- Components stay as they are. -/
theorem splitOnP_withSeparator (s : List Char) :
    (withSeparator separator s).splitOnP isSeparator = s.splitOnP isSeparator := by
  induction s with
  | nil => rfl
  | cons c s ih =>
    rw [withSeparator, List.map_cons, List.splitOnP_cons_eq_if_modifyHead,
      List.splitOnP_cons_eq_if_modifyHead, isSeparator_withSeparator h, ← withSeparator, ih]
    by_cases hc : isSeparator c = true
    · rw [if_pos hc, if_pos hc]
    · rw [if_neg hc, if_neg hc, if_neg hc]

/-- The last style is the one that stays. -/
theorem withSeparator_withSeparator (other : Char) (s : List Char) :
    withSeparator other (withSeparator separator s) = withSeparator other s := by
  simp only [withSeparator, List.map_map]
  refine List.map_congr_left fun c _ ↦ ?_
  rw [Function.comp_apply, isSeparator_withSeparator h]
  split <;> simp_all

/-- A path that starts with a separator still does. -/
theorem head?_withSeparator {s : List Char} (hs : s = [] ∨ s.head?.any isSeparator = true) :
    withSeparator separator s = [] ∨ (withSeparator separator s).head?.any isSeparator = true := by
  rcases hs with rfl | hs
  · exact .inl rfl
  · cases s with
    | nil => cases hs
    | cons c s =>
      right
      rw [withSeparator, List.map_cons, List.head?_cons, Option.any_some,
        isSeparator_withSeparator h]
      exact hs

end

theorem withSeparator_eq_self_iff {separator : Char} {s : List Char} :
    withSeparator separator s = s ↔ ∀ c ∈ s, isSeparator c = true → c = separator := by
  induction s with
  | nil => simp [withSeparator]
  | cons c s ih =>
    rw [withSeparator, List.map_cons, List.cons_eq_cons, ← withSeparator, ih,
      List.forall_mem_cons]
    apply and_congr_left'
    split
    · next hc => exact ⟨fun heq _ ↦ heq.symm, fun heq ↦ (heq hc).symm⟩
    · next hc => exact ⟨fun _ hsep ↦ absurd hsep hc, fun _ ↦ rfl⟩

/-- What is moved below another root is below that. -/
theorem belowRoot_movePath {path src dst moved : List Char}
    (h : movePath path src dst = some moved) :
    (belowRoot moved dst).splitOnP isSeparator = (belowRoot path src).splitOnP isSeparator := by
  obtain ⟨rest, rfl, -, rfl⟩ := movePath_eq_some_iff.mp h
  rw [belowRoot, belowRoot, List.drop_left, List.drop_left]
  exact splitOnP_withSeparator (isSeparator_separatorOf _) rest

theorem below_movePath {path src dst moved : List Char} (h : movePath path src dst = some moved) :
    Under moved dst := by
  obtain ⟨rest, -, hrest, rfl⟩ := movePath_eq_some_iff.mp h
  exact under_iff.mpr ⟨_, rfl, head?_withSeparator (isSeparator_separatorOf _) hrest⟩

/-- A path comes back just if its separators below the root are of the root's style. -/
theorem movePath_back_iff {path src dst moved : List Char}
    (h : movePath path src dst = some moved) : movePath moved dst src = some path ↔ ∀ c ∈ belowRoot path src,
      isSeparator c = true → c = separatorOf (trimSeparators src) := by
  obtain ⟨rest, rfl, hrest, rfl⟩ := movePath_eq_some_iff.mp h
  have hdst := isSeparator_separatorOf (trimSeparators dst)
  rw [movePath_of_append (head?_withSeparator hdst hrest), withSeparator_withSeparator hdst,
    Option.some_inj, List.append_right_inj, withSeparator_eq_self_iff, belowRoot, List.drop_left]

/-!
## A transcript on its way through

`src/chat_clone.rs:341–425`. The loop over the bytes writes the lines of `rewriteLines` and counts
what it writes and what it drops. A line that names neither the old conversation nor a moved
directory is written byte for byte; another one changes in three fields at most.
-/

/-! ### The loop -/

/-- `read_until`: the bytes up to a newline, which is one of them, and those behind it. -/
def readUntil : Bytes → Bytes × Bytes
  | [] => ([], [])
  | b :: bs => if b = newline then ([b], bs) else (b :: (readUntil bs).1, (readUntil bs).2)

theorem length_readUntil (bs : Bytes) :
    (readUntil bs).1.length + (readUntil bs).2.length = bs.length := by
  induction bs with
  | nil => rfl
  | cons b bs ih =>
    rw [readUntil]
    split
    · exact Nat.add_comm _ _
    · dsimp only
      rw [List.length_cons, List.length_cons]
      omega

/-- What is written, and the lines written and dropped. -/
structure Passed where
  out : Bytes
  copied : Nat
  dropped : Nat

/-- The loop of `rewrite_lines`. -/
def rewriteLoop (serde : Serde) (rw : Rewrite) (input : Bytes) (s : Passed) : Passed :=
  let read := readUntil input
  if read.1 = [] then s
  else if read.1.getLast? ≠ some newline then s
  else
    let body := read.1.dropLast
    if body.all isAsciiWhitespace then rewriteLoop serde rw read.2 s
    else
      match rewriteLine serde rw body with
      | some bytes =>
        rewriteLoop serde rw read.2 ⟨s.out ++ bytes ++ [newline], s.copied + 1, s.dropped⟩
      | none => rewriteLoop serde rw read.2 ⟨s.out, s.copied, s.dropped + 1⟩
termination_by input.length
decreasing_by
  all_goals
    have hlength := length_readUntil input
    have hread : (readUntil input).1 ≠ [] := ‹¬(readUntil input).1 = []›
    have hpos := List.length_pos_of_ne_nil hread
    show (readUntil input).2.length < input.length
    omega

/-- `rewrite_lines`. -/
def rewriteStream (serde : Serde) (rw : Rewrite) (input : Bytes) : Passed :=
  rewriteLoop serde rw input ⟨[], 0, 0⟩

/-- A JSON object whose type is dropped. -/
def isDropped (serde : Serde) (rw : Rewrite) (body : Bytes) : Bool :=
  match serde.parse body with
  | some (.obj fields) => (fieldText fields "type").any fun t ↦ rw.dropTypes.contains t
  | _ => false

theorem readUntil_torn {bs : Bytes} (h : newline ∉ bs) : readUntil bs = (bs, []) := by
  induction bs with
  | nil => rfl
  | cons b bs ih =>
    rw [List.mem_cons, not_or] at h
    rw [readUntil, if_neg (Ne.symm h.1), ih h.2]

theorem readUntil_line {line : Bytes} (h : newline ∉ line) (bs : Bytes) :
    readUntil (line ++ newline :: bs) = (line ++ [newline], bs) := by
  induction line with
  | nil => rw [List.nil_append, readUntil, if_pos rfl, List.nil_append]
  | cons b line ih =>
    rw [List.mem_cons, not_or] at h
    rw [List.cons_append, readUntil, if_neg (Ne.symm h.1), ih h.2, List.cons_append]

theorem rewriteLine_eq_none_iff_isDropped {serde : Serde} {rw : Rewrite} {body : Bytes} :
    rewriteLine serde rw body = none ↔ isDropped serde rw body = true := by
  unfold rewriteLine isDropped
  cases serde.parse body with
  | none => simp
  | some v =>
    cases v with
    | obj fields =>
      dsimp only
      split
      · next h => exact iff_of_true rfl h
      · next h =>
        cases rw.moved (rw.renamed fields).1 with
        | some cwd => exact iff_of_false (Option.some_ne_none _) h
        | none =>
          dsimp only
          split
          · exact iff_of_false (Option.some_ne_none _) h
          · exact iff_of_false (Option.some_ne_none _) h
    | _ => simp

theorem bodies_torn {torn : Bytes} (h : newline ∉ torn) : bodies torn = [] := by
  rw [bodies, splitLines_torn h, List.filter_nil]

theorem bodies_line {line : Bytes} (h : newline ∉ line) (bs : Bytes) :
    bodies (line ++ newline :: bs) =
      if line.all isAsciiWhitespace then bodies bs else line :: bodies bs := by
  rw [bodies, splitLines_cons_line h, List.filter_cons]
  cases line.all isAsciiWhitespace with
  | true => rfl
  | false => rfl

/-- The loop writes the lines of `rewriteLines`, each with its newline, and counts them and the
lines that are dropped. -/
theorem rewriteLoop_eq (serde : Serde) (rw : Rewrite) (input : Bytes) (s : Passed) :
    rewriteLoop serde rw input s =
      ⟨s.out ++ joinLines (rewriteLines serde rw input),
        s.copied + (rewriteLines serde rw input).length,
        s.dropped + ((bodies input).filter (isDropped serde rw)).length⟩ := by
  induction hlength : input.length using Nat.strong_induction_on generalizing input s with
  | h n ih =>
    rw [rewriteLoop]
    by_cases hmem : newline ∈ input
    · obtain ⟨line, rest, rfl, hline⟩ := List.eq_append_cons_of_mem hmem
      have hshort : rest.length < n := by
        rw [← hlength, List.length_append, List.length_cons]
        omega
      rw [readUntil_line hline, if_neg (by simp), if_neg (by simp), List.dropLast_concat]
      simp only [rewriteLines, bodies_line hline]
      split
      · exact ih _ hshort rest s rfl
      · cases hwritten : rewriteLine serde rw line with
        | none =>
          have hdropped := rewriteLine_eq_none_iff_isDropped.mp hwritten
          dsimp only
          rw [ih _ hshort rest _ rfl, List.filterMap_cons_none hwritten,
            List.filter_cons_of_pos hdropped, List.length_cons, rewriteLines]
          simp only [Passed.mk.injEq, true_and]
          omega
        | some bytes =>
          have hkept : ¬ isDropped serde rw line = true := by
            rw [← rewriteLine_eq_none_iff_isDropped, hwritten]
            exact Option.some_ne_none bytes
          dsimp only
          rw [ih _ hshort rest _ rfl, List.filterMap_cons_some hwritten,
            List.filter_cons_of_neg hkept, List.length_cons, joinLines_cons, rewriteLines]
          simp only [Passed.mk.injEq, List.append_assoc, List.singleton_append, true_and, and_true]
          omega
    · rw [readUntil_torn hmem]
      simp only [rewriteLines, bodies_torn hmem, List.filterMap_nil, List.filter_nil,
        joinLines_nil, List.append_nil, List.length_nil, Nat.add_zero]
      split
      · rfl
      · rw [if_pos]
        exact fun hlast ↦ hmem (List.mem_of_getLast? hlast)

/-! ### Fields -/

/-- The fields that name the conversation. -/
def idKeys : List String := ["sessionId", "session_id"]

theorem map_fst_setField (fields : List (String × Json)) (key : String) (v : Json) :
    (setField fields key v).map Prod.fst = fields.map Prod.fst := by
  rw [setField, List.map_map]
  refine List.map_congr_left fun field _ ↦ ?_
  rw [Function.comp_apply]
  split
  · next h => exact h.symm
  · rfl

/-- The other fields stay. -/
theorem lookup_setField_ne {key key' : String} (h : key' ≠ key) (fields : List (String × Json))
    (v : Json) : (setField fields key v).lookup key' = fields.lookup key' := by
  induction fields with
  | nil => rfl
  | cons field fields ih =>
    rw [setField, List.map_cons, ← setField]
    split
    · next hname =>
      rw [List.lookup_cons, List.lookup_cons, ih, hname, beq_false_of_ne h]
    · rw [List.lookup_cons, List.lookup_cons, ih]

theorem lookup_setField_self {key : String} {fields : List (String × Json)}
    (h : fields.lookup key ≠ none) (v : Json) : (setField fields key v).lookup key = some v := by
  induction fields with
  | nil => exact absurd rfl h
  | cons field fields ih =>
    rw [setField, List.map_cons, ← setField]
    split
    · rw [List.lookup_cons, beq_self_eq_true]
    · next hname =>
      rw [List.lookup_cons, beq_false_of_ne (Ne.symm hname)] at h ⊢
      exact ih h

theorem fieldText_setField_self {key c : String} {fields : List (String × Json)}
    (h : fieldText fields key = some c) (s : String) :
    fieldText (setField fields key (.str s)) key = some s := by
  have hlookup : fields.lookup key ≠ none := by
    intro hnone
    rw [fieldText, hnone] at h
    cases h
  rw [fieldText, lookup_setField_self hlookup]
  rfl

/-- One object is another but for some fields. -/
structure SameBut (keys : List String) (fields fields' : List (String × Json)) : Prop where
  names : fields'.map Prod.fst = fields.map Prod.fst
  other : ∀ key, key ∉ keys → fields'.lookup key = fields.lookup key

theorem SameBut.refl (keys : List String) (fields : List (String × Json)) :
    SameBut keys fields fields :=
  ⟨rfl, fun _ _ ↦ rfl⟩

theorem SameBut.mono {keys keys' : List String} (hkeys : keys ⊆ keys')
    {fields fields' : List (String × Json)} (h : SameBut keys fields fields') :
    SameBut keys' fields fields' :=
  ⟨h.names, fun key hkey ↦ h.other key fun hmem ↦ hkey (hkeys hmem)⟩

theorem SameBut.trans {keys : List String} {fields fields' fields'' : List (String × Json)}
    (h : SameBut keys fields fields') (h' : SameBut keys fields' fields'') :
    SameBut keys fields fields'' :=
  ⟨h'.names.trans h.names, fun key hkey ↦ (h'.other key hkey).trans (h.other key hkey)⟩

theorem SameBut.fieldText {keys : List String} {fields fields' : List (String × Json)}
    (h : SameBut keys fields fields') {key : String} (hkey : key ∉ keys) :
    fieldText fields' key = fieldText fields key := by
  rw [Chat.fieldText, Chat.fieldText, h.other key hkey]

theorem SameBut.setField {keys : List String} {fields fields' : List (String × Json)}
    (h : SameBut keys fields fields') {key : String} (hkey : key ∈ keys) (v : Json) :
    SameBut keys fields (Chat.setField fields' key v) where
  names := by rw [map_fst_setField, h.names]
  other key' hkey' := by
    have hne : key' ≠ key := fun heq ↦ hkey' (heq ▸ hkey)
    rw [lookup_setField_ne hne, h.other key' hkey']

namespace Rewrite

variable (rw : Rewrite)

/-- One field: it does not name the old conversation afterwards, and nothing happens where it did
not before. -/
theorem rename_spec (hne : rw.sourceId ≠ rw.newId) (s : List (String × Json) × Bool)
    (key : String) : SameBut [key] s.1 (rw.rename s key).1 ∧
      fieldText (rw.rename s key).1 key ≠ some rw.sourceId ∧
      (fieldText s.1 key ≠ some rw.sourceId → rw.rename s key = s) ∧
      ((rw.rename s key).2 = false → s.2 = false ∧ fieldText s.1 key ≠ some rw.sourceId) := by
  unfold rename
  split
  · next h =>
    refine ⟨(SameBut.refl _ _).setField (List.mem_singleton.mpr rfl) _, ?_, fun h' ↦ absurd h h',
      fun h' ↦ Bool.noConfusion h'⟩
    rw [fieldText_setField_self h]
    exact fun heq ↦ hne (Option.some.inj heq).symm
  · next h => exact ⟨SameBut.refl _ _, h, fun _ ↦ rfl, fun h' ↦ ⟨h', h⟩⟩

/-- Both fields. -/
theorem renamed_spec (fields : List (String × Json)) :
    SameBut idKeys fields (rw.renamed fields).1 ∧
      (rw.sourceId ≠ rw.newId → ∀ key ∈ idKeys,
        fieldText (rw.renamed fields).1 key ≠ some rw.sourceId) ∧
      ((∀ key ∈ idKeys, fieldText fields key ≠ some rw.sourceId) →
        rw.renamed fields = (fields, false)) ∧
      ((rw.renamed fields).2 = false → (rw.renamed fields).1 = fields) := by
  by_cases hne : rw.sourceId ≠ rw.newId
  · obtain ⟨hsame, hnot, hstay, hfalse⟩ := rw.rename_spec hne (fields, false) "sessionId"
    obtain ⟨hsame', hnot', hstay', hfalse'⟩ :=
      rw.rename_spec hne (rw.rename (fields, false) "sessionId") "session_id"
    have hrenamed : rw.renamed fields =
        rw.rename (rw.rename (fields, false) "sessionId") "session_id" := by
      rw [renamed, if_pos hne]
      rfl
    rw [hrenamed]
    refine ⟨(hsame.mono (by decide)).trans (hsame'.mono (by decide)), fun _ ↦ ?_, fun h ↦ ?_,
      fun h ↦ ?_⟩
    · intro key hkey
      rcases List.mem_pair.mp hkey with rfl | rfl
      · rw [hsame'.fieldText (by decide)]
        exact hnot
      · exact hnot'
    · have hfirst := hstay (h "sessionId" (by decide))
      rw [hfirst] at hstay' ⊢
      exact hstay' (h "session_id" (by decide))
    · obtain ⟨hchanged, hnamed'⟩ := hfalse' h
      rw [hstay' hnamed', hstay (hfalse hchanged).2]
  · have hrenamed : rw.renamed fields = (fields, false) := if_neg hne
    rw [hrenamed]
    exact ⟨SameBut.refl _ _, fun h ↦ absurd h hne, fun _ ↦ rfl, fun _ ↦ rfl⟩

/-- The fields of an object that is rewritten. -/
def rewritten (fields : List (String × Json)) : List (String × Json) :=
  match rw.moved (rw.renamed fields).1 with
  | some cwd => setField (rw.renamed fields).1 "cwd" (.str cwd)
  | none => (rw.renamed fields).1

/-- The object names the old conversation, or a directory that is moved. -/
def Names (fields : List (String × Json)) : Prop :=
  (∃ key ∈ idKeys, fieldText fields key = some rw.sourceId) ∨
    ∃ src dst cwd, rw.cwd = some (src, dst) ∧ fieldText fields "cwd" = some cwd ∧
      Under cwd.toList src.toList

theorem rewritten_same (fields : List (String × Json)) :
    SameBut ("cwd" :: idKeys) fields (rw.rewritten fields) := by
  have hsame := (rw.renamed_spec fields).1.mono (List.subset_cons_self "cwd" idKeys)
  unfold rewritten
  split
  · exact hsame.setField List.mem_cons_self _
  · exact hsame

theorem rewritten_id (hne : rw.sourceId ≠ rw.newId) (fields : List (String × Json))
    {key : String} (hkey : key ∈ idKeys) :
    fieldText (rw.rewritten fields) key ≠ some rw.sourceId := by
  have hnot := (rw.renamed_spec fields).2.1 hne key hkey
  unfold rewritten
  split
  · next cwd hcwd =>
    have hcwd : key ∉ ["cwd"] := by
      intro hmem
      rw [List.mem_singleton.mp hmem] at hkey
      exact absurd hkey (by decide)
    rw [((SameBut.refl ["cwd"] _).setField (List.mem_singleton.mpr rfl) _).fieldText hcwd]
    exact hnot
  · exact hnot

/-- Nothing is moved where no directory is named that is. -/
theorem moved_eq_none_iff (fields : List (String × Json)) :
    rw.moved fields = none ↔ ¬ ∃ src dst cwd, rw.cwd = some (src, dst) ∧
      fieldText fields "cwd" = some cwd ∧ Under cwd.toList src.toList := by
  simp only [moved, Option.bind_eq_none_iff, Option.map_eq_none_iff, Prod.forall, not_exists,
    not_and, movePath_eq_none_iff]
  exact ⟨fun h src dst cwd hrw hcwd ↦ h src dst hrw cwd hcwd,
    fun h src dst hrw cwd hcwd ↦ h src dst cwd hrw hcwd⟩

end Rewrite

/-! ### Lines -/

/-- What the JSON library makes of an object that was read and rewritten: one line, which is read
as that object. -/
structure Inverse (serde : Serde) (rw : Rewrite) : Prop where
  back : ∀ line fields, serde.parse line = some (.obj fields) →
    serde.parse (serde.print (.obj (rw.rewritten fields))) = some (.obj (rw.rewritten fields))
  line : ∀ line fields, serde.parse line = some (.obj fields) →
    newline ∉ serde.print (.obj (rw.rewritten fields))

/-- A line as it is written: byte for byte, but for an object that names the old conversation or a
moved directory; that changes in the fields for those only. -/
structure Changes (serde : Serde) (rw : Rewrite) (body line : Bytes) : Prop where
  stays : (∀ fields, serde.parse body = some (.obj fields) → ¬ rw.Names fields) → line = body
  changed : line ≠ body → ∃ fields fields', serde.parse body = some (.obj fields) ∧
    serde.parse line = some (.obj fields') ∧ SameBut ("cwd" :: idKeys) fields fields'

/-- A line that is not dropped stays, or is the rewritten object. -/
theorem rewriteLine_cases {serde : Serde} {rw : Rewrite} {body line : Bytes}
    (h : rewriteLine serde rw body = some line) :
    line = body ∧ (∀ fields, serde.parse body = some (.obj fields) → rw.rewritten fields = fields) ∨
      ∃ fields, serde.parse body = some (.obj fields) ∧ rw.Names fields ∧
        line = serde.print (.obj (rw.rewritten fields)) := by
  have hnames (fields : List (String × Json)) :
      rw.moved (rw.renamed fields).1 = rw.moved fields := by
    rw [Rewrite.moved, Rewrite.moved, (rw.renamed_spec fields).1.fieldText (by decide)]
  unfold rewriteLine at h
  cases hparse : serde.parse body with
  | none =>
    rw [hparse] at h
    exact .inl ⟨(Option.some.inj h).symm, nofun⟩
  | some v =>
    rw [hparse] at h
    cases v with
    | obj fields =>
      obtain ⟨-, -, hstay, hfalse⟩ := rw.renamed_spec fields
      dsimp only at h
      split at h
      · cases h
      · cases hmoved : rw.moved (rw.renamed fields).1 with
        | some cwd =>
          rw [hmoved] at h
          refine .inr ⟨fields, rfl, .inr ?_, ?_⟩
          · by_contra hnone
            rw [← rw.moved_eq_none_iff, ← hnames, hmoved] at hnone
            cases hnone
          · rw [← Option.some.inj h, Rewrite.rewritten, hmoved]
        | none =>
          rw [hmoved] at h
          dsimp only at h
          split at h
          · next hchanged =>
            refine .inr ⟨fields, rfl, .inl ?_, ?_⟩
            · by_contra hnone
              rw [hstay fun key hkey heq ↦ hnone ⟨key, hkey, heq⟩] at hchanged
              cases hchanged
            · rw [← Option.some.inj h, Rewrite.rewritten, hmoved]
          · next hchanged =>
            refine .inl ⟨(Option.some.inj h).symm, fun fields' hfields ↦ ?_⟩
            cases hfields
            rw [Rewrite.rewritten, hmoved]
            exact hfalse (Bool.not_eq_true _ ▸ hchanged)
    | _ =>
      exact .inl ⟨(Option.some.inj h).symm, nofun⟩

/-- What is written for a line. -/
theorem rewriteLine_changes {serde : Serde} {rw : Rewrite} (h : Inverse serde rw)
    {body line : Bytes} (hline : rewriteLine serde rw body = some line) :
    Changes serde rw body line := by
  rcases rewriteLine_cases hline with ⟨rfl, -⟩ | ⟨fields, hparse, hnames, rfl⟩
  · exact ⟨fun _ ↦ rfl, fun hne ↦ absurd rfl hne⟩
  · exact ⟨fun hnot ↦ absurd hnames (hnot fields hparse),
      fun _ ↦ ⟨fields, rw.rewritten fields, hparse, h.back body fields hparse,
        rw.rewritten_same fields⟩⟩

theorem rewriteLine_plain {serde : Serde} {rw : Rewrite} (h : Inverse serde rw)
    {body line : Bytes} (hbody : newline ∉ body) (hline : rewriteLine serde rw body = some line) :
    newline ∉ line := by
  rcases rewriteLine_cases hline with ⟨rfl, -⟩ | ⟨fields, hparse, -, rfl⟩
  · exact hbody
  · exact h.line body fields hparse

/-- No object that is written names the old conversation. -/
theorem rewriteLine_id {serde : Serde} {rw : Rewrite} (h : Inverse serde rw)
    (hne : rw.sourceId ≠ rw.newId) {body line : Bytes}
    (hline : rewriteLine serde rw body = some line) {fields : List (String × Json)}
    (hparse : serde.parse line = some (.obj fields)) {key : String} (hkey : key ∈ idKeys) :
    fieldText fields key ≠ some rw.sourceId := by
  rcases rewriteLine_cases hline with ⟨rfl, hsame⟩ | ⟨fields', hparse', -, rfl⟩
  · rw [← hsame fields hparse]
    exact rw.rewritten_id hne fields hkey
  · rw [h.back body fields' hparse'] at hparse
    cases hparse
    exact rw.rewritten_id hne fields' hkey

/-- The lines that are written, one for each line that is not dropped. -/
theorem forall₂_rewriteLines {serde : Serde} {rw : Rewrite} (h : Inverse serde rw)
    (bodies : List Bytes) :
    List.Forall₂ (Changes serde rw) (bodies.filter fun body ↦ !isDropped serde rw body)
      (bodies.filterMap (rewriteLine serde rw)) := by
  induction bodies with
  | nil => exact .nil
  | cons body bodies ih =>
    cases hwritten : rewriteLine serde rw body with
    | none =>
      have hdropped := rewriteLine_eq_none_iff_isDropped.mp hwritten
      rw [List.filterMap_cons_none hwritten, List.filter_cons_of_neg (by simp [hdropped])]
      exact ih
    | some line =>
      have hkept : isDropped serde rw body = false := by
        rw [← Bool.not_eq_true, ← rewriteLine_eq_none_iff_isDropped, hwritten]
        exact Option.some_ne_none line
      rw [List.filterMap_cons_some hwritten, List.filter_cons_of_pos (by simp [hkept])]
      exact .cons (rewriteLine_changes h hwritten) ih

/-- Rewriting a transcript changes what it must, and a path moves as a whole: the loop writes, in
order, the lines that are not dropped, and counts them; and a path that is moved comes back just if
its separators are of the style of the root it left. -/
theorem rewriting_ok {serde : Serde} {rw : Rewrite} (h : Inverse serde rw) (input : Bytes) :
    (∃ lines, rewriteStream serde rw input =
        ⟨joinLines lines, lines.length, ((bodies input).filter (isDropped serde rw)).length⟩ ∧
      (∀ line ∈ lines, newline ∉ line) ∧
      List.Forall₂ (Changes serde rw)
        ((bodies input).filter fun body ↦ !isDropped serde rw body) lines ∧
      (rw.sourceId ≠ rw.newId → ∀ line ∈ lines, ∀ fields,
        serde.parse line = some (.obj fields) → ∀ key ∈ idKeys,
          fieldText fields key ≠ some rw.sourceId)) ∧
    ∀ path src dst, ((movePath path src dst).isSome = true ↔ Under path src) ∧
      ∀ moved, movePath path src dst = some moved → Under moved dst ∧
        (belowRoot moved dst).splitOnP isSeparator = (belowRoot path src).splitOnP isSeparator ∧
        (separatorOf (trimSeparators src) = separatorOf src →
          (movePath moved dst src = some path ↔
            ∀ c ∈ belowRoot path src, isSeparator c = true → c = separatorOf src)) := by
  constructor
  · refine ⟨rewriteLines serde rw input, ?_, ?_, forall₂_rewriteLines h (bodies input), ?_⟩
    · rw [rewriteStream, rewriteLoop_eq]
      simp only [List.nil_append, Nat.zero_add]
    · intro line hline
      obtain ⟨body, hbody, hwritten⟩ := List.mem_filterMap.mp hline
      exact rewriteLine_plain h (newline_not_mem input body (List.mem_of_mem_filter hbody)) hwritten
    · intro hne line hline fields hparse key hkey
      obtain ⟨body, -, hwritten⟩ := List.mem_filterMap.mp hline
      exact rewriteLine_id h hne hwritten hparse hkey
  · intro path src dst
    refine ⟨isSome_movePath_iff, fun moved hmoved ↦ ⟨below_movePath hmoved,
      belowRoot_movePath hmoved, fun hstyle ↦ ?_⟩⟩
    rw [movePath_back_iff hmoved, hstyle]

/-- A line of the conversation `S` in the project `/a`. -/
def noteLine : Bytes := ascii "\x7b\"cwd\":\"/a/b\",\"sessionId\":\"S\"\x7d"

/-- It is carried to the conversation `N` in `/x`. -/
def noteRewrite : Rewrite := ⟨"S", "N", ["bridge-session"], some ("/a", "/x")⟩

def noteMoved : Bytes := ascii "\x7b\"cwd\":\"/x/b\",\"sessionId\":\"N\"\x7d"

/-- The two lines as the library reads and prints them. -/
def noteSerde : Serde where
  parse line :=
    if line = noteLine then some (.obj [("cwd", .str "/a/b"), ("sessionId", .str "S")])
    else if line = noteMoved then some (.obj [("cwd", .str "/x/b"), ("sessionId", .str "N")])
    else none
  print
    | .obj [("cwd", .str cwd), ("sessionId", .str id)] =>
      ascii ("\x7b\"cwd\":\"" ++ cwd ++ "\",\"sessionId\":\"" ++ id ++ "\"\x7d")
    | _ => []

theorem noteSerde_inverse : Inverse noteSerde noteRewrite := by
  have hread : ∀ line fields, noteSerde.parse line = some (.obj fields) →
      fields = [("cwd", .str "/a/b"), ("sessionId", .str "S")] ∨
        fields = [("cwd", .str "/x/b"), ("sessionId", .str "N")] := by
    intro line fields h
    simp only [noteSerde] at h
    split at h
    · cases h
      exact .inl rfl
    · split at h
      · cases h
        exact .inr rfl
      · cases h
  have hmoved : noteSerde.parse noteMoved =
      some (.obj [("cwd", .str "/x/b"), ("sessionId", .str "N")]) := by
    have hne : noteMoved ≠ noteLine := by decide +kernel
    simp only [noteSerde, if_neg hne, if_true]
  have hto : noteRewrite.rewritten [("cwd", .str "/a/b"), ("sessionId", .str "S")] =
      [("cwd", .str "/x/b"), ("sessionId", .str "N")] := by
    rfl
  have hstay : noteRewrite.rewritten [("cwd", .str "/x/b"), ("sessionId", .str "N")] =
      [("cwd", .str "/x/b"), ("sessionId", .str "N")] := by
    rfl
  have hprint : noteSerde.print (.obj [("cwd", .str "/x/b"), ("sessionId", .str "N")]) =
      noteMoved := by
    decide +kernel
  have hline : newline ∉ noteMoved := by decide +kernel
  constructor
  · intro line fields h
    rcases hread line fields h with rfl | rfl
    · rw [hto, hprint, hmoved]
    · rw [hstay, hprint, hmoved]
  · intro line fields h
    rcases hread line fields h with rfl | rfl
    · rw [hto, hprint]
      exact hline
    · rw [hstay, hprint]
      exact hline

/-- Nothing that is written of this line and a torn one names the old conversation. -/
theorem rewriting_note :
    ∃ lines, rewriteStream noteSerde noteRewrite (noteLine ++ newline :: noteLine) =
        ⟨joinLines lines, lines.length, 0⟩ ∧
      ∀ line ∈ lines, ∀ fields, noteSerde.parse line = some (.obj fields) →
        fieldText fields "sessionId" ≠ some "S" := by
  obtain ⟨⟨lines, hstream, -, -, hid⟩, -⟩ :=
    rewriting_ok noteSerde_inverse (noteLine ++ newline :: noteLine)
  refine ⟨lines, ?_, fun line hline fields hparse ↦
    hid (by decide) line hline fields hparse "sessionId" (by decide)⟩
  have hdropped : ((bodies (noteLine ++ newline :: noteLine)).filter
      (isDropped noteSerde noteRewrite)).length = 0 := by
    decide +kernel
  rw [hstream, hdropped]

/-- A name with a backslash in it becomes two components. -/
theorem movePath_mixed :
    movePath "/a/b\\c".toList "/a".toList "/x".toList = some "/x/b/c".toList ∧
      movePath "/x/b/c".toList "/x".toList "/a".toList = some "/a/b/c".toList ∧
      "/a/b\\c".toList ≠ "/a/b/c".toList := by
  refine ⟨by decide, by decide, by decide⟩

end Claudebase.Chat
