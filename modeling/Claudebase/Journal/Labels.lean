import Claudebase.Base.Words
import Claudebase.Journal.Calls
import Claudebase.Journal.Listing

/-!
# Labels are found under the name they are listed by

`src/journal.rs:446–463,1219,1243,1549–1565`. A label is brought into its normal form when it is
stored and again when it is asked for. One `#` is dropped each time, so a label that still begins
with one after the first is asked for under another name; every other one is asked for under its
own, and listed as often as it is counted.
-/

namespace Claudebase.Journal
open Claudebase.Base

/-! ### The promise -/

/-- What lowercasing does beyond ASCII. A character of a lowercased text is lowercase in any text,
and a text that begins with a character other than white space still does, with a `#` only if it
did. -/
structure LowercaseLaws (u : Unicode) : Prop where
  stable : ∀ s t, (∀ c ∈ t, c ∈ u.toLowercase s ∨ c = '-') → u.toLowercase t = t
  head : ∀ c s, isWhitespace c = false →
    ∃ d rest, u.toLowercase (c :: s) = d :: rest ∧ isWhitespace d = false ∧ (d = '#' ↔ c = '#')

/-- ASCII lowercasing leaves a character or makes a letter of it. -/
private theorem toLower_cases (c : Char) : c.toLower = c ∨ c.toLower.toLower = c.toLower ∧
    isWhitespace c.toLower = false ∧ c.toLower ≠ '#' ∧ c ≠ '#' := by
  by_cases hupper : 'A' ≤ c ∧ c ≤ 'Z'
  · have hletters : ∀ n < 128, 'A' ≤ Char.ofNat n → Char.ofNat n ≤ 'Z' →
        (Char.ofNat n).toLower.toLower = (Char.ofNat n).toLower ∧
        isWhitespace (Char.ofNat n).toLower = false ∧ (Char.ofNat n).toLower ≠ '#' ∧
        Char.ofNat n ≠ '#' := by
      decide +kernel
    have hlt : c.toNat < 128 := by
      have := UInt32.le_iff_toNat_le.mp hupper.2
      have : 'Z'.val.toNat = 90 := rfl
      show c.val.toNat < 128
      omega
    have h := hletters c.toNat hlt
    rw [Char.ofNat_toNat] at h
    exact Or.inr (h hupper.1 hupper.2)
  · left
    exact dif_neg hupper

theorem lowercaseLaws_ascii : LowercaseLaws .ascii where
  stable s t h := by
    have hfixed : ∀ c ∈ t, c.toLower = c := by
      intro c hc
      rcases h c hc with hc | rfl
      · obtain ⟨d, -, rfl⟩ := List.mem_map.mp hc
        rcases toLower_cases d with h | h
        · rw [h, h]
        · exact h.1
      · rfl
    exact (List.map_congr_left hfixed).trans (List.map_id' t)
  head c s h := by
    refine ⟨c.toLower, s.map Char.toLower, rfl, ?_⟩
    rcases toLower_cases c with hc | ⟨-, hsolid, hl, hr⟩
    · rw [hc]
      exact ⟨h, Iff.rfl⟩
    · exact ⟨hsolid, fun h ↦ absurd h hl, fun h ↦ absurd h hr⟩

/-- A raw label without the `#` in front of it and the white space around it. -/
def labelText (raw : String) : List Char :=
  let s := trim raw.toList
  trim (match s with
    | '#' :: rest => rest
    | _ => s)

/-- Some entry has the label as its category or a tag. -/
def Stored (db : Db) (label : String) : Prop :=
  label ∈ db.entries.rows.map Entry.category ∨ label ∈ db.entryTags.rows.map TagRow.tag

section

variable (u : Unicode)

/-- Every stored label is its own normal form. -/
def Normal (db : Db) : Prop := ∀ label, Stored db label → normalizeLabel u label = some label

/-- Asked for by its name, a label is listed as often as it is counted. -/
def Findable (db : Db) : Prop :=
  (∀ l ∈ categories db, ∀ offset limit,
    (list u db { category := some l.name } offset limit).1 = l.count) ∧
  ∀ category, ∀ l ∈ tags u db category, ∀ offset limit,
    (list u db { category, tags := [l.name] } offset limit).1 = l.count

/-- No label of an accepted entry begins with a second `#`. -/
def PlainLabels (c : AddCall) : Prop :=
  acceptable u c.entry = true → ∀ raw ∈ c.entry.category :: c.entry.tags,
    (labelText raw).head? ≠ some '#'

end

section

variable {u : Unicode}

/-! ### The normal form -/

theorem normalizeLabel_eq (raw : String) : normalizeLabel u raw =
    let s := ['-'].intercalate (splitWhitespace (u.toLowercase (labelText raw)))
    if s = [] then none else some (String.ofList s) := rfl

/-- A normal form has no white space, and its characters are lowercased ones and hyphens. -/
theorem mem_normalizeLabel {raw s : String} (h : normalizeLabel u raw = some s) :
    ∃ text, s = String.ofList text ∧ text ≠ [] ∧
      text = ['-'].intercalate (splitWhitespace (u.toLowercase (labelText raw))) ∧
      ∀ c ∈ text, isWhitespace c = false ∧ (c ∈ u.toLowercase (labelText raw) ∨ c = '-') := by
  rw [normalizeLabel_eq] at h
  dsimp only at h
  split at h
  · cases h
  · next hne =>
    cases h
    refine ⟨_, rfl, hne, rfl, fun c hc ↦ ?_⟩
    rcases mem_intercalate hc with hc | ⟨w, hw, hc⟩
    · rw [List.mem_singleton] at hc
      rw [hc]
      exact ⟨by decide, Or.inr rfl⟩
    · obtain ⟨hmem, hsolid⟩ := mem_splitWhitespace hw hc
      exact ⟨hsolid, Or.inl hmem⟩

/-- The first word of a text that begins with none is the start of the joined words. -/
theorem head_intercalate_splitWhitespace {d : Char} (s : List Char) (h : isWhitespace d = false) :
    (['-'].intercalate (splitWhitespace (d :: s))).head? = some d := by
  have hwords : splitWhitespace (d :: s) = (d :: (wordsFrom s).1) :: (wordsFrom s).2 := by
    rw [splitWhitespace, wordsFrom, h]
    rfl
  rw [hwords]
  cases (wordsFrom s).2 with
  | nil => simp
  | cons w ws => simp [List.intercalate_cons_cons]

/-- The first character of the normal form is a `#` just if the text after the dropped one begins
with a `#`. -/
theorem head_normalizeLabel (hu : LowercaseLaws u) {raw s : String}
    (h : normalizeLabel u raw = some s) :
    s.toList.head? = some '#' ↔ (labelText raw).head? = some '#' := by
  obtain ⟨text, rfl, hne, htext, -⟩ := mem_normalizeLabel h
  rw [String.toList_ofList]
  cases hlabel : labelText raw with
  | nil =>
    rw [hlabel, u.toLowercase_ascii [] (by simp)] at htext
    exact absurd htext hne
  | cons c rest =>
    obtain ⟨d, after, hlower, hsolid, hhash⟩ := hu.head c rest (head_of_trim hlabel)
    rw [htext, hlabel, hlower, head_intercalate_splitWhitespace after hsolid]
    simpa using hhash

theorem labelText_hash {rest : List Char} (h : ∀ c ∈ '#' :: rest, isWhitespace c = false) :
    labelText (String.ofList ('#' :: rest)) = rest := by
  rw [labelText, String.toList_ofList, trim_solid h]
  exact trim_solid fun c hc ↦ h c (.tail _ hc)

theorem labelText_plain {text : List Char} (h : ∀ c ∈ text, isWhitespace c = false)
    (hhead : text.head? ≠ some '#') : labelText (String.ofList text) = text := by
  rw [labelText, String.toList_ofList, trim_solid h]
  split
  · exact absurd rfl hhead
  · exact trim_solid h

/-- A normal form is its own, unless it begins with a `#`. -/
theorem normalizeLabel_fixed_iff (hu : LowercaseLaws u) {raw s : String}
    (h : normalizeLabel u raw = some s) :
    normalizeLabel u s = some s ↔ (labelText raw).head? ≠ some '#' := by
  rw [Ne, ← head_normalizeLabel hu h]
  obtain ⟨text, rfl, hne, -, hchars⟩ := mem_normalizeLabel h
  have hsolid : ∀ c ∈ text, isWhitespace c = false := fun c hc ↦ (hchars c hc).1
  have hplain : ∀ t, t ⊆ text → t ≠ [] →
      ['-'].intercalate (splitWhitespace (u.toLowercase t)) = t := by
    intro t ht htne
    rw [hu.stable _ t fun c hc ↦ (hchars c (ht hc)).2,
      splitWhitespace_solid (fun c hc ↦ hsolid c (ht hc)) htne]
    simp
  rw [String.toList_ofList, normalizeLabel_eq]
  constructor
  · intro hfixed hhead
    obtain ⟨rest, rfl⟩ : ∃ rest, text = '#' :: rest := by
      cases text with
      | nil => exact absurd rfl hne
      | cons c rest =>
        simp only [List.head?_cons, Option.some.injEq] at hhead
        exact ⟨rest, by rw [hhead]⟩
    -- the second `#` is dropped too, so the answer is shorter, or none
    rw [labelText_hash hsolid] at hfixed
    have hother : ['-'].intercalate (splitWhitespace (u.toLowercase rest)) = rest := by
      cases rest with
      | nil =>
        rw [u.toLowercase_ascii [] (by simp)]
        rfl
      | cons c rest => exact hplain _ (List.subset_cons_self _ _) (by simp)
    rw [hother] at hfixed
    dsimp only at hfixed
    split at hfixed
    · cases hfixed
    · have hlength := congrArg List.length (String.ofList_injective (Option.some.inj hfixed))
      simp at hlength
  · intro hhead
    rw [labelText_plain hsolid hhead, hplain text (List.Subset.refl _) hne]
    exact if_neg hne

/-! ### What is stored -/

/-- The name of a flag is its own normal form. -/
theorem normalizeLabel_plain {s : String}
    (hletters : s.toList.all (fun c ↦ 'a' ≤ c ∧ c ≤ 'z' ∨ c = '-') = true) (hne : s ≠ "") :
    normalizeLabel u s = some s := by
  have hchars : ∀ c ∈ s.toList, 'a' ≤ c ∧ c ≤ 'z' ∨ c = '-' :=
    fun c hc ↦ of_decide_eq_true (List.all_eq_true.mp hletters c hc)
  have hall : ∀ n < 128, ('a' ≤ Char.ofNat n ∧ Char.ofNat n ≤ 'z' ∨ Char.ofNat n = '-') →
      isWhitespace (Char.ofNat n) = false ∧ Char.ofNat n ≠ '#' ∧
        (Char.ofNat n).toLower = Char.ofNat n := by
    decide +kernel
  have hplain : ∀ c ∈ s.toList, isWhitespace c = false ∧ c ≠ '#' ∧ c.toLower = c ∧
      c.toNat < 128 := by
    intro c hc
    have hlt : c.toNat < 128 := by
      rcases hchars c hc with ⟨-, h⟩ | rfl
      · have := UInt32.le_iff_toNat_le.mp h
        have : 'z'.val.toNat = 122 := rfl
        show c.val.toNat < 128
        omega
      · decide
    have h := hall c.toNat hlt
    rw [Char.ofNat_toNat] at h
    obtain ⟨h₁, h₂, h₃⟩ := h (hchars c hc)
    exact ⟨h₁, h₂, h₃, hlt⟩
  have hhead : s.toList.head? ≠ some '#' :=
    fun h ↦ (hplain '#' (List.mem_of_mem_head? h)).2.1 rfl
  have hsolid : ∀ c ∈ s.toList, isWhitespace c = false := fun c hc ↦ (hplain c hc).1
  have hempty : s.toList ≠ [] := by simpa using hne
  have hlower : u.toLowercase s.toList = s.toList := by
    rw [u.toLowercase_ascii _ fun c hc ↦ (hplain c hc).2.2.2]
    exact (List.map_congr_left fun c hc ↦ (hplain c hc).2.2.1).trans (List.map_id' _)
  have hlabel : labelText s = s.toList := by
    have h := labelText_plain hsolid hhead
    rwa [String.ofList_toList] at h
  rw [normalizeLabel_eq, hlabel, hlower, splitWhitespace_solid hsolid hempty]
  simp [hempty, String.ofList_toList]

theorem normalizeLabel_flagName (f : Flag) : normalizeLabel u f.name = some f.name := by
  apply normalizeLabel_plain
  · cases f <;> decide
  · cases f <;> decide

/-- A category comes from the one given, from a flag, or is the one of bug reports. -/
theorem normal_categoryOf (hu : LowercaseLaws u) {entry : NewEntry} {named : List Flag}
    {category : String} (h : categoryOf u entry named = some category)
    (hplain : (labelText entry.category).head? ≠ some '#') :
    normalizeLabel u category = some category := by
  rcases Option.or_eq_some_iff.mp h with h | ⟨-, h⟩
  · exact (normalizeLabel_fixed_iff hu h).mpr hplain
  · obtain ⟨f, -, rfl⟩ := Option.map_eq_some_iff.mp h
    split
    · exact normalizeLabel_plain (by decide) (by decide)
    · exact normalizeLabel_flagName f

theorem mem_normalizeTags {raw : List String} {tag : String} (h : tag ∈ normalizeTags u raw) :
    ∃ r ∈ raw, normalizeLabel u r = some tag := by
  have hfold : ∀ (ts out : List String), tag ∈ ts.foldl
      (fun out t ↦ if out.contains t then out else out ++ [t]) out → tag ∈ out ∨ tag ∈ ts := by
    intro ts
    induction ts with
    | nil => exact fun out h ↦ Or.inl h
    | cons t ts ih =>
      intro out h
      rw [List.foldl_cons] at h
      rcases ih _ h with h | h
      · split at h
        · exact Or.inl h
        · rcases List.mem_append.mp h with h | h
          · exact Or.inl h
          · exact Or.inr (List.mem_cons.mpr (Or.inl (List.mem_singleton.mp h)))
      · exact Or.inr (.tail _ h)
  rcases hfold _ _ h with h | h
  · cases h
  · exact List.mem_filterMap.mp h

/-- What is inserted beside the tags leaves them. -/
theorem entryTags_foldlM {γ : Type} {f : Db → γ → Except String Db} {xs : List γ} {db db' : Db}
    (hf : ∀ db x db', f db x = .ok db' → db'.entryTags = db.entryTags)
    (h : xs.foldlM f db = .ok db') : db'.entryTags = db.entryTags :=
  rel_foldlM (R := fun a b : Db ↦ b.entryTags = a.entryTags) (fun _ ↦ rfl)
    (fun _ _ _ hab hbc ↦ hbc.trans hab) hf h

theorem mem_insertTags {db db' : Db} {id : Int} {tags : List String}
    (h : insertTags db id tags = .ok db') {r : TagRow} (hr : r ∈ db'.entryTags.rows) :
    r ∈ db.entryTags.rows ∨ r.tag ∈ tags := by
  induction tags generalizing db with
  | nil =>
    cases h
    exact Or.inl hr
  | cons t tags ih =>
    rw [insertTags, List.foldlM_cons] at h
    obtain ⟨db₁, h₁, h⟩ := bind_eq_ok.mp h
    rcases ih h with hr | hr
    · unfold Db.insertTag at h₁
      split at h₁
      · cases h₁
        rcases Table.mem_insertOrIgnore.mp hr with hr | ⟨rfl, -⟩
        · exact Or.inl hr
        · exact Or.inr List.mem_cons_self
      · cases h₁
    · exact Or.inr (.tail _ hr)

theorem mem_entryTags_details {db db₁ db₂ db₃ db₄ : Db} {id : Int} {tags : List String}
    {named : List Flag} {entry : NewEntry} {now : Int} (h₁ : insertTags db id tags = .ok db₁)
    (h₂ : insertFlags db₁ id named now = .ok db₂) (h₃ : insertProofs db₂ id entry.proofs = .ok db₃)
    (h₄ : insertReminder db₃ id entry now = .ok db₄) {r : TagRow} (hr : r ∈ db₄.entryTags.rows) :
    r ∈ db.entryTags.rows ∨ r.tag ∈ tags := by
  have hflags : db₂.entryTags = db₁.entryTags := by
    apply entryTags_foldlM _ h₂
    intro db f db' h
    unfold Db.insertFlag at h
    split at h
    · cases h; rfl
    · cases h
  have hproofs : db₃.entryTags = db₂.entryTags := by
    apply entryTags_foldlM _ h₃
    intro db p db' h
    unfold Db.insertProof at h
    split at h
    · cases h; rfl
    · cases h
  have hreminder : db₄.entryTags = db₃.entryTags := by
    unfold insertReminder at h₄
    split at h₄
    · unfold Db.replaceReminder at h₄
      split at h₄
      · cases h₄; rfl
      · cases h₄
    · cases h₄; rfl
  rw [hreminder, hproofs, hflags] at hr
  exact mem_insertTags h₁ hr

/-- The tags afterwards are those before and those of the entry. -/
theorem mem_entryTags_add {sha256 : String → String} {db db' : Db} {entry : NewEntry} {now : Int}
    {answer : AddStatus × Int} (h : add u sha256 db entry now = .ok (answer, db')) {r : TagRow}
    (hr : r ∈ db'.entryTags.rows) :
    r ∈ db.entryTags.rows ∨ r.tag ∈ normalizeTags u entry.tags := by
  unfold add at h
  obtain ⟨-, -, h⟩ := bind_eq_ok.mp h
  obtain ⟨-, -, h⟩ := bind_eq_ok.mp h
  obtain ⟨named, -, h⟩ := bind_eq_ok.mp h
  split at h
  · next category _ =>
    obtain ⟨-, -, h⟩ := bind_eq_ok.mp h
    obtain ⟨salience, -, h⟩ := bind_eq_ok.mp h
    dsimp only at h
    split at h
    · obtain ⟨db₁, h₁, h⟩ := bind_eq_ok.mp h
      obtain ⟨db₂, h₂, h⟩ := bind_eq_ok.mp h
      obtain ⟨db₃, h₃, h⟩ := bind_eq_ok.mp h
      obtain ⟨db₄, h₄, h⟩ := bind_eq_ok.mp h
      cases h
      exact mem_entryTags_details h₁ h₂ h₃ h₄ hr
    · obtain ⟨db₁, h₁, h⟩ := bind_eq_ok.mp h
      obtain ⟨db₂, h₂, h⟩ := bind_eq_ok.mp h
      obtain ⟨db₃, h₃, h⟩ := bind_eq_ok.mp h
      obtain ⟨db₄, h₄, h⟩ := bind_eq_ok.mp h
      have hlinks : db'.entryTags = db₄.entryTags := by
        split at h
        · cases h
          rfl
        · obtain ⟨db₅, h₅, h⟩ := bind_eq_ok.mp h
          cases h
          apply entryTags_foldlM _ h₅
          rintro db ⟨toId, kind⟩ db' h
          dsimp only at h
          split at h
          · exact (sameNotes_insertLink h).entryTags
          · cases h; rfl
      rw [hlinks] at hr
      exact mem_entryTags_details h₁ h₂ h₃ h₄ hr
  · cases h

/-- Plain labels are stored in a form that is its own normal form. -/
theorem normal_add (hu : LowercaseLaws u) {sha256 : String → String} {c : AddCall} {db' : Db}
    {answer : AddStatus × Int} (hplain : PlainLabels u c)
    (h : add u sha256 c.db c.entry c.now = .ok (answer, db')) (hdb : Normal u c.db) :
    Normal u db' := by
  have hplain := hplain (add_ok_iff.mp ⟨_, h⟩)
  obtain ⟨status, id⟩ := answer
  rintro label (hlabel | hlabel)
  · obtain ⟨named, category, -, hcategory, hadded⟩ := add_ok h
    have hentry := hadded.entry
    cases hdup : duplicateOf c.db (sha256 (trimmed c.entry.body)) category c.now with
    | some d =>
      rw [hdup] at hentry
      obtain ⟨-, -, hentries⟩ := hentry
      rw [hentries] at hlabel
      exact hdb label (Or.inl hlabel)
    | none =>
      rw [hdup] at hentry
      obtain ⟨-, -, e, hrows, -, -, hcat, -⟩ := hentry
      rw [hrows, List.map_append, List.mem_append, List.map_singleton, List.mem_singleton] at hlabel
      rcases hlabel with hlabel | rfl
      · exact hdb label (Or.inl hlabel)
      · rw [hcat]
        exact normal_categoryOf hu hcategory (hplain _ List.mem_cons_self)
  · obtain ⟨r, hr, rfl⟩ := List.mem_map.mp hlabel
    rcases mem_entryTags_add h hr with hr | hr
    · exact hdb r.tag (Or.inr (List.mem_map_of_mem hr))
    · obtain ⟨raw, hraw, hnormal⟩ := mem_normalizeTags hr
      exact (normalizeLabel_fixed_iff hu hnormal).mpr (hplain raw (.tail _ hraw))

/-! ### Finding them -/

/-- A filter of labels alone, once its category is normal or not given. -/
theorem admits_labels {db : Db} {category : Option String} {ts : List String} (e : Entry) :
    ({ category, tags := ts } : Filter).admits u db e =
      (equals (category.bind (normalizeLabel u)) (some e.category) &&
        ({ category, tags := ts } : Filter).admitsTags u db e) := by
  have hflags : normalizeFlags u [] = .ok [] := rfl
  simp [Filter.admits, Filter.admitsFlags, hflags, equals, Except.toOption]

/-- In a journal of normal labels each is found as often as it is counted. -/
theorem findable_of_normal {db : Db} (h : Normal u db) : Findable u db := by
  constructor
  · intro l hl offset limit
    obtain ⟨hname, hcount⟩ := mem_countLabels.mp hl
    have hnormal := h l.name (Or.inl hname)
    rw [hcount, list, List.count_eq_countP, List.countP_map]
    apply List.countP_congr
    intro e _
    rw [admits_labels, Option.bind_some, hnormal]
    simp [equals, Filter.admitsTags, normalizeTags]
  · intro category l hl offset limit
    obtain ⟨hname, hcount⟩ := mem_countLabels.mp hl
    have hnormal : normalizeLabel u l.name = some l.name := by
      apply h l.name
      obtain ⟨r, hr, hl⟩ := List.mem_map.mp hname
      exact Or.inr (List.mem_map.mpr ⟨r, (List.mem_filter.mp hr).1, hl⟩)
    have hone : normalizeTags u [l.name] = [l.name] := by simp [normalizeTags, hnormal]
    rw [hcount, list, ← countP_tagged]
    apply List.countP_congr
    intro e _
    rw [admits_labels, Filter.admitsTags, hone]
    simp

end

/-- In a run whose labels begin with no second `#`, every stored label is its own normal form and
is found, under the name it is listed by, as often as it is counted. -/
theorem labels_findable {u : Unicode} (hu : LowercaseLaws u) (sha256 : String → String)
    (acts : List NoteAct) (hplain : ∀ c ∈ runCalls u sha256 acts, PlainLabels u c) :
    ∀ t ∈ trace (noteStep u sha256) .empty acts, Normal u t.after ∧ Findable u t.after := by
  intro t ht
  have hnormal : Normal u t.before ∧ Normal u t.after := by
    apply kept_run _ _ _ t ht
    · rintro label (hlabel | hlabel)
      · cases hlabel
      · cases hlabel
    · constructor
      · intro db db' hsame h label hlabel
        rw [Stored, hsame.entries, hsame.entryTags] at hlabel
        exact h label hlabel
      · intro c hc answer db' hadd h
        exact normal_add hu (hplain c hc) hadd h
    · rintro db p h label (hlabel | hlabel)
      · obtain ⟨e, he, rfl⟩ := List.mem_map.mp hlabel
        exact h _ (Or.inl (List.mem_map_of_mem (mem_deleteEntries.mp he).1))
      · obtain ⟨r, hr, rfl⟩ := List.mem_map.mp hlabel
        exact h _ (Or.inr (List.mem_map_of_mem (Table.mem_delete.mp hr).1))
  exact ⟨hnormal.2, findable_of_normal hnormal.2⟩

/-! ### Two runs -/

private def taggedNote (tag : String) : NewEntry where
  body := "the cache is cold after a restart"
  category := "finding"
  tags := [tag]

/-- A tag with capitals and a space is stored in its normal form, and found. -/
theorem labels_findable_cache :
    Normal .ascii (run (noteStep .ascii id) .empty [.add (taggedNote "#Cold Cache") 1000]) ∧
      Findable .ascii
        (run (noteStep .ascii id) .empty [.add (taggedNote "#Cold Cache") 1000]) := by
  have hplain : ∀ c ∈ runCalls .ascii id [.add (taggedNote "#Cold Cache") 1000],
      PlainLabels .ascii c := by
    intro c hc _ raw hraw
    obtain rfl : c = ⟨.empty, taggedNote "#Cold Cache", 1000⟩ := List.mem_singleton.mp hc
    revert raw
    decide +kernel
  exact labels_findable lowercaseLaws_ascii id _ hplain _ List.mem_cons_self

/-- A tag with two `#` is listed with one, and asked for with none. -/
theorem labels_findable_double : ¬∀ t ∈ trace (noteStep .ascii id) .empty
      [.add (taggedNote "##urgent") 1000], Normal .ascii t.after ∧ Findable .ascii t.after := by
  intro h
  have hfound := (h _ List.mem_cons_self).2.2 none ⟨"#urgent", 1⟩
    (by decide +kernel) 0 1
  revert hfound
  decide +kernel

end Claudebase.Journal
