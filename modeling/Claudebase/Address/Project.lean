import Claudebase.Base.Split
import Claudebase.Base.Words

/-!
# The id of a project

`src/project_id.rs:3–13,52–114`. The URL of a repository is brought into the form
host/owner/name: lower case, without scheme, user, `.git` and slashes at the end. One suffix and
one form of prefix come off, the suffix before the slashes.
-/

namespace Claudebase.Address
open Claudebase.Base

/-- What stands in front of the host is taken off; the alias form gets a slash for its colon. -/
def foldForm (s : List Char) : List Char :=
  match s.dropPrefix? "git@".toList with
  | some rest =>
    match splitAtFirst [':'] rest with
    | some (host, path) => host ++ '/' :: path
    | none => s
  | none =>
    let prefixes := ["ssh://git@", "ssh://", "https://", "http://"]
    (prefixes.findSome? fun p ↦ s.dropPrefix? p.toList).getD s

/-- `.git`, then slashes. -/
def foldEnd (s : List Char) : List Char :=
  ((s.dropSuffix? ".git".toList).getD s).rdropWhile (· = '/')

/-- `normalize_remote_url`. -/
def normalizeRemoteUrl (u : Unicode) (url : List Char) : Option (List Char) :=
  let trimmed := trim url
  if trimmed = [] then none
  else
    let s := foldEnd (foldForm (u.toLowercase trimmed))
    if s = [] then none else some s

/-! ### Prefixes -/

section Front

variable {host : List Char} (hslash : '/' ∉ host) (hcolon : ':' ∉ host) (hat : '@' ∉ host)
include hcolon hat

/-- Nothing comes off a host that stands in front already. -/
theorem foldForm_plain (rest : List Char) :
    foldForm (host ++ '/' :: rest) = host ++ '/' :: rest := by
  have hgit : ¬ "git@".toList <+: host ++ '/' :: rest :=
    not_prefix_append_cons (c := '@') (by decide) hat (by decide) rest
  have hscheme : ∀ p q : List Char, ':' ∈ p → '/' ∉ p → p <+: q →
      (host ++ '/' :: rest).dropPrefix? q = none := by
    intro p q hp hp' hpq
    rw [dropPrefix?_eq_none_iff]
    exact fun h ↦ not_prefix_append_cons hp hcolon hp' rest (hpq.trans h)
  simp only [foldForm, dropPrefix?_eq_none_iff.mpr hgit, List.findSome?_cons, List.findSome?_nil,
    hscheme "ssh:".toList "ssh://git@".toList (by decide) (by decide) (by decide),
    hscheme "ssh:".toList "ssh://".toList (by decide) (by decide) (by decide),
    hscheme "https:".toList "https://".toList (by decide) (by decide) (by decide),
    hscheme "http:".toList "http://".toList (by decide) (by decide) (by decide), Option.getD_none]

end Front

/-- The alias form. -/
theorem foldForm_alias {host : List Char} (hcolon : ':' ∉ host) (path : List Char) :
    foldForm ("git@".toList ++ (host ++ ':' :: path)) = host ++ '/' :: path := by
  simp only [foldForm, dropPrefix?_append, splitAtFirst_append hcolon]

/-- The other forms. -/
theorem foldForm_scheme {host : List Char} (hat : '@' ∉ host) {opening : List Char}
    (h : opening ∈ ["ssh://git@".toList, "ssh://".toList, "https://".toList, "http://".toList])
    (path : List Char) :
    foldForm (opening ++ (host ++ '/' :: path)) = host ++ '/' :: path := by
  have hgit : ¬ "git@".toList <+: host ++ '/' :: path :=
    not_prefix_append_cons (c := '@') (by decide) hat (by decide) path
  have hapart : ∀ p q : List Char, p.isPrefixOf q = false → q.isPrefixOf p = false →
      ∀ t, (q ++ t).dropPrefix? p = none := by
    intro p q hp hq t
    rw [dropPrefix?_eq_none_iff]
    intro h
    rcases List.prefix_or_prefix_of_prefix h (List.prefix_append q t) with h | h
    · rw [← List.isPrefixOf_iff_prefix, hp] at h
      cases h
    · rw [← List.isPrefixOf_iff_prefix, hq] at h
      cases h
  have hssh :
      ("ssh://".toList ++ (host ++ '/' :: path)).dropPrefix? "ssh://git@".toList = none := by
    rw [dropPrefix?_eq_none_iff]
    intro h
    have happ : "ssh://git@".toList = "ssh://".toList ++ "git@".toList := by decide
    rw [happ] at h
    exact hgit ((List.prefix_append_right_inj _).mp h)
  simp only [List.mem_cons, List.not_mem_nil, or_false] at h
  rcases h with rfl | rfl | rfl | rfl
  · simp only [foldForm, hapart "git@".toList "ssh://git@".toList (by decide) (by decide),
      List.findSome?_cons, dropPrefix?_append, Option.getD_some]
  · simp only [foldForm, hapart "git@".toList "ssh://".toList (by decide) (by decide),
      List.findSome?_cons, hssh, dropPrefix?_append, Option.getD_some]
  · simp only [foldForm, hapart "git@".toList "https://".toList (by decide) (by decide),
      hapart "ssh://git@".toList "https://".toList (by decide) (by decide),
      hapart "ssh://".toList "https://".toList (by decide) (by decide),
      List.findSome?_cons, dropPrefix?_append, Option.getD_some]
  · simp only [foldForm, hapart "git@".toList "http://".toList (by decide) (by decide),
      hapart "ssh://git@".toList "http://".toList (by decide) (by decide),
      hapart "ssh://".toList "http://".toList (by decide) (by decide),
      hapart "https://".toList "http://".toList (by decide) (by decide),
      List.findSome?_cons, dropPrefix?_append, Option.getD_some]

/-! ### What stands behind the name -/

theorem foldEnd_dotGit {s : List Char} (h : s.getLast? ≠ some '/') :
    foldEnd (s ++ ".git".toList) = s := by
  rw [foldEnd, dropSuffix?_append, Option.getD_some, rdropWhile_ne h]

/-- Slashes come off, and nothing in front of them. -/
theorem foldEnd_slashes {s : List Char} (h : s.getLast? ≠ some '/') (n : Nat) :
    foldEnd (s ++ List.replicate (n + 1) '/') = s := by
  have hgit : ¬ ".git".toList <:+ s ++ List.replicate (n + 1) '/' := by
    rintro ⟨t, ht⟩
    have hlast := congrArg List.getLast? ht
    rw [List.replicate_succ', ← List.append_assoc, List.getLast?_concat,
      List.getLast?_append_of_ne_nil t (by decide)] at hlast
    exact absurd hlast (by decide)
  rw [foldEnd, dropSuffix?_eq_none_iff.mpr hgit, Option.getD_none]
  exact rdropWhile_append_replicate h (n + 1)

theorem foldEnd_eq_self_iff {s : List Char} (h : s.getLast? ≠ some '/') :
    foldEnd s = s ↔ ¬ ".git".toList <:+ s := by
  constructor
  · rintro hs ⟨t, rfl⟩
    rw [foldEnd, dropSuffix?_append, Option.getD_some] at hs
    have hlength := (List.rdropWhile_prefix (· = '/') t).length_le
    rw [hs, List.length_append] at hlength
    have hfour : ".git".toList.length = 4 := rfl
    omega
  · intro hgit
    rw [foldEnd, dropSuffix?_eq_none_iff.mpr hgit, Option.getD_none, rdropWhile_ne h]

/-! ### Lower case -/

/-- The lower case of a text is that of its characters, one after another, unless there is a
capital sigma in it; that of a character is lower case, and white space and ASCII characters stay
apart from the others but for two letters. -/
structure LowerLaws (u : Unicode) where
  lower : Char → List Char
  flatMap : ∀ s, 'Σ' ∉ s → u.toLowercase s = s.flatMap lower
  stable : ∀ c, c ≠ 'Σ' → ∀ d ∈ lower c, lower d = [d] ∧ d ≠ 'Σ'
  blank : ∀ c, ∀ d ∈ lower c, isWhitespace d = isWhitespace c
  beyond : ∀ c, 128 ≤ c.toNat → lower c ≠ [] ∧ ∀ d ∈ lower c, 128 ≤ d.toNat ∨ d = 'i' ∨ d = 'k'

namespace LowerLaws

variable {u : Unicode} (laws : LowerLaws u)

theorem lower_ascii {c : Char} (h : c.toNat < 128) : laws.lower c = [c.toLower] := by
  have hsigma : 'Σ' ∉ [c] := by
    intro hc
    rw [← List.mem_singleton.mp hc] at h
    exact absurd h (by decide)
  have hflat := laws.flatMap [c] hsigma
  rw [u.toLowercase_ascii [c] (by simpa using h), List.flatMap_singleton] at hflat
  exact hflat.symm

/-- ASCII characters but letters are the lower case of themselves only. -/
theorem eq_of_mem_lower {c d : Char} (h : d ∈ laws.lower c) (hd : d.toNat < 128)
    (hletter : d.isAlpha = false) : c = d := by
  by_cases hc : c.toNat < 128
  · have hall : ∀ n < 128, (Char.ofNat n).toLower = Char.ofNat n ∨
        (Char.ofNat n).toLower.isAlpha = true := by
      decide +kernel
    rw [laws.lower_ascii hc, List.mem_singleton] at h
    have hc' := hall c.toNat hc
    rw [Char.ofNat_toNat, ← h, hletter] at hc'
    rcases hc' with hc' | hc'
    · exact hc'.symm
    · cases hc'
  · rcases (laws.beyond c (not_lt.mp hc)).2 d h with hd' | rfl | rfl
    · omega
    · cases hletter
    · cases hletter

theorem lower_ne_nil (c : Char) : laws.lower c ≠ [] := by
  by_cases hc : c.toNat < 128
  · rw [laws.lower_ascii hc]
    exact List.cons_ne_nil _ _
  · exact (laws.beyond c (not_lt.mp hc)).1

/-- A separator is in the lower case of a text just if it is in the text. -/
theorem not_mem_flatMap {s : List Char} {d : Char} (h : d ∉ s) (hd : d.toNat < 128)
    (hletter : d.isAlpha = false) : d ∉ s.flatMap laws.lower := by
  intro hmem
  obtain ⟨c, hc, hdc⟩ := List.mem_flatMap.mp hmem
  exact h (laws.eq_of_mem_lower hdc hd hletter ▸ hc)

/-- Lower case ASCII stays. -/
theorem flatMap_fixed {s : List Char} (h : s.all (fun c ↦ c.toNat < 128 && c.toLower == c) = true) :
    s.flatMap laws.lower = s := by
  induction s with
  | nil => rfl
  | cons c s ih =>
    rw [List.all_cons, Bool.and_eq_true, Bool.and_eq_true, decide_eq_true_eq, beq_iff_eq] at h
    rw [List.flatMap_cons, laws.lower_ascii h.1.1, h.1.2, ih h.2]
    rfl

/-- Lower case stays. -/
theorem flatMap_flatMap {s : List Char} (h : 'Σ' ∉ s) :
    (s.flatMap laws.lower).flatMap laws.lower = s.flatMap laws.lower ∧
      'Σ' ∉ s.flatMap laws.lower := by
  have hstable : ∀ d ∈ s.flatMap laws.lower, laws.lower d = [d] ∧ d ≠ 'Σ' := by
    intro d hd
    obtain ⟨c, hc, hdc⟩ := List.mem_flatMap.mp hd
    exact laws.stable c (fun heq ↦ h (heq ▸ hc)) d hdc
  refine ⟨?_, fun hd ↦ (hstable _ hd).2 rfl⟩
  generalize s.flatMap laws.lower = t at hstable
  induction t with
  | nil => rfl
  | cons d t ih =>
    rw [List.forall_mem_cons] at hstable
    rw [List.flatMap_cons, hstable.1.1, ih hstable.2]
    rfl

/-- What is read of a URL that is the same as another up to letter case. -/
theorem normalizeRemoteUrl_eq {raw text : List Char} (hraw : 'Σ' ∉ raw) (htext : 'Σ' ∉ text)
    (hcase : u.toLowercase raw = u.toLowercase text) (hne : text ≠ [])
    (hsolid : ∀ c ∈ text, isWhitespace c = false) :
    normalizeRemoteUrl u raw =
      let s := foldEnd (foldForm (text.flatMap laws.lower))
      if s = [] then none else some s := by
  have hlower : raw.flatMap laws.lower = text.flatMap laws.lower := by
    rw [← laws.flatMap raw hraw, ← laws.flatMap text htext, hcase]
  have hsolid' : ∀ c ∈ raw, isWhitespace c = false := by
    intro c hc
    obtain ⟨d, hd⟩ := List.exists_mem_of_ne_nil _ (laws.lower_ne_nil c)
    have hmem : d ∈ text.flatMap laws.lower := hlower ▸ List.mem_flatMap.mpr ⟨c, hc, hd⟩
    obtain ⟨c', hc', hd'⟩ := List.mem_flatMap.mp hmem
    rw [← laws.blank c d hd, laws.blank c' d hd']
    exact hsolid c' hc'
  have hne' : raw ≠ [] := by
    rintro rfl
    obtain ⟨c, hc⟩ := List.exists_mem_of_ne_nil _ hne
    obtain ⟨d, hd⟩ := List.exists_mem_of_ne_nil _ (laws.lower_ne_nil c)
    have hmem : d ∈ text.flatMap laws.lower := List.mem_flatMap.mpr ⟨c, hc, hd⟩
    rw [← hlower, List.flatMap_nil] at hmem
    cases hmem
  simp only [normalizeRemoteUrl, trim_solid hsolid', if_neg hne', laws.flatMap raw hraw, hlower]

end LowerLaws

/-- Lower case in ASCII. -/
theorem toLower_law (c : Char) : (c ≠ 'Σ' → c.toLower.toLower = c.toLower ∧ c.toLower ≠ 'Σ') ∧
    isWhitespace c.toLower = isWhitespace c ∧ (128 ≤ c.toNat → c.toLower = c) := by
  by_cases hc : c.toNat < 128
  · have hall : ∀ n < 128, (Char.ofNat n).toLower.toLower = (Char.ofNat n).toLower ∧
        (Char.ofNat n).toLower ≠ 'Σ' ∧
        isWhitespace (Char.ofNat n).toLower = isWhitespace (Char.ofNat n) := by
      decide +kernel
    have hn := hall c.toNat hc
    rw [Char.ofNat_toNat] at hn
    exact ⟨fun _ ↦ ⟨hn.1, hn.2.1⟩, hn.2.2, fun h ↦ absurd hc (not_lt.mpr h)⟩
  · have hlower : c.toLower = c := by
      apply dif_neg
      rintro ⟨-, hz⟩
      exact hc (lt_of_le_of_lt (UInt32.le_iff_toNat_le.mp hz) (by decide))
    rw [hlower, hlower]
    exact ⟨fun h ↦ ⟨rfl, h⟩, rfl, fun _ ↦ rfl⟩

theorem ascii_flatMap (s : List Char) :
    Unicode.ascii.toLowercase s = s.flatMap fun c ↦ [c.toLower] :=
  (List.flatMap_pure_eq_map Char.toLower s).symm

theorem ascii_stable (c : Char) (h : c ≠ 'Σ') (d : Char) (hd : d ∈ [c.toLower]) :
    [d.toLower] = [d] ∧ d ≠ 'Σ' := by
  rw [List.mem_singleton.mp hd, ((toLower_law c).1 h).1]
  exact ⟨rfl, ((toLower_law c).1 h).2⟩

theorem ascii_blank (c d : Char) (hd : d ∈ [c.toLower]) : isWhitespace d = isWhitespace c := by
  rw [List.mem_singleton.mp hd]
  exact (toLower_law c).2.1

theorem ascii_beyond (c : Char) (h : 128 ≤ c.toNat) :
    [c.toLower] ≠ [] ∧ ∀ d ∈ [c.toLower], 128 ≤ d.toNat ∨ d = 'i' ∨ d = 'k' := by
  refine ⟨List.cons_ne_nil _ _, fun d hd ↦ .inl ?_⟩
  rw [List.mem_singleton.mp hd, (toLower_law c).2.2 h]
  exact h

/-- The laws hold where only ASCII letters have a lower case. -/
def asciiLaws : LowerLaws Unicode.ascii :=
  ⟨fun c ↦ [c.toLower], fun s _ ↦ ascii_flatMap s, ascii_stable, ascii_blank, ascii_beyond⟩

end Claudebase.Address
