import Claudebase.Address.Project

/-!
# One repository, one id

`src/project_id.rs:3–23,52–114`. The spellings of one repository's URL fall together, in any
letter case and with all the forms of prefix. Slashes after `.git` keep it from coming off, and a
name that itself ends in `.git` loses it.
-/

namespace Claudebase.Address
open Claudebase.Base

/-- A repository on a host. The owner may be a path of groups. -/
structure Repo where
  host : List Char
  owner : List Char
  name : List Char
  host_ne : host ≠ []
  host_plain : '/' ∉ host ∧ ':' ∉ host ∧ '@' ∉ host
  owner_ne : owner ≠ []
  name_ne : name ≠ []
  name_plain : '/' ∉ name
  solid : ∀ c ∈ host ++ owner ++ name, isWhitespace c = false
  sigma : 'Σ' ∉ host ++ owner ++ name

/-- What stands in front of the host. -/
inductive Form where
  | https
  | http
  | ssh
  | sshGit
  | sshAlias
  deriving DecidableEq

namespace Form

def opening : Form → List Char
  | https => "https://".toList
  | http => "http://".toList
  | ssh => "ssh://".toList
  | sshGit => "ssh://git@".toList
  | sshAlias => "git@".toList

/-- What stands between host and owner. -/
def joint : Form → Char
  | sshAlias => ':'
  | _ => '/'

/-- Every form comes off. -/
theorem foldForm_opening {host : List Char} (hcolon : ':' ∉ host) (hat : '@' ∉ host) (f : Form)
    (path : List Char) :
    foldForm (f.opening ++ (host ++ f.joint :: path)) = host ++ '/' :: path := by
  cases f with
  | sshAlias => exact foldForm_alias hcolon path
  | https => exact foldForm_scheme hat (by decide) path
  | http => exact foldForm_scheme hat (by decide) path
  | ssh => exact foldForm_scheme hat (by decide) path
  | sshGit => exact foldForm_scheme hat (by decide) path

end Form

namespace Repo

variable (u : Unicode) (r : Repo)

/-- The form a repository's URL is brought into. -/
def id : List Char :=
  u.toLowercase r.host ++ '/' :: u.toLowercase r.owner ++ '/' :: u.toLowercase r.name

/-- The same repository up to letter case. -/
def Same (r r' : Repo) : Prop :=
  u.toLowercase r.host = u.toLowercase r'.host ∧ u.toLowercase r.owner = u.toLowercase r'.owner ∧
    u.toLowercase r.name = u.toLowercase r'.name

end Repo

/-- A spelling of a repository's URL. -/
structure Spelling where
  repo : Repo
  form : Form
  dotGit : Bool
  slashes : Nat

namespace Spelling

variable (a : Spelling)

/-- What stands behind the name. -/
def ending : List Char :=
  (if a.dotGit then ".git".toList else []) ++ List.replicate a.slashes '/'

def text : List Char :=
  a.form.opening ++ (a.repo.host ++ a.form.joint :: a.repo.owner ++ '/' :: a.repo.name) ++ a.ending

/-- A URL that is spelled so, in any letter case. -/
def Spells (u : Unicode) (url : List Char) : Prop :=
  u.toLowercase url = u.toLowercase a.text ∧ 'Σ' ∉ url

/-- No slashes after `.git`, and no `.git` in front of it. -/
def Folds (u : Unicode) : Prop :=
  (a.dotGit = true → a.slashes = 0) ∧ ¬ ".git".toList <:+ u.toLowercase a.repo.name

end Spelling

/-! ### The parts in lower case -/

section Lower

variable {u : Unicode} (laws : LowerLaws u)

namespace Repo

variable (r : Repo)

theorem mem_of_part {c : Char} (h : c ∈ r.host ∨ c ∈ r.owner ∨ c ∈ r.name) :
    c ∈ r.host ++ r.owner ++ r.name := by
  rw [List.mem_append, List.mem_append, or_assoc]
  exact h

theorem lower_host : u.toLowercase r.host = r.host.flatMap laws.lower :=
  laws.flatMap _ fun h ↦ r.sigma (r.mem_of_part (.inl h))

theorem lower_owner : u.toLowercase r.owner = r.owner.flatMap laws.lower :=
  laws.flatMap _ fun h ↦ r.sigma (r.mem_of_part (.inr (.inl h)))

theorem lower_name : u.toLowercase r.name = r.name.flatMap laws.lower :=
  laws.flatMap _ fun h ↦ r.sigma (r.mem_of_part (.inr (.inr h)))

include laws in
theorem plain_host {c : Char} (h : c ∈ ['/', ':', '@']) : c ∉ u.toLowercase r.host := by
  obtain ⟨hslash, hcolon, hat⟩ := r.host_plain
  rw [r.lower_host laws]
  rcases List.mem_cons.mp h with rfl | h
  · exact laws.not_mem_flatMap hslash (by decide) (by decide)
  · rcases List.mem_pair.mp h with rfl | rfl
    · exact laws.not_mem_flatMap hcolon (by decide) (by decide)
    · exact laws.not_mem_flatMap hat (by decide) (by decide)

include laws in
theorem plain_name : '/' ∉ u.toLowercase r.name := by
  rw [r.lower_name laws]
  exact laws.not_mem_flatMap r.name_plain (by decide) (by decide)

include laws in
theorem lower_name_ne : u.toLowercase r.name ≠ [] := by
  rw [r.lower_name laws]
  intro h
  obtain ⟨c, hc⟩ := List.exists_mem_of_ne_nil _ r.name_ne
  exact laws.lower_ne_nil c (List.flatMap_eq_nil_iff.mp h c hc)

include laws in
/-- An id is in lower case, has no white space and no capital sigma. -/
theorem id_fixed : (r.id u).flatMap laws.lower = r.id u ∧ 'Σ' ∉ r.id u ∧
    ∀ c ∈ r.id u, isWhitespace c = false := by
  have hid : r.id u = (r.host ++ '/' :: r.owner ++ '/' :: r.name).flatMap laws.lower := by
    have hslash : laws.lower '/' = ['/'] := laws.lower_ascii (by decide)
    rw [Repo.id, r.lower_host laws, r.lower_owner laws, r.lower_name laws, List.flatMap_append,
      List.flatMap_append, List.flatMap_cons, List.flatMap_cons, hslash]
    rfl
  have hmem : ∀ c ∈ r.host ++ '/' :: r.owner ++ '/' :: r.name,
      c = '/' ∨ c ∈ r.host ++ r.owner ++ r.name := by
    simp only [List.mem_append, List.mem_cons]
    tauto
  have hsigma : 'Σ' ∉ r.host ++ '/' :: r.owner ++ '/' :: r.name := by
    intro h
    rcases hmem _ h with h | h
    · exact absurd h (by decide)
    · exact r.sigma h
  rw [hid]
  refine ⟨(laws.flatMap_flatMap hsigma).1, (laws.flatMap_flatMap hsigma).2, ?_⟩
  intro d hd
  obtain ⟨c, hc, hdc⟩ := List.mem_flatMap.mp hd
  rw [laws.blank c d hdc]
  rcases hmem c hc with rfl | hc
  · decide
  · exact r.solid c hc

theorem id_ne_nil : r.id u ≠ [] := by
  simp [Repo.id]

include laws in
/-- The last character of an id is one of the name's. -/
theorem getLast?_id : (r.id u).getLast? ≠ some '/' := by
  rw [Repo.id, List.getLast?_append_of_ne_nil _ (List.cons_ne_nil _ _),
    List.getLast?_cons_of_ne_nil (r.lower_name_ne laws)]
  exact fun h ↦ r.plain_name laws (List.mem_of_getLast? h)

/-- An id ends in `.git` if the name does. -/
theorem dotGit_suffix_id :
    ".git".toList <:+ r.id u ↔ ".git".toList <:+ u.toLowercase r.name :=
  suffix_append_cons_iff (by decide) _

include laws in
/-- Ids are the same for the same repository only. -/
theorem id_inj (r' : Repo) : r.id u = r'.id u ↔ Same u r r' := by
  constructor
  · intro h
    have hid : ∀ r : Repo, r.id u =
        u.toLowercase r.host ++ '/' :: (u.toLowercase r.owner ++ '/' :: u.toLowercase r.name) := by
      intro r
      rw [Repo.id, List.append_assoc, List.cons_append]
    have hfirst := splitAtFirst_eq_some_iff.mpr
      ⟨hid r, r.plain_host laws (List.mem_cons_self)⟩
    rw [h, splitAtFirst_eq_some_iff.mpr ⟨hid r', r'.plain_host laws (List.mem_cons_self)⟩] at hfirst
    have hparts := Prod.mk.inj (Option.some.inj hfirst)
    have hlast := splitAtLast_eq_some_iff.mpr ⟨hparts.2, r.plain_name laws⟩
    rw [splitAtLast_eq_some_iff.mpr ⟨rfl, r'.plain_name laws⟩] at hlast
    have hrest := Prod.mk.inj (Option.some.inj hlast)
    exact ⟨hparts.1.symm, hrest.1.symm, hrest.2.symm⟩
  · rintro ⟨hhost, howner, hname⟩
    rw [Repo.id, Repo.id, hhost, howner, hname]

end Repo

/-- A text that is none when it is empty. -/
theorem some_nonempty_iff {s t : List Char} (h : t ≠ []) :
    (if s = [] then none else some s) = some t ↔ s = t := by
  split
  · next hs =>
    rw [hs]
    exact ⟨fun h' ↦ (Option.some_ne_none t h'.symm).elim, fun h' ↦ absurd h'.symm h⟩
  · exact Option.some_inj

namespace Spelling

variable (a : Spelling)

/-- A spelling in lower case. -/
theorem lower_text : a.text.flatMap laws.lower =
    a.form.opening ++ (u.toLowercase a.repo.host ++ a.form.joint ::
      (u.toLowercase a.repo.owner ++ '/' :: u.toLowercase a.repo.name ++ a.ending)) := by
  have hopening : a.form.opening.flatMap laws.lower = a.form.opening := by
    cases a.form with
    | _ => exact laws.flatMap_fixed (by decide)
  have hjoint : laws.lower a.form.joint = [a.form.joint] := by
    cases a.form with
    | _ => exact laws.lower_ascii (by decide)
  have hslash : laws.lower '/' = ['/'] := laws.lower_ascii (by decide)
  have hending : a.ending.flatMap laws.lower = a.ending := by
    apply laws.flatMap_fixed
    unfold ending
    rw [List.all_append, List.all_replicate, Bool.and_eq_true]
    constructor
    · cases a.dotGit with
      | _ => decide
    · cases a.slashes with
      | _ => rfl
  rw [text, List.flatMap_append, List.flatMap_append, List.flatMap_append, List.flatMap_append,
    hopening, hending, List.flatMap_cons, List.flatMap_cons, hjoint, hslash,
    a.repo.lower_host laws, a.repo.lower_owner laws, a.repo.lower_name laws]
  simp only [List.append_assoc, List.cons_append, List.nil_append]

/-- What is in front of the host comes off, in every form. -/
theorem foldForm_text : foldForm (a.text.flatMap laws.lower) = a.repo.id u ++ a.ending := by
  have hcolon := a.repo.plain_host laws (c := ':') (by decide)
  have hat := a.repo.plain_host laws (c := '@') (by decide)
  rw [a.lower_text laws, Form.foldForm_opening hcolon hat, Repo.id]
  simp only [List.append_assoc, List.cons_append]

/-- A spelling has no white space and no capital sigma. -/
theorem plain_text : ∀ c ∈ a.text, isWhitespace c = false ∧ c ≠ 'Σ' := by
  have hopening : ∀ c ∈ a.form.opening, isWhitespace c = false ∧ c ≠ 'Σ' := by
    cases a.form with
    | _ => exact forall_mem_of_all (by decide)
  have hjoint : isWhitespace a.form.joint = false ∧ a.form.joint ≠ 'Σ' := by
    cases a.form with
    | _ => decide
  have hslash : isWhitespace '/' = false ∧ '/' ≠ 'Σ' := by decide
  have hending : ∀ c ∈ a.ending, isWhitespace c = false ∧ c ≠ 'Σ' := by
    unfold ending
    rw [List.forall_mem_append]
    constructor
    · cases a.dotGit with
      | _ => exact forall_mem_of_all (by decide)
    · intro c hc
      rw [List.eq_of_mem_replicate hc]
      exact hslash
  have hpart : ∀ c, c ∈ a.repo.host ∨ c ∈ a.repo.owner ∨ c ∈ a.repo.name →
      isWhitespace c = false ∧ c ≠ 'Σ' := by
    intro c hc
    have hmem := a.repo.mem_of_part hc
    exact ⟨a.repo.solid c hmem, fun h ↦ a.repo.sigma (h ▸ hmem)⟩
  simp only [text, List.forall_mem_append, List.forall_mem_cons]
  exact ⟨⟨hopening, ⟨fun c hc ↦ hpart c (.inl hc), hjoint, fun c hc ↦ hpart c (.inr (.inl hc))⟩,
    hslash, fun c hc ↦ hpart c (.inr (.inr hc))⟩, hending⟩

theorem text_ne_nil : a.text ≠ [] := by
  simp [text]

include laws in
/-- The ending comes off just if there are no slashes after `.git`, and no `.git` at the end of the
name with nothing behind it. -/
theorem foldEnd_ending_iff : foldEnd (a.repo.id u ++ a.ending) = a.repo.id u ↔
    (a.dotGit = true → a.slashes = 0) ∧
      (a.dotGit = false → a.slashes = 0 → ¬ ".git".toList <:+ u.toLowercase a.repo.name) := by
  have hlast := a.repo.getLast?_id laws
  unfold ending
  cases hdotGit : a.dotGit with
  | true =>
    cases hslashes : a.slashes with
    | zero =>
      simp only [if_true, List.replicate_zero, List.append_nil, foldEnd_dotGit hlast]
      simp
    | succ n =>
      have hlast' : (a.repo.id u ++ ".git".toList).getLast? ≠ some '/' := by
        rw [List.getLast?_append_of_ne_nil _ (by decide)]
        decide
      rw [if_pos rfl, ← List.append_assoc, foldEnd_slashes hlast']
      simp
  | false =>
    cases hslashes : a.slashes with
    | zero =>
      simp only [Bool.false_eq_true, if_false, List.replicate_zero, List.append_nil,
        foldEnd_eq_self_iff hlast, a.repo.dotGit_suffix_id]
      simp
    | succ n =>
      simp only [Bool.false_eq_true, if_false, List.nil_append, foldEnd_slashes hlast]
      simp

include laws in
/-- When a spelling is read as the id of its repository. -/
theorem normalize_eq_id_iff {url : List Char} (h : a.Spells u url) :
    normalizeRemoteUrl u url = some (a.repo.id u) ↔
      (a.dotGit = true → a.slashes = 0) ∧
        (a.dotGit = false → a.slashes = 0 → ¬ ".git".toList <:+ u.toLowercase a.repo.name) := by
  have hsigma : 'Σ' ∉ a.text := fun hc ↦ (a.plain_text _ hc).2 rfl
  rw [laws.normalizeRemoteUrl_eq h.2 hsigma h.1 a.text_ne_nil (fun c hc ↦ (a.plain_text c hc).1),
    a.foldForm_text laws, some_nonempty_iff a.repo.id_ne_nil]
  exact a.foldEnd_ending_iff laws

end Spelling

include laws in
/-- An id is read as itself just if it does not end in `.git`. -/
theorem Repo.normalize_id_iff (r : Repo) :
    normalizeRemoteUrl u (r.id u) = some (r.id u) ↔ ¬ ".git".toList <:+ u.toLowercase r.name := by
  obtain ⟨hfixed, hsigma, hsolid⟩ := r.id_fixed laws
  have hfold : foldForm (r.id u) = r.id u := by
    rw [Repo.id, List.append_assoc, List.cons_append]
    exact foldForm_plain (r.plain_host laws (by decide)) (r.plain_host laws (by decide)) _
  rw [laws.normalizeRemoteUrl_eq hsigma hsigma rfl r.id_ne_nil hsolid, hfixed, hfold,
    some_nonempty_iff r.id_ne_nil, foldEnd_eq_self_iff (r.getLast?_id laws), r.dotGit_suffix_id]

include laws in
/-- A URL is read as the id of its repository, and the id as itself, just if no slashes follow a
`.git` and the name does not end in one; and URLs that are so spelled have one id just if they are
of one repository up to letter case. -/
theorem one_id_iff :
    (∀ (a : Spelling) (url : List Char), a.Spells u url →
      ((normalizeRemoteUrl u url = some (a.repo.id u) ∧
        normalizeRemoteUrl u (a.repo.id u) = some (a.repo.id u)) ↔ a.Folds u)) ∧
    ∀ (a b : Spelling) (url url' : List Char), a.Spells u url → b.Spells u url' →
      a.Folds u → b.Folds u →
        (normalizeRemoteUrl u url = normalizeRemoteUrl u url' ↔ a.repo.Same u b.repo) := by
  have hid : ∀ (a : Spelling) (url : List Char), a.Spells u url →
      ((normalizeRemoteUrl u url = some (a.repo.id u) ∧
        normalizeRemoteUrl u (a.repo.id u) = some (a.repo.id u)) ↔ a.Folds u) := by
    intro a url hurl
    rw [a.normalize_eq_id_iff laws hurl, a.repo.normalize_id_iff laws, Spelling.Folds]
    constructor
    · rintro ⟨⟨hslashes, -⟩, hname⟩
      exact ⟨hslashes, hname⟩
    · rintro ⟨hslashes, hname⟩
      exact ⟨⟨hslashes, fun _ _ ↦ hname⟩, hname⟩
  refine ⟨hid, fun a b url url' hurl hurl' ha hb ↦ ?_⟩
  rw [((hid a url hurl).mpr ha).1, ((hid b url' hurl').mpr hb).1, Option.some_inj]
  exact a.repo.id_inj laws b.repo

end Lower

/-- A repository of one owner. -/
def fooBar : Repo :=
  ⟨"github.com".toList, "foo".toList, "bar".toList, by decide, by decide, by decide, by decide,
    by decide, forall_mem_of_all (by decide), by decide⟩

theorem one_id_alias :
    normalizeRemoteUrl .ascii "git@GitHub.com:Foo/Bar.git".toList =
      some "github.com/foo/bar".toList := by
  have hspells : Spelling.Spells ⟨fooBar, .sshAlias, true, 0⟩ .ascii
      "git@GitHub.com:Foo/Bar.git".toList := ⟨by decide, by decide⟩
  have hfolds : Spelling.Folds ⟨fooBar, .sshAlias, true, 0⟩ .ascii := ⟨fun _ ↦ rfl, by decide⟩
  exact (((one_id_iff asciiLaws).1 _ _ hspells).mpr hfolds).1

/-- With a slash after `.git` it is another repository. -/
theorem two_ids_slash :
    ¬∀ a b : Spelling, a.repo.Same .ascii b.repo →
      normalizeRemoteUrl .ascii a.text = normalizeRemoteUrl .ascii b.text := by
  intro h
  have hsame := h ⟨fooBar, .https, true, 0⟩ ⟨fooBar, .https, true, 1⟩ ⟨rfl, rfl, rfl⟩
  revert hsame
  decide

end Claudebase.Address
