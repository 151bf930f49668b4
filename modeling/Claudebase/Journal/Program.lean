import Claudebase.Address.Repository
import Claudebase.Journal.Authored

/-!
# The journal a program names

`src/daemon/api.rs:33,65–108`, `src/daemon/journal_tools.rs:55–61,122–131,356–385`,
`src/journal.rs:325–340`. A request names its project as any spelling of a repository's URL. What
begins an id with `local:` is refused before the URL is folded only, and the id is trimmed again
where the tool looks for its caller; whether a journal exists is asked of the id as it was folded.
-/

namespace Claudebase.Journal
open Claudebase.Base Claudebase.Address

/-! ### What a program adds, it finds -/

section

variable {u : Unicode}

/-- The id of a project has characters. -/
theorem ne_empty_of_canonical {raw id : String} (h : canonical u raw = some id) : id ≠ "" := by
  unfold canonical at h
  split at h
  · cases h
  · obtain ⟨cs, hcs, h⟩ := Option.bind_eq_some_iff.mp h
    dsimp only at h
    split at h
    · next hparts =>
      cases h
      intro hempty
      have hnil : cs = [] := by
        have hlist := congrArg String.toList hempty
        rwa [String.toList_ofList] at hlist
      rw [hnil, List.splitOn_nil] at hparts
      simp at hparts
    · cases h

/-- The two ways an id is filed agree unless it is `local:` or has blanks at its ends. -/
theorem projectKey_eq_iff {id : String} (hne : id ≠ "") :
    projectKey (some (trimmed id)) (apiPath (trimmed id)) = projectKey (some id) [] ↔
      ¬ id.startsWith "local:" ∧ trimmed id = id := by
  have hpath : apiPath (trimmed id) ≠ [] := by simp [apiPath]
  constructor
  · intro h
    by_cases hlocal : id.startsWith "local:"
    · have hkey : projectKey (some id) [] = .folder [] := if_neg fun hno ↦ hno.2 hlocal
      rw [hkey, projectKey] at h
      split at h
      · cases h
      · exact absurd (Key.folder.inj h) hpath
    · have hkey : projectKey (some id) [] = .repo id := if_pos ⟨hne, hlocal⟩
      rw [hkey, projectKey] at h
      split at h
      · exact ⟨hlocal, Key.repo.inj h⟩
      · cases h
  · rintro ⟨hlocal, htrimmed⟩
    rw [htrimmed, projectKey, projectKey, if_pos ⟨hne, hlocal⟩, if_pos ⟨hne, hlocal⟩]

end

section

variable {u : Unicode} {sha256 : String → String} {parse : List UInt8 → Option Json}
  {thisHost : String}

/-- The journals that exist once a program's tool has run. -/
theorem has_performed {s : Service} {job : Job} {id author : String} (now : Int) (old : Insights)
    (hjob : job.caller = some (programCaller id author)) (key : Key) :
    (s.performed u sha256 thisHost job now old).has key = true ↔
      (programCaller id author).project = key ∨ s.state.has key = true ∧
        s.state.adopted (programCaller id author).project (apiPath id) ≠ some key := by
  unfold Service.performed
  rw [hjob]
  dsimp only
  have hsigned : (programCaller id author).agentId.isSome = true := rfl
  rw [State.openFor, if_pos hsigned]
  exact has_put

theorem programCaller_project (id author : String) :
    (programCaller id author).project = projectKey (some id) (apiPath id) := rfl

/-- A request that is well formed is let through when its journal is there, or when it may start
one. -/
theorem apiCall_tool_iff {fields : List (String × Json)} {body : List UInt8} {id tool : String}
    {journalExists : String → Bool} (hbody : parse body = some (.obj fields))
    (hid : canonical u (textArg (.obj fields) "project_id") = some id)
    (hauthor : textArg (.obj fields) "author" ≠ "") :
    (∃ call, apiCall u parse journalExists tool body = .tool call) ↔
      tool ∈ creates ∨ journalExists id = true := by
  constructor
  · rintro ⟨call, hcall⟩
    obtain ⟨fields', id', author, hbody', hid', -, -, hexists, -⟩ := tool_of_apiCall hcall
    cases hbody.symm.trans hbody'
    cases hid.symm.trans hid'
    exact hexists
  · intro h
    have hexists : ¬ (tool ∉ creates ∧ journalExists id = false) := by
      rintro ⟨hcreates, hno⟩
      rcases h with h | h
      · exact hcreates h
      · rw [h] at hno
        cases hno
    unfold apiCall
    rw [hbody]
    dsimp only
    rw [hid]
    dsimp only
    rw [if_neg hauthor, if_neg hexists]
    exact ⟨_, rfl⟩

/-- What a program adds to a project, its later requests for that project find, unless the name
folds to `local:` or to one with blanks at its ends. -/
theorem added_found_iff {fields : List (String × Json)} {body : List UInt8} {id tool : String}
    (hbody : parse body = some (.obj fields))
    (hid : canonical u (textArg (.obj fields) "project_id") = some id)
    (hauthor : textArg (.obj fields) "author" ≠ "") (htool : tool ∉ creates) :
    (∀ (s : Service) (job : Job) (author : String) (now : Int) (old : Insights),
      job.caller = some (programCaller (trimmed id) author) →
        ∃ call, apiCall u parse
          { s with state := s.performed u sha256 thisHost job now old }.journalExists tool body =
            .tool call) ↔
      ¬ id.startsWith "local:" ∧ trimmed id = id := by
  rw [← projectKey_eq_iff (ne_empty_of_canonical hid)]
  constructor
  · intro h
    have hfirst := h .start ⟨some (programCaller (trimmed id) ""), ⟨"journal_add", .null⟩⟩ "" 0
      ⟨[], true⟩ rfl
    rw [apiCall_tool_iff hbody hid hauthor, or_iff_right htool] at hfirst
    unfold Service.journalExists at hfirst
    rw [has_performed 0 _ rfl, programCaller_project] at hfirst
    rcases hfirst with hsame | ⟨hold, -⟩
    · exact hsame
    · cases hold
  · intro hsame s job author now old hjob
    rw [apiCall_tool_iff hbody hid hauthor, or_iff_right htool]
    unfold Service.journalExists
    rw [has_performed now old hjob, programCaller_project]
    exact Or.inl hsame

end

/-! ### One journal with the sessions of the repository -/

section

variable {u : Unicode} (laws : LowerLaws u)

/-- No part of the id is empty, or a step to where one is or above it. -/
def Proper (u : Unicode) (r : Repo) : Prop :=
  ∀ p ∈ (r.id u).splitOn '/', p ≠ [] ∧ p ≠ ['.'] ∧ p ≠ ['.', '.']

/-- An id has a host, an owner and a name. -/
theorem three_le_parts (r : Repo) : 3 ≤ ((r.id u).splitOn '/').length := by
  have hparts : ∀ s : List Char, 1 ≤ (s.splitOn '/').length :=
    fun s ↦ List.length_pos_iff.mpr (List.splitOn_ne_nil '/' s)
  rw [Repo.id, List.append_assoc, List.cons_append, List.splitOn_append_cons_self,
    List.splitOn_append_cons_self, List.length_append, List.length_append]
  have hhost := hparts (u.toLowercase r.host)
  have howner := hparts (u.toLowercase r.owner)
  have hname := hparts (u.toLowercase r.name)
  omega

include laws in
/-- The id of a repository is none of a folder. -/
theorem not_local_id (r : Repo) : ¬ (String.ofList (r.id u)).startsWith "local:" := by
  have hcolon : ':' ∉ u.toLowercase r.host := r.plain_host laws (by decide)
  have hid : r.id u =
      u.toLowercase r.host ++ '/' :: (u.toLowercase r.owner ++ '/' :: u.toLowercase r.name) := by
    rw [Repo.id, List.append_assoc, List.cons_append]
  rw [String.startsWith_string_iff, @String.toList_ofList (r.id u), hid]
  have hmem : ':' ∈ "local:".toList := by decide
  have hslash : '/' ∉ "local:".toList := by decide
  exact not_prefix_append_cons hmem hcolon hslash _

include laws in
/-- A URL begins with its form. -/
theorem not_local_url {a : Spelling} {url : List Char} (h : a.Spells u url) :
    ¬ (String.ofList url).startsWith "local:" := by
  rw [String.startsWith_string_iff]
  rintro ⟨rest, hrest⟩
  rw [@String.toList_ofList url] at hrest
  have hhead : ∃ c ∈ ['h', 's', 'g'], ∃ cs, a.text = c :: cs := by
    unfold Spelling.text
    cases a.form with
    | https => exact ⟨'h', by decide, _, rfl⟩
    | http => exact ⟨'h', by decide, _, rfl⟩
    | ssh => exact ⟨'s', by decide, _, rfl⟩
    | sshGit => exact ⟨'s', by decide, _, rfl⟩
    | sshAlias => exact ⟨'g', by decide, _, rfl⟩
  obtain ⟨c, hc, cs, htext⟩ := hhead
  have hsigma : 'Σ' ∉ a.text := fun hmem ↦ (a.plain_text _ hmem).2 rfl
  have hlower := h.1
  rw [laws.flatMap url h.2, laws.flatMap a.text hsigma, ← hrest, htext] at hlower
  have hfirst : laws.lower 'l' = ['l'] := laws.lower_ascii (by decide)
  have hthis : laws.lower c = [c] := by
    rcases List.mem_cons.mp hc with rfl | hc
    · exact laws.lower_ascii (by decide)
    · rcases List.mem_pair.mp hc with rfl | rfl
      · exact laws.lower_ascii (by decide)
      · exact laws.lower_ascii (by decide)
  have hl : "local:".toList ++ rest = 'l' :: ("ocal:".toList ++ rest) := rfl
  rw [hl, List.flatMap_cons, List.flatMap_cons, hfirst, hthis] at hlower
  have hsame : 'l' = c := (List.cons.inj hlower).1
  rw [← hsame] at hc
  revert hc
  decide

include laws in
/-- A spelled URL names its repository to the API just if its parts are proper. -/
theorem canonical_spells_iff {a : Spelling} {url : List Char} (h : a.Spells u url)
    (hfolds : a.Folds u) :
    canonical u (String.ofList url) = some (String.ofList (a.repo.id u)) ↔ Proper u a.repo := by
  have hid : normalizeRemoteUrl u url = some (a.repo.id u) :=
    (a.normalize_eq_id_iff laws h).mpr ⟨hfolds.1, fun _ _ ↦ hfolds.2⟩
  rw [canonical, if_neg (not_local_url laws h), String.toList_ofList, hid, Option.bind_some]
  dsimp only
  constructor
  · intro hsome
    split at hsome
    · next hparts => exact hparts.2
    · cases hsome
  · intro hproper
    exact if_pos ⟨three_le_parts a.repo, hproper⟩

include laws in
theorem projectKey_id (r : Repo) (path : Path) :
    projectKey (some (String.ofList (r.id u))) path = .repo (String.ofList (r.id u)) := by
  apply if_pos
  refine ⟨?_, not_local_id laws r⟩
  intro hempty
  have hlist := congrArg String.toList hempty
  rw [String.toList_ofList] at hlist
  exact r.id_ne_nil hlist

include laws in
theorem trimmed_id (r : Repo) :
    trimmed (String.ofList (r.id u)) = String.ofList (r.id u) := by
  rw [trimmed, String.toList_ofList, trim_solid (r.id_fixed laws).2.2]

end

section

variable {u : Unicode} (laws : LowerLaws u) {parse : List UInt8 → Option Json} {thisHost : String}
  {registry : Table SessionRow.agentId} {shares : Table ShareRow.key} {has : Key → Bool}

include laws in
/-- A program and a session whose folder is not shared elsewhere are in one journal just if the
URLs they name it by are of one repository. -/
theorem program_joins_iff {a b : Spelling} {url origin : List Char} (ha : a.Spells u url)
    (hb : b.Spells u origin) (hfa : a.Folds u) (hfb : b.Folds u) (hproper : Proper u a.repo)
    {tool : String} {body : List UInt8} {fields : List (String × Json)} {call : ToolCall}
    {journalExists : String → Bool} {needs : Bool} {c c' : Caller}
    (hbody : parse body = some (.obj fields))
    (hurl : textArg (.obj fields) "project_id" = String.ofList url)
    (hcall : apiCall u parse journalExists tool body = .tool call)
    (hc : (askerOf call.args needs >>= resolveCaller registry thisHost shares has needs) = .ok c)
    {agentId token : String} {row : SessionRow}
    (hc' : resolveCaller registry thisHost shares has true (.session agentId token) = .ok c')
    (hrow : registry.get? agentId = some row)
    (hid : row.projectId = (normalizeRemoteUrl u origin).map String.ofList)
    (hroute : sharedKey shares (row.host.getD thisHost) c'.path = none) :
    c.project = c'.project ↔ a.repo.Same u b.repo := by
  -- the program's journal
  have hprogram : c.project = .repo (String.ofList (a.repo.id u)) := by
    obtain ⟨fields', id, author, hbody', hcanonical, hauthor, hne, -, rfl⟩ := tool_of_apiCall hcall
    cases hbody.symm.trans hbody'
    rw [hurl, (canonical_spells_iff laws ha hfa).mpr hproper] at hcanonical
    cases hcanonical
    have hclean : clean (some author) = some author := by
      apply clean_eq_some_iff.mpr
      refine ⟨⟨author, rfl, ?_⟩, hne⟩
      rw [hauthor, textArg, trimmed_trimmed]
    rw [caller_of_handleApi hclean hc, trimmed_id laws a.repo]
    exact projectKey_id laws a.repo _
  -- the session's
  have hsession : c'.project = .repo (String.ofList (b.repo.id u)) := by
    have horigin : normalizeRemoteUrl u origin = some (b.repo.id u) :=
      (b.normalize_eq_id_iff laws hb).mpr ⟨hfb.1, fun _ _ ↦ hfb.2⟩
    rw [horigin, Option.map_some] at hid
    rw [resolveCaller] at hc'
    split at hc'
    · rw [hrow] at hc'
      dsimp only at hc'
      split at hc'
      · cases hc'
      · next path hcwd =>
        cases hc'
        show resolve shares has ⟨row.host.getD thisHost, path, row.projectId, true⟩ = _
        rw [resolve, hroute, hid]
        exact projectKey_id laws b.repo path
    · cases hc'
  rw [hprogram, hsession, Key.repo.injEq, ← a.repo.id_inj laws b.repo]
  constructor
  · intro h
    have hlist := congrArg String.toList h
    rwa [String.toList_ofList, String.toList_ofList] at hlist
  · intro h
    rw [h]

end

/-! ### A name that is lost, and a repository of one journal -/

def localFields : List (String × Json) :=
  [("project_id", .str "https://local:a/b/c"), ("author", .str "ci")]

/-- What is added to this project no request finds again. -/
theorem added_lost_local : ¬ ∀ (s : Service) (job : Job) (author : String) (now : Int)
    (old : Insights), job.caller = some (programCaller (trimmed "local:a/b/c") author) →
      ∃ call, apiCall .ascii (fun _ ↦ some (.obj localFields))
        { s with state := s.performed .ascii id "desk" job now old }.journalExists
          "journal_list" [] = .tool call := by
  intro h
  have hid : canonical .ascii (textArg (.obj localFields) "project_id") = some "local:a/b/c" := by
    decide +kernel
  have hfound := (@added_found_iff .ascii id _ "desk" localFields [] _ "journal_list" rfl hid
    (by decide +kernel) (by decide)).mp h
  exact hfound.1 (by decide +kernel)

def ciFields : List (String × Json) :=
  [("project_id", .str "https://GitHub.com/foo/bar"), ("author", .str "ci")]

theorem program_joins_ada :
    (programCaller "github.com/foo/bar" "ci").project = .repo "github.com/foo/bar" ↔
      fooBar.Same .ascii fooBar := by
  have hspells : Spelling.Spells ⟨fooBar, .https, false, 0⟩ .ascii
      "https://GitHub.com/foo/bar".toList := ⟨by decide, by decide⟩
  have hspells' : Spelling.Spells ⟨fooBar, .sshAlias, true, 0⟩ .ascii
      "git@github.com:foo/bar.git".toList := ⟨by decide, by decide⟩
  have hproper : Proper .ascii fooBar := by
    unfold Proper
    decide
  have hid : canonical .ascii (textArg (.obj ciFields) "project_id") =
      some "github.com/foo/bar" := by decide +kernel
  have hauthor : textArg (.obj ciFields) "author" = "ci" := by decide +kernel
  have hcall : apiCall .ascii (fun _ ↦ some (.obj ciFields)) (fun _ ↦ false) "journal_add" [] =
      .tool (handleApi "journal_add" "github.com/foo/bar" "ci"
        (apiArgs "journal_add" "ci" (.obj ciFields))) := by
    unfold apiCall
    dsimp only
    rw [hid, hauthor]
    rfl
  have hada : resolveCaller adaRows "desk" .empty (fun _ ↦ false) true (.session "ada-1" "t") =
      .ok ⟨.repo "github.com/foo/bar", ["w"], some "ada-1", some "ada", some "desk"⟩ := by
    decide +kernel
  exact program_joins_iff asciiLaws hspells hspells' ⟨by decide, by decide⟩
    ⟨by decide, by decide⟩ hproper rfl (by decide +kernel) hcall
    (by decide +kernel : (askerOf _ true >>= resolveCaller adaRows "desk" .empty (fun _ ↦ false)
      true) = .ok (programCaller "github.com/foo/bar" "ci")) hada rfl (by decide +kernel) rfl

end Claudebase.Journal
