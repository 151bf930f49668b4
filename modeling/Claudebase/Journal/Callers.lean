import Claudebase.Pool.Db
import Claudebase.Journal.Share

/-!
# Who asks, and for which journal

`src/daemon/journal_tools.rs:36–61,122–220`, `src/daemon/agent_registry.rs:912–972`. A call comes
from an author of the public API, from a live session of any machine, or from a directory of a
terminal. A route is looked up under the machine and the folder; a journal without a repository is
filed under the folder alone, whichever machine that lies on. Folders are normalised absolute
paths.
-/

namespace Claudebase.Journal
open Claudebase.Base
open Pool (AgentState)

/-! ### Callers -/

/-- The columns of `agent_registry` that name a session's journal. An empty `cwd` counts as
missing. -/
structure SessionRow where
  agentId : String
  agentName : Option String
  sessionToken : Option String
  state : AgentState
  cwd : Option Path
  projectId : Option String
  host : Option String
  deriving DecidableEq, Repr

/-- Who makes a call, as its arguments say. -/
inductive Asker where
  | author (projectId author : String)
  | session (agentId sessionToken : String)
  | directory (host : Option String) (path : Path) (projectId : Option String)
  deriving DecidableEq, Repr

/-- `Caller`. -/
structure Caller where
  project : Key
  path : Path
  agentId : Option String
  nick : Option String
  host : Option String
  deriving DecidableEq, Repr

/-- `/api/{project_id}`. -/
def apiPath (projectId : String) : Path :=
  ((projectId.toList.splitOn '/').map String.ofList).reverse ++ ["api"]

/-- `resolve_session_token`. -/
def resolveSessionToken (registry : Table SessionRow.agentId) (agentId token : String) : Bool :=
  if token = "" then false
  else (registry.get? agentId).any fun r ↦ r.state == .alive && r.sessionToken == some token

section

variable (registry : Table SessionRow.agentId) (thisHost : String) (shares : Table ShareRow.key)
  (has : Key → Bool)

/-- `resolve` of `journal_tools.rs`. -/
def resolveCaller (needSession : Bool) : Asker → Except String Caller
  | .author projectId author =>
    let path := apiPath projectId
    .ok ⟨projectKey (some projectId) path, path, some s!"api:{author}", some author,
      some "api"⟩
  | .session agentId token =>
    if resolveSessionToken registry agentId token then
      match registry.get? agentId with
      | none => .error "Query returned no rows"
      | some row =>
        match row.cwd with
        | none => .error ("the daemon does not know which directory this session was started " ++
            "in; restart it with `claudebase run`")
        | some path =>
          let host := row.host.getD thisHost
          .ok ⟨resolve shares has ⟨host, path, row.projectId, true⟩, path, some agentId,
            row.agentName, some host⟩
    else .error ("this session is not registered with the daemon (session_token does not match " ++
      "an alive agent) — if the daemon was restarted, restart the session with `claudebase run`")
  | .directory host path projectId =>
    if needSession then
      .error ("writing to the journal needs a session started with `claudebase run` " ++
        "(CLAUDEBASE_AGENT_ID / CLAUDEBASE_SESSION_TOKEN are not set) — the journal belongs to " ++
        "the directory that session was started in")
    else
      .ok ⟨resolve shares has ⟨host.getD thisHost, path, projectId, false⟩, path, none, none, none⟩

/-! ### What is promised -/

/-- Where a live session or an author works: its machine, its folder and its repository. -/
def Asker.works : Asker → Option Reader
  | .author projectId _ => some ⟨"api", apiPath projectId, some projectId, true⟩
  | .session agentId token =>
    if resolveSessionToken registry agentId token then
      (registry.get? agentId).bind fun row ↦ row.cwd.map fun path ↦
        ⟨row.host.getD thisHost, path, row.projectId, true⟩
    else none
  | .directory .. => none

/-- The repository a folder belongs to. -/
def Reader.repository (x : Reader) : Option String :=
  x.projectId.filter fun id ↦ id ≠ "" ∧ ¬ id.startsWith "local:"

/-- A share row routes a folder around this one, on its own machine, to a journal. -/
def RoutedTo (x : Reader) (key : Key) : Prop :=
  ∃ r ∈ shares.rows, r.host = x.host ∧ r.path <:+ x.path ∧ r.journal = key

/-- Two askers of one journal are of one repository, or of one folder, or one of them is routed
to it. -/
def Unmixed (a b : Asker) : Prop :=
  ∀ x y, a.works registry thisHost = some x → b.works registry thisHost = some y →
    ∀ needs needs' c c', resolveCaller registry thisHost shares has needs a = .ok c →
      resolveCaller registry thisHost shares has needs' b = .ok c' → c.project = c'.project →
        (∃ id, x.repository = some id ∧ y.repository = some id) ∨
          (x.host = y.host ∧ x.path = y.path) ∨
          RoutedTo shares x c.project ∨ RoutedTo shares y c.project

/-- The route found for an asker; none is looked up for an author. -/
def Asker.route (x : Reader) : Asker → Option Key
  | .author .. => none
  | .session .. | .directory .. => sharedKey shares x.host x.path

/-- The folder has no repository, and no route is found for it. -/
def Asker.plain (a : Asker) (x : Reader) : Prop := x.repository = none ∧ a.route shares x = none

/-- Two folders of one path lie on different machines, have no repository and no route to the
journal of that path. -/
def SamePathElsewhere (a b : Asker) : Prop :=
  ∃ x y, a.works registry thisHost = some x ∧ b.works registry thisHost = some y ∧
    a.plain shares x ∧ b.plain shares y ∧ x.path = y.path ∧ x.host ≠ y.host ∧
    ¬RoutedTo shares x (.folder x.path) ∧ ¬RoutedTo shares y (.folder y.path)

end

/-! ### The journal of an asker -/

section

variable {registry : Table SessionRow.agentId} {thisHost : String} {shares : Table ShareRow.key}
  {has : Key → Bool}

theorem projectKey_eq (x : Reader) :
    projectKey x.projectId x.path = (x.repository.map Key.repo).getD (.folder x.path) := by
  unfold projectKey Reader.repository
  cases x.projectId with
  | none => rfl
  | some id =>
    rw [Option.filter_some, decide_eq_decide.mpr Iff.rfl]
    by_cases h : id ≠ "" ∧ ¬ id.startsWith "local:"
    · rw [decide_eq_true h, if_pos rfl]
      exact if_pos h
    · rw [decide_eq_false h, if_neg Bool.false_ne_true]
      exact if_neg h

/-- A folder is filed under itself or under its repository. -/
theorem filed_cases (x : Reader) :
    x.repository = none ∧ projectKey x.projectId x.path = .folder x.path ∨
      ∃ id, x.repository = some id ∧ projectKey x.projectId x.path = .repo id := by
  rw [projectKey_eq]
  cases x.repository with
  | none => exact Or.inl ⟨rfl, rfl⟩
  | some id => exact Or.inr ⟨id, rfl, rfl⟩

/-- A route that is found is that of a row. -/
theorem routedTo_of_sharedKey {x : Reader} {key : Key}
    (h : sharedKey shares x.host x.path = some key) : RoutedTo shares x key := by
  obtain ⟨p, hp, hrow⟩ := List.exists_of_findSome?_eq_some h
  obtain ⟨r, hr, hkey⟩ := Option.map_eq_some_iff.mp hrow
  obtain ⟨hmem, hr⟩ := Table.get?_eq_some_iff.mp hr
  obtain ⟨hhost, hpath⟩ := Prod.mk.inj hr
  exact ⟨r, hmem, hhost, hpath ▸ (List.mem_tails _ _).mp hp, hkey⟩

/-- An asker that works somewhere resolves to the journal it is routed to, or else to that of its
repository or folder. -/
theorem resolveCaller_works {a : Asker} {x : Reader} (needSession : Bool)
    (h : a.works registry thisHost = some x) :
    ∃ c, resolveCaller registry thisHost shares has needSession a = .ok c ∧
      c.project = (a.route shares x).getD (projectKey x.projectId x.path) := by
  cases a with
  | author projectId author =>
    cases h
    exact ⟨_, rfl, rfl⟩
  | session agentId token =>
    simp only [Asker.works] at h
    split at h
    · next hlive =>
      obtain ⟨row, hrow, hpath⟩ := Option.bind_eq_some_iff.mp h
      obtain ⟨path, hcwd, rfl⟩ := Option.map_eq_some_iff.mp hpath
      rw [resolveCaller, if_pos hlive, hrow]
      dsimp only
      rw [hcwd]
      refine ⟨_, rfl, ?_⟩
      show resolve shares has ⟨row.host.getD thisHost, path, row.projectId, true⟩ =
        (sharedKey shares (row.host.getD thisHost) path).getD (projectKey row.projectId path)
      rw [resolve]
      cases sharedKey shares (row.host.getD thisHost) path with
      | some key => rfl
      | none => rfl
    · cases h
  | directory host path projectId => cases h

/-- It is routed to its journal, or has it from its folder or from its repository. -/
theorem journal_cases {a : Asker} {x : Reader} {key : Key}
    (h : key = (a.route shares x).getD (projectKey x.projectId x.path)) :
    RoutedTo shares x key ∨ a.plain shares x ∧ key = .folder x.path ∨
      ∃ id, x.repository = some id ∧ key = .repo id := by
  cases hroute : a.route shares x with
  | some routed =>
    have hkey : key = routed := by
      rw [h, hroute]
      rfl
    have hshared : sharedKey shares x.host x.path = some routed := by
      cases a with
      | author projectId author => cases hroute
      | session agentId token => exact hroute
      | directory host path projectId => exact hroute
    exact Or.inl (hkey ▸ routedTo_of_sharedKey hshared)
  | none =>
    have hkey : key = projectKey x.projectId x.path := by
      rw [h, hroute]
      rfl
    apply Or.inr
    rw [hkey]
    rcases filed_cases x with ⟨hnone, hfolder⟩ | hrepo
    · exact Or.inl ⟨⟨hnone, hroute⟩, hfolder⟩
    · exact Or.inr hrepo

theorem projectKey_of_plain {a : Asker} {x : Reader} (h : a.plain shares x) :
    (a.route shares x).getD (projectKey x.projectId x.path) = .folder x.path := by
  rw [h.2, projectKey_eq, h.1]
  rfl

end

/-- Two askers of one journal belong together unless they are two folders of one path on
different machines. -/
theorem journals_unmixed_iff (registry : Table SessionRow.agentId) (thisHost : String)
    (shares : Table ShareRow.key) (has : Key → Bool) (a b : Asker) :
    Unmixed registry thisHost shares has a b ↔ ¬SamePathElsewhere registry thisHost shares a b := by
  constructor
  · rintro h ⟨x, y, hx, hy, hplainx, hplainy, hpath, hhost, hnox, hnoy⟩
    obtain ⟨c, hc, hkey⟩ := @resolveCaller_works registry thisHost shares has a x true hx
    obtain ⟨c', hc', hkey'⟩ := @resolveCaller_works registry thisHost shares has b y true hy
    rw [projectKey_of_plain hplainx] at hkey
    rw [projectKey_of_plain hplainy] at hkey'
    have hsame : c.project = c'.project := by rw [hkey, hkey', hpath]
    rcases h x y hx hy true true c c' hc hc' hsame with
      ⟨id, hrepo, -⟩ | ⟨hmachine, -⟩ | hroute | hroute
    · rw [hplainx.1] at hrepo
      cases hrepo
    · exact hhost hmachine
    · exact hnox (hkey ▸ hroute)
    · exact hnoy (hkey' ▸ hsame ▸ hroute)
  · intro h x y hx hy needs needs' c c' hc hc' hsame
    obtain ⟨d, hd, hkey⟩ := @resolveCaller_works registry thisHost shares has a x needs hx
    obtain ⟨d', hd', hkey'⟩ := @resolveCaller_works registry thisHost shares has b y needs' hy
    cases hc.symm.trans hd
    cases hc'.symm.trans hd'
    rcases journal_cases hkey with hroute | ⟨hplainx, hfolder⟩ | ⟨id, hrepo, hid⟩
    · exact Or.inr (Or.inr (Or.inl hroute))
    · rcases journal_cases hkey' with hroute' | ⟨hplainy, hfolder'⟩ | ⟨id', hrepo', hid'⟩
      · exact Or.inr (Or.inr (Or.inr (hsame ▸ hroute')))
      · -- two plain folders: of one path, so of one machine
        have hpath : x.path = y.path := Key.folder.inj (hfolder.symm.trans (hsame.trans hfolder'))
        by_contra hno
        simp only [not_or] at hno
        refine h ⟨x, y, hx, hy, hplainx, hplainy, hpath, fun hhost ↦ hno.2.1 ⟨hhost, hpath⟩, ?_, ?_⟩
        · rw [← hfolder]
          exact hno.2.2.1
        · rw [← hfolder', ← hsame]
          exact hno.2.2.2
      · rw [hfolder, hid'] at hsame
        cases hsame
    · rcases journal_cases hkey' with hroute' | ⟨-, hfolder'⟩ | ⟨id', hrepo', hid'⟩
      · exact Or.inr (Or.inr (Or.inr (hsame ▸ hroute')))
      · rw [hid, hfolder'] at hsame
        cases hsame
      · have hids : id = id' := Key.repo.inj (hid.symm.trans (hsame.trans hid'))
        exact Or.inl ⟨id, hrepo, hids ▸ hrepo'⟩

/-! ### One path, two machines -/

private def twoMachines : Table SessionRow.agentId where
  rows := [
    ⟨"a1", some "ada", some "s1", .alive, some ["app", "dev", "home"], some "local:9c1e",
      some "desk"⟩,
    ⟨"b1", some "bob", some "s2", .alive, some ["app", "dev", "home"], some "local:9c1e",
      some "lap"⟩]
  nodup := by decide

/-- A session joined from a laptop reads the notes of the folder of the same path on the desk. -/
theorem journals_unmixed_same_path :
    ¬Unmixed twoMachines "desk" .empty (fun _ ↦ false) (.session "a1" "s1")
      (.session "b1" "s2") := by
  intro h
  have hx : (Asker.session "a1" "s1").works twoMachines "desk" =
      some ⟨"desk", ["app", "dev", "home"], some "local:9c1e", true⟩ := by decide +kernel
  have hy : (Asker.session "b1" "s2").works twoMachines "desk" =
      some ⟨"lap", ["app", "dev", "home"], some "local:9c1e", true⟩ := by decide +kernel
  obtain ⟨c, hc, hkey⟩ := @resolveCaller_works _ _ .empty (fun _ ↦ false) _ _ true hx
  obtain ⟨c', hc', hkey'⟩ := @resolveCaller_works _ _ .empty (fun _ ↦ false) _ _ true hy
  have hsame : c.project = c'.project := hkey.trans hkey'.symm
  rcases h _ _ hx hy true true c c' hc hc' hsame with
    ⟨id, hrepo, -⟩ | ⟨hmachine, -⟩ | ⟨r, hr, -⟩ | ⟨r, hr, -⟩
  · have hnone : Reader.repository ⟨"desk", ["app", "dev", "home"], some "local:9c1e", true⟩ =
        none := by decide +kernel
    rw [hnone] at hrepo
    cases hrepo
  · exact absurd hmachine (by decide)
  · cases hr
  · cases hr

end Claudebase.Journal
