import Claudebase.Journal.Restore

/-!
# Journals shared between folders

`src/journal.rs:322–368,1864–1907`, `src/daemon/journal_tools.rs:30–330,396–420`. A journal is
filed under a repository or under a folder; a row of `journal_shares` routes a folder, and what
lies below it, to another journal. Sharing a folder merges its own journal into that one and
moves its file aside: whoever read it by another way is left without it. A journal is taken to be
the file of the key it records; nothing here reads the vectors or the mind maps.
-/

namespace Claudebase.Journal
open Claudebase.Base

/-! ### Journals and routes -/

/-- An absolute path, the deepest name first. -/
abbrev Path := List String

/-- What a journal is filed under. -/
inductive Key where
  | repo (id : String)
  | folder (path : Path)
  deriving DecidableEq, Repr

/-- A path as it is shown. -/
def Path.display (path : Path) : String := "/" ++ "/".intercalate path.reverse

/-- A key as it is shown. -/
def Key.display : Key → String
  | .repo id => "git:" ++ id
  | .folder path => path.display

/-- `project_key`: the repository when there is one, else the directory. -/
def projectKey (projectId : Option String) (path : Path) : Key :=
  match projectId with
  | some id => if id ≠ "" ∧ ¬ id.startsWith "local:" then .repo id else .folder path
  | none => .folder path

/-- A row of `journal_shares`. -/
structure ShareRow where
  host : String
  path : Path
  journal : Key
  createdAt : Int
  deriving DecidableEq, Repr

/-- `PRIMARY KEY (host, path)`. -/
def ShareRow.key (r : ShareRow) : String × Path := (r.host, r.path)

/-- The routes and the journals of the daemon. -/
structure State where
  shares : Table ShareRow.key
  journals : Key → Option Db

/-- No routes, no journals. -/
def State.empty : State := ⟨.empty, fun _ ↦ none⟩

/-- `shared_key`: the route of the path or of the nearest enclosing folder. -/
def sharedKey (shares : Table ShareRow.key) (host : String) (path : Path) : Option Key :=
  path.tails.findSome? fun p ↦ (shares.get? (host, p)).map ShareRow.journal

/-- `nearest_journal`: the closest directory with a journal. -/
def nearestJournal (has : Key → Bool) (path : Path) : Key :=
  .folder ((path.tails.find? fun p ↦ has (.folder p)).getD path)

/-- A caller: a session, or a read from a plain terminal. -/
structure Reader where
  host : String
  path : Path
  projectId : Option String
  session : Bool
  deriving DecidableEq, Repr

/-- `resolve`, for the journals that exist. -/
def resolve (shares : Table ShareRow.key) (has : Key → Bool) (x : Reader) : Key :=
  match sharedKey shares x.host x.path with
  | some key => key
  | none =>
    let key := projectKey x.projectId x.path
    if x.session then key
    else if key ≠ .folder x.path ∧ has key = true then key else nearestJournal has x.path

/-- Whether a key has a journal. -/
def State.has (s : State) (key : Key) : Bool := (s.journals key).isSome

/-- `adopt_path_journal`: a directory's journal becomes its repository's. -/
def adopt (journals : Key → Option Db) (key : Key) (path : Path) : Key → Option Db :=
  if key = .folder path ∨ (journals key).isSome = true ∨ journals (.folder path) = none then journals
  else fun k ↦ if k = key then journals (.folder path) else if k = .folder path then none
    else journals k

/-- `open`: what a caller reads. A session adopts its directory's journal first; where there is
none, it starts an empty one. -/
def State.open (s : State) (x : Reader) : Option Db :=
  let key := resolve s.shares s.has x
  if x.session then some (((adopt s.journals key x.path) key).getD .empty) else s.journals key

/-! ### Sharing -/

/-- What `share` reports. -/
inductive Shared where
  | already
  | merged (written deduped : Nat)
  deriving DecidableEq, Repr

/-- A journal put in its place. -/
def State.file (s : State) (key : Key) (db : Option Db) : State :=
  { s with journals := fun k ↦ if k = key then db else s.journals k }

/-- The end of `share`: one more route. -/
def State.route (s : State) (r : ShareRow) : State := { s with shares := s.shares.insertOrIgnore r }

/-- `share`, run by `caller` for the folder `target` of `host`. -/
def share (u : Unicode) (sha256 : String → String) (s : State) (caller : Reader) (host : String)
    (target : Path) (targetProjectId : Option String) (now : Int) : Except String Shared × State :=
  let project := resolve s.shares s.has caller
  match sharedKey s.shares host target with
  | some key =>
    if key = project then (.ok .already, s)
    else (.error s!"{target.display} already writes into the journal of {key.display}; unshare it first", s)
  | none =>
    let own := projectKey targetProjectId target
    if own = project then
      (.error s!"{target.display} already shares this journal: it is the same repository ({own.display}), and every checkout of one repository has one journal", s)
    else
      -- the journal exists from here on
      let dst := (s.journals project).getD .empty
      match s.journals own with
      | none =>
        (.ok (.merged 0 0), (s.file project (some dst)).route ⟨host, target, project, now⟩)
      | some src =>
        match mergeEntries u sha256 dst src with
        | (.error m, dst) => (.error m, s.file project (some dst))
        | (.ok m, dst) => (.ok (.merged m.written m.merged),
            ((s.file project (some dst)).file own none).route ⟨host, target, project, now⟩)

/-- `unshare`: the folder takes a copy of the journal with it. -/
def unshare (s : State) (host : String) (target : Path) (targetProjectId : Option String) :
    Except String Unit × State :=
  match s.shares.get? (host, target) with
  | none => (.error s!"{target.display} is not shared (see `claudebase journal shares`)", s)
  | some r =>
    let own := projectKey targetProjectId target
    let unrouted : State := { s with shares := s.shares.deleteKey (host, target) }
    match s.journals r.journal with
    | none => (.ok (), unrouted)
    | some src =>
      if s.has own = true then (.error s!"{own.display} already has a journal", s)
      else (.ok (), unrouted.file own (some src))

/-! ### Runs -/

/-- A call that writes. -/
inductive ShareOp where
  | record (x : Reader) (entry : NewEntry) (now : Int)
  | share (caller : Reader) (host : String) (target : Path) (targetProjectId : Option String)
      (now : Int)
  | unshare (host : String) (target : Path) (targetProjectId : Option String)

/-- `add` from a session. -/
def record (u : Unicode) (sha256 : String → String) (s : State) (x : Reader) (entry : NewEntry)
    (now : Int) : State :=
  if x.session then
    let key := resolve s.shares s.has x
    let journals := adopt s.journals key x.path
    let db := (journals key).getD .empty
    { s with journals := fun k ↦
        if k = key then some (transact db (add u sha256 db entry now)).2 else journals k }
  else s

/-- The state after a call. -/
def State.next (u : Unicode) (sha256 : String → String) (s : State) : ShareOp → State
  | .record x entry now => record u sha256 s x entry now
  | .share caller host target targetProjectId now =>
    (Journal.share u sha256 s caller host target targetProjectId now).2
  | .unshare host target targetProjectId => (Journal.unshare s host target targetProjectId).2

/-! ### Who reads what -/

/-- The entry itself, or one with its text, as `add` recognises it. -/
def Holds (sha256 : String → String) (db : Db) (e : Entry) : Prop :=
  e ∈ db.entries.rows ∨ ∃ x ∈ db.entries.rows, x.sha256 = sha256 (trimmed e.body)

/-- The journal a reader ends up with, of those that exist: the one it resolves to, or, for a
session without that one, its directory's, which it adopts. -/
def landing (shares : Table ShareRow.key) (has : Key → Bool) (x : Reader) : Option Key :=
  let key := resolve shares has x
  if has key = true then some key
  else if x.session = true ∧ key ≠ .folder x.path ∧ has (.folder x.path) = true then
    some (.folder x.path)
  else none

/-- An entry that a reader finds is in the journal it lands on. -/
theorem exists_open_iff {sha256 : String → String} {s : State} {x : Reader} {e : Entry} :
    (∃ db, s.open x = some db ∧ Holds sha256 db e) ↔
      ∃ key, landing s.shares s.has x = some key ∧
        ∃ db, s.journals key = some db ∧ Holds sha256 db e := by
  have hempty : ¬ Holds sha256 .empty e := by simp [Holds, Db.empty]
  unfold State.open landing
  dsimp only
  cases hkey : s.journals (resolve s.shares s.has x) with
  | some db =>
    have hhas : s.has (resolve s.shares s.has x) = true := by simp [State.has, hkey]
    have hadopt : adopt s.journals (resolve s.shares s.has x) x.path = s.journals := by
      simp [adopt, hkey]
    rw [if_pos hhas, hadopt, hkey]
    simp [hkey]
  | none =>
    have hhas : ¬ s.has (resolve s.shares s.has x) = true := by simp [State.has, hkey]
    rw [if_neg hhas]
    by_cases hsession : x.session = true
    · rw [if_pos hsession]
      by_cases hfolder : resolve s.shares s.has x ≠ .folder x.path ∧ s.has (.folder x.path) = true
      · obtain ⟨db, hdb⟩ := Option.isSome_iff_exists.mp hfolder.2
        have hadopt : adopt s.journals (resolve s.shares s.has x) x.path
            (resolve s.shares s.has x) = some db := by
          simp [adopt, hkey, hfolder.1, hdb]
        rw [if_pos ⟨hsession, hfolder⟩, hadopt]
        simp [hdb]
      · have hadopt : adopt s.journals (resolve s.shares s.has x) x.path
            (resolve s.shares s.has x) = none := by
          unfold adopt
          split
          · exact hkey
          · next h =>
            simp only [not_or] at h
            refine absurd ⟨h.1, ?_⟩ hfolder
            exact Option.isSome_iff_ne_none.mpr h.2.2
        rw [if_neg (fun h ↦ hfolder h.2), hadopt]
        simp [hempty]
    · rw [if_neg hsession, if_neg (fun h ↦ hsession h.1)]
      simp

/-- A new route takes over what lies at or below it and had no route. -/
theorem sharedKey_route {shares : Table ShareRow.key} {r : ShareRow} {host : String} {path : Path}
    (hfree : sharedKey shares r.host r.path = none) :
    sharedKey (shares.insertOrIgnore r) host path =
      if host = r.host ∧ r.path <:+ path ∧ sharedKey shares host path = none then some r.journal
      else sharedKey shares host path := by
  have hnone : ∀ p, p <:+ r.path → shares.get? (r.host, p) = none := by
    intro p hp
    have h := List.findSome?_eq_none_iff.mp hfree p ((List.mem_tails p r.path).mpr hp)
    simpa using h
  have hself : (shares.insertOrIgnore r).get? (r.host, r.path) = some r :=
    Table.get?_insertOrIgnore_self (hnone r.path (List.suffix_refl _))
  have hother : ∀ h p, (h, p) ≠ (r.host, r.path) →
      (shares.insertOrIgnore r).get? (h, p) = shares.get? (h, p) :=
    fun h p hne ↦ Table.get?_insertOrIgnore_of_ne hne
  by_cases hhost : host = r.host
  · subst hhost
    unfold sharedKey
    induction path with
    | nil =>
      by_cases hp : r.path = []
      · have hroot : (shares.insertOrIgnore r).get? (r.host, []) = some r := by
          rw [hp] at hself
          exact hself
        simp [hroot, hnone [] (by simp), hp]
      · simp [hother r.host [] (by simp [Ne.symm hp]), hp]
    | cons a path ih =>
      rw [List.tails_cons, List.findSome?_cons, List.findSome?_cons]
      by_cases hp : a :: path = r.path
      · -- the new route itself: nothing at or above its folder was routed
        have hbelow : path.tails.findSome? (fun p ↦ (shares.get? (r.host, p)).map ShareRow.journal) =
            none := by
          rw [List.findSome?_eq_none_iff]
          intro p hpath
          have hsuffix : p <:+ r.path :=
            hp ▸ ((List.mem_tails p path).mp hpath).trans (List.suffix_cons a path)
          simp [hnone p hsuffix]
        rw [hp, hself, hnone r.path (List.suffix_refl _), Option.map_some, Option.map_none, hbelow]
        simp
      · have hne : (r.host, a :: path) ≠ (r.host, r.path) := by simpa using hp
        rw [hother r.host (a :: path) hne]
        cases hget : shares.get? (r.host, a :: path) with
        | some r' => simp
        | none =>
          have hsuffix : r.path <:+ a :: path ↔ r.path <:+ path := by
            rw [List.suffix_cons_iff]
            exact or_iff_right (Ne.symm hp)
          simp only [Option.map_none, ih, hsuffix]
  · rw [if_neg fun h ↦ hhost h.1]
    unfold sharedKey
    congr 1
    funext p
    rw [hother host p (by simp [hhost])]

/-! ### What a share leaves its readers -/

/-- The journals that exist after a share of `own` into `project`. -/
def hasAfter (s : State) (project own key : Key) : Bool :=
  key == project || (key != own && s.has key)

/-- A reader of the former journal reads on: the folder was shared before, or the reader lies at
or below it on its host with no route of its own, or, with the former journal gone, it lands on
the journal shared into or on one that holds the entry. -/
def ReadsOn (sha256 : String → String) (s : State) (project own : Key) (host : String)
    (target : Path) (x : Reader) (e : Entry) : Prop :=
  sharedKey s.shares host target ≠ none ∨
  (x.host = host ∧ target <:+ x.path ∧ sharedKey s.shares x.host x.path = none) ∨
  ∃ key, landing s.shares (hasAfter s project own) x = some key ∧
    (key = project ∨ ∃ db, s.journals key = some db ∧ Holds sha256 db e)

/-- A merge leaves every entry of the source in the destination. -/
theorem holds_of_mergeEntries {u : Unicode} {sha256 : String → String} {dst src dst' : Db}
    {m : Merged} (h : mergeEntries u sha256 dst src = (.ok m, dst')) {e : Entry}
    (he : e ∈ src.entries.rows) : Holds sha256 dst' e := by
  obtain ⟨x, hx, -, hsha⟩ := (mergeEntries_ok h).1.exists_entry (mem_oldestFirst.mpr he)
  exact Or.inr ⟨x, hx, hsha⟩

/-- The state after a share. -/
def State.shared (s : State) (own : Key) (r : ShareRow) (db : Db) : State :=
  ((s.file r.journal (some db)).file own none).route r

/-- What a share that goes through does. -/
theorem share_ok {u : Unicode} {sha256 : String → String} {s s' : State} {caller : Reader}
    {host : String} {target : Path} {targetProjectId : Option String} {now : Int} {out : Shared}
    {src : Db}
    (h : share u sha256 s caller host target targetProjectId now = (.ok out, s'))
    (hsrc : s.journals (projectKey targetProjectId target) = some src) :
    (sharedKey s.shares host target ≠ none ∧ s' = s) ∨
    (sharedKey s.shares host target = none ∧
      projectKey targetProjectId target ≠ resolve s.shares s.has caller ∧
      ∃ m dst', mergeEntries u sha256 ((s.journals (resolve s.shares s.has caller)).getD .empty) src =
          (.ok m, dst') ∧
        s' = s.shared (projectKey targetProjectId target)
          ⟨host, target, resolve s.shares s.has caller, now⟩ dst') := by
  unfold share at h
  dsimp only at h
  cases hshared : sharedKey s.shares host target with
  | some key =>
    rw [hshared] at h
    dsimp only at h
    split at h
    · cases h
      exact Or.inl ⟨by simp, rfl⟩
    · cases h
  | none =>
    rw [hshared] at h
    dsimp only at h
    split at h
    · cases h
    · next hne =>
      rw [hsrc] at h
      dsimp only at h
      split at h
      · cases h
      · next m dst' hmerge =>
        cases h
        exact Or.inr ⟨rfl, hne, m, dst', hmerge, rfl⟩

variable {u : Unicode} {sha256 : String → String}

section

variable {s : State} {own : Key} {r : ShareRow} {db : Db}

theorem journals_shared (key : Key) : (s.shared own r db).journals key =
    if key = own then none else if key = r.journal then some db else s.journals key := rfl

theorem has_shared (hne : own ≠ r.journal) :
    (s.shared own r db).has = hasAfter s r.journal own := by
  funext key
  unfold State.has hasAfter
  rw [journals_shared]
  by_cases howned : key = own
  · simp [howned, hne]
  · by_cases hproject : key = r.journal
    · simp [hproject, Ne.symm hne]
    · have hp : (key == r.journal) = false := by simpa using hproject
      have ho : (key != own) = true := by simpa using howned
      rw [if_neg howned, if_neg hproject, hp, ho, Bool.true_and, Bool.false_or]
      rfl

/-- Where a reader lands after a share. -/
theorem landing_shared (hne : own ≠ r.journal) (hfree : sharedKey s.shares r.host r.path = none)
    (x : Reader) : landing (s.shared own r db).shares (s.shared own r db).has x =
      if x.host = r.host ∧ r.path <:+ x.path ∧ sharedKey s.shares x.host x.path = none then
        some r.journal
      else landing s.shares (hasAfter s r.journal own) x := by
  have hshares : (s.shared own r db).shares = s.shares.insertOrIgnore r := rfl
  rw [hshares, has_shared hne]
  unfold landing resolve
  rw [sharedKey_route hfree]
  by_cases hrouted : x.host = r.host ∧ r.path <:+ x.path ∧ sharedKey s.shares x.host x.path = none
  · rw [if_pos hrouted, if_pos hrouted]
    exact if_pos (by simp [hasAfter])
  · rw [if_neg hrouted, if_neg hrouted]

end

theorem has_of_landing {shares : Table ShareRow.key} {has : Key → Bool} {x : Reader} {key : Key}
    (h : landing shares has x = some key) : has key = true := by
  unfold landing at h
  dsimp only at h
  split at h
  · next hhas =>
    cases h
    exact hhas
  · split at h
    · next hhas =>
      cases h
      exact hhas.2.2
    · cases h

/-- One share, from any state. -/
theorem open_share_iff {s s' : State} {caller : Reader} {host : String} {target : Path}
    {targetProjectId : Option String} {now : Int} {out : Shared}
    (h : share u sha256 s caller host target targetProjectId now = (.ok out, s')) {x : Reader}
    {db : Db} {e : Entry}
    (hreads : resolve s.shares s.has x = projectKey targetProjectId target)
    (hdb : s.journals (projectKey targetProjectId target) = some db) (he : e ∈ db.entries.rows) :
    (∃ db', s'.open x = some db' ∧ Holds sha256 db' e) ↔
      ReadsOn sha256 s (resolve s.shares s.has caller) (projectKey targetProjectId target) host target
        x e := by
  rw [exists_open_iff]
  unfold ReadsOn
  rcases share_ok h hdb with ⟨hshared, rfl⟩ | ⟨hshared, hne, m, dst', hmerge, rfl⟩
  · have hlanding : landing s'.shares s'.has x = some (projectKey targetProjectId target) := by
      unfold landing
      rw [hreads]
      exact if_pos (by simp [State.has, hdb])
    constructor
    · exact fun _ ↦ Or.inl hshared
    · exact fun _ ↦ ⟨_, hlanding, db, hdb, Or.inl he⟩
  · have hholds : Holds sha256 dst' e := holds_of_mergeEntries hmerge he
    rw [landing_shared hne hshared]
    by_cases hrouted : x.host = host ∧ target <:+ x.path ∧ sharedKey s.shares x.host x.path = none
    · rw [if_pos hrouted]
      constructor
      · exact fun _ ↦ Or.inr (Or.inl hrouted)
      · exact fun _ ↦ ⟨_, rfl, dst', by rw [journals_shared, if_neg (Ne.symm hne), if_pos rfl], hholds⟩
    · rw [if_neg hrouted]
      constructor
      · rintro ⟨key, hlanding, db', hdb', hholds'⟩
        refine Or.inr (Or.inr ⟨key, hlanding, ?_⟩)
        rw [journals_shared] at hdb'
        by_cases hproject : key = resolve s.shares s.has caller
        · exact Or.inl hproject
        · rw [if_neg hproject] at hdb'
          split at hdb'
          · cases hdb'
          · exact Or.inr ⟨db', hdb', hholds'⟩
      · rintro (hshared' | hrouted' | ⟨key, hlanding, hkey⟩)
        · exact absurd hshared hshared'
        · exact absurd hrouted' hrouted
        · refine ⟨key, hlanding, ?_⟩
          rw [journals_shared]
          by_cases hproject : key = resolve s.shares s.has caller
          · rw [hproject, if_neg (Ne.symm hne), if_pos rfl]
            exact ⟨dst', rfl, hholds⟩
          · have hown : key ≠ projectKey targetProjectId target := by
              rintro rfl
              have hhas := has_of_landing hlanding
              simp [hasAfter, hproject] at hhas
            rw [if_neg hown, if_neg hproject]
            exact hkey.resolve_left hproject

/-- Two checkouts of a repository, and a folder without one. -/
def checkout : Reader := ⟨"laptop", ["fork", "work"], some "github.com/o/r", true⟩
def otherCheckout : Reader := ⟨"laptop", ["copy", "work"], some "github.com/o/r", true⟩
def notes : Reader := ⟨"laptop", ["notes"], none, true⟩

/-- A checkout writes an entry. -/
def recordedRun : List ShareOp :=
  [.record checkout { body := "the port is 4100", category := "finding", tags := ["net"] } 1]

/-- The journals then. -/
def recorded : State := run (State.next .ascii id) .empty recordedRun

/-- The entry. -/
def portEntry : Entry :=
  ⟨1, 1, "finding", "the port is 4100", "the port is 4100", "medium", none, none, none, none, none⟩

end Claudebase.Journal
