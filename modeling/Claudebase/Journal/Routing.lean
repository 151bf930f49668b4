import Claudebase.Journal.Archive
import Claudebase.Journal.Share

/-!
# What is written for a folder and what its readers read

`src/daemon/journal_tools.rs:122–331,356–387,415–580`, `src/journal.rs:1874–1893`. Sessions and
reads of a directory follow the routes. An import writes into the journal that the folder would
have without a route, which its readers then do not read, and which keeps the folder from taking
a copy of the shared journal with it.
-/

namespace Claudebase.Journal
open Claudebase.Base

/-! ### Writes -/

/-- What a session writes; mind maps lie in tables of their own. -/
inductive Note where
  | entry (op : Op)
  | mindMap

/-- What one call of an import writes. -/
inductive Batch where
  | entries (now : Int) (xs : List Archived)
  | links (rows : List LinkRow)
  | mindMaps

section

variable (u : Unicode) (sha256 : String → String)

def Note.put (db : Db) : Note → Db
  | .entry op => write u sha256 db op
  | .mindMap => db

def Batch.put (db : Db) : Batch → Db
  | .entries now xs => (importLoop u sha256 (xs.map fun x ↦ (now, x)) [] db).2
  | .links rows => rows.foldl importLink db
  | .mindMaps => db

/-- A journal opened for a write: the folder's own one is adopted first, and one is made where
there is none. -/
def State.put (s : State) (key : Key) (path : Path) (f : Db → Db) : State :=
  { s with journals := fun k ↦
      if k = key then some (f ((adopt s.journals key path key).getD .empty))
      else adopt s.journals key path k }

/-- A call. `host` of a session and of an import is where the folder lies; the daemon looks for a
route of it only in the first case. -/
inductive RouteOp where
  | session (host : String) (path : Path) (projectId : Option String) (note : Note)
  | load (host : String) (path : Path) (projectId : Option String) (batch : Batch)
  | share (caller : Reader) (host : String) (target : Path) (targetProjectId : Option String)
      (now : Int)
  | unshare (host : String) (target : Path) (targetProjectId : Option String)

/-- The state after a call: `import_target` files under the folder's own key. -/
def State.act (s : State) : RouteOp → State
  | .session host path projectId note =>
    s.put (resolve s.shares s.has ⟨host, path, projectId, true⟩) path (note.put u sha256)
  | .load _ path projectId batch => s.put (projectKey projectId path) path (batch.put u sha256)
  | .share caller host target targetProjectId now =>
    (share u sha256 s caller host target targetProjectId now).2
  | .unshare host target targetProjectId => (unshare s host target targetProjectId).2

end

/-! ### What a folder is promised -/

/-- What was written for a folder of this host is in the journal that a session started there
and a read of the directory resolve to. -/
def ReadBack (here : String) (s s' : State) : RouteOp → Prop
  | .session host path projectId _ => host = here → ∀ session,
      resolve s'.shares s'.has ⟨host, path, projectId, session⟩ =
        resolve s.shares s.has ⟨host, path, projectId, true⟩
  | .load host path projectId _ => host = here → ∀ session,
      resolve s'.shares s'.has ⟨host, path, projectId, session⟩ = projectKey projectId path
  | _ => True

/-- The journal a routed folder would have for itself. -/
def ShareRow.own (ids : Path → Option String) (r : ShareRow) : Key := projectKey (ids r.path) r.path

/-- A routed folder can be unshared, and has then a journal of its own with all entries. -/
def CanLeave (ids : Path → Option String) (s : State) (r : ShareRow) : Prop :=
  ∃ s', unshare s r.host r.path (ids r.path) = (.ok (), s') ∧
    ∃ db', s'.journals (r.own ids) = some db' ∧
      ∀ db, s.journals r.journal = some db → ∀ e ∈ db.entries.rows, e ∈ db'.entries.rows

/-! ### What a step does to the files and the routes -/

namespace State

/-- The folder's journal that is adopted. -/
def adopted (s : State) (key : Key) (path : Path) : Option Key :=
  if key ≠ .folder path ∧ s.has key = false ∧ s.has (.folder path) = true then some (.folder path)
  else none

/-- A share that comes to the point where the source journal is made. -/
def Shares (s : State) (caller : Reader) (host : String) (target : Path)
    (targetProjectId : Option String) : Prop :=
  sharedKey s.shares host target = none ∧
    projectKey targetProjectId target ≠ resolve s.shares s.has caller

instance (s : State) (caller : Reader) (host : String) (target : Path)
    (targetProjectId : Option String) : Decidable (s.Shares caller host target targetProjectId) :=
  inferInstanceAs (Decidable (_ ∧ _))

/-- No entry of a journal is refused when it is merged. -/
def mergeable (u : Unicode) (s : State) (key : Key) : Bool :=
  (s.journals key).all fun src ↦ src.entries.rows.all (Journal.mergeable u src)

/-- The journal that is there after a step. -/
def made (s : State) : RouteOp → Option Key
  | .session host path projectId _ => some (resolve s.shares s.has ⟨host, path, projectId, true⟩)
  | .load _ path projectId _ => some (projectKey projectId path)
  | .share caller host target targetProjectId _ =>
    if s.Shares caller host target targetProjectId then some (resolve s.shares s.has caller)
    else none
  | .unshare host target targetProjectId => (s.shares.get? (host, target)).bind fun r ↦
      if s.has r.journal = true ∧ s.has (projectKey targetProjectId target) = false then
        some (projectKey targetProjectId target)
      else none

/-- The journal that a step takes away: adopted by a repository, or merged into another one. -/
def taken (u : Unicode) (s : State) : RouteOp → Option Key
  | .session host path projectId _ =>
    s.adopted (resolve s.shares s.has ⟨host, path, projectId, true⟩) path
  | .load _ path projectId _ => s.adopted (projectKey projectId path) path
  | .share caller host target targetProjectId _ =>
    if s.Shares caller host target targetProjectId ∧
        s.mergeable u (projectKey targetProjectId target) = true ∧
        s.has (projectKey targetProjectId target) = true then
      some (projectKey targetProjectId target)
    else none
  | .unshare .. => none

/-- The route that a step adds. -/
def routeAdded (u : Unicode) (s : State) : RouteOp → Option ShareRow
  | .share caller host target targetProjectId now =>
    if s.Shares caller host target targetProjectId ∧
        s.mergeable u (projectKey targetProjectId target) = true then
      some ⟨host, target, resolve s.shares s.has caller, now⟩
    else none
  | .session .. | .load .. | .unshare .. => none

/-- The folder whose route a step deletes. -/
def routeGone (s : State) : RouteOp → Option (String × Path)
  | .unshare host target targetProjectId => (s.shares.get? (host, target)).bind fun r ↦
      if s.has r.journal = true ∧ s.has (projectKey targetProjectId target) = true then none
      else some (host, target)
  | .session .. | .load .. | .share .. => none

/-- A step makes a journal that was not there, or takes one away. -/
def Toggles (u : Unicode) (s : State) (op : RouteOp) (key : Key) : Prop :=
  s.made op = some key ∧ s.has key = false ∨ s.taken u op = some key

end State

/-- An import goes into a folder without a route, or with a route to its own journal; a step
makes or takes away both of the journal a routed folder would have and the one it is routed to,
or neither; and no journal is left to a folder that gets a route. -/
structure Settled (u : Unicode) (here : String) (ids : Path → Option String) (s : State)
    (op : RouteOp) : Prop where
  loaded : ∀ path projectId batch, op = .load here path projectId batch →
    sharedKey s.shares here path = none ∨
      sharedKey s.shares here path = some (projectKey projectId path)
  kept : ∀ r ∈ s.shares.rows, r.host = here → s.routeGone op ≠ some r.key →
    (s.Toggles u op (r.own ids) ↔ s.Toggles u op r.journal)
  joined : ∀ r, s.routeAdded u op = some r → r.host = here →
    (s.Toggles u op (r.own ids) ↔ s.has (r.own ids) = true)

section

variable {u : Unicode} {sha256 : String → String} {s : State}

/-! ### Which journals are there -/

theorem has_adopt {key : Key} {path : Path} {k : Key} (hk : k ≠ key) :
    (adopt s.journals key path k).isSome = true ↔
      s.has k = true ∧ s.adopted key path ≠ some k := by
  unfold adopt
  split
  · next hsame =>
    have hnone : s.adopted key path = none := by
      apply if_neg
      rintro ⟨hne, hkey, hfolder⟩
      rcases hsame with h | h | h
      · exact hne h
      · rw [State.has, h] at hkey
        cases hkey
      · rw [State.has, h] at hfolder
        cases hfolder
    rw [hnone]
    simp [State.has]
  · next hmoved =>
    simp only [not_or, Bool.not_eq_true] at hmoved
    obtain ⟨hne, hkey, hfolder⟩ := hmoved
    have hsome : s.adopted key path = some (.folder path) :=
      if_pos ⟨hne, hkey, Option.isSome_iff_ne_none.mpr hfolder⟩
    rw [hsome]
    dsimp only
    rw [if_neg hk]
    by_cases hpath : k = .folder path
    · simp [hpath]
    · rw [if_neg hpath, and_iff_left fun h ↦ hpath (Option.some.inj h).symm]
      rfl

theorem has_put {key : Key} {path : Path} {f : Db → Db} {k : Key} :
    (s.put key path f).has k = true ↔ key = k ∨ s.has k = true ∧ s.adopted key path ≠ some k := by
  unfold State.has State.put
  dsimp only
  by_cases hk : k = key
  · rw [if_pos hk]
    exact iff_of_true rfl (Or.inl hk.symm)
  · rw [if_neg hk, has_adopt hk, or_iff_right (Ne.symm hk)]
    rfl

theorem has_file {key : Key} {db : Db} {k : Key} :
    (s.file key (some db)).has k = true ↔ key = k ∨ s.has k = true := by
  unfold State.has State.file
  dsimp only
  by_cases hk : k = key
  · rw [if_pos hk]
    exact iff_of_true rfl (Or.inl hk.symm)
  · rw [if_neg hk, or_iff_right (Ne.symm hk)]

theorem has_shared_iff {own : Key} {r : ShareRow} {db : Db} {k : Key} (hne : own ≠ r.journal) :
    (s.shared own r db).has k = true ↔ r.journal = k ∨ s.has k = true ∧ own ≠ k := by
  rw [has_shared hne]
  unfold hasAfter
  rw [Bool.or_eq_true, Bool.and_eq_true, beq_iff_eq, bne_iff_ne, eq_comm, ne_comm, and_comm]

theorem mergeable_iff {key : Key} {src : Db} (h : s.journals key = some src) :
    s.mergeable u key = true ↔ ∀ e ∈ src.entries.rows, mergeable u src e = true := by
  rw [State.mergeable, h, Option.all_some, List.all_eq_true]

/-- What a share does. -/
theorem share_cases (caller : Reader) (host : String) (target : Path)
    (targetProjectId : Option String) (now : Int) :
    (share u sha256 s caller host target targetProjectId now).2 = s ∧
        ¬ s.Shares caller host target targetProjectId ∨
      s.Shares caller host target targetProjectId ∧ ∃ dst,
        (s.mergeable u (projectKey targetProjectId target) = true ∧
          (share u sha256 s caller host target targetProjectId now).2 =
            s.shared (projectKey targetProjectId target)
              ⟨host, target, resolve s.shares s.has caller, now⟩ dst ∨
        s.mergeable u (projectKey targetProjectId target) = false ∧
          (share u sha256 s caller host target targetProjectId now).2 =
            s.file (resolve s.shares s.has caller) (some dst)) := by
  unfold share State.Shares
  dsimp only
  cases hroute : sharedKey s.shares host target with
  | some key =>
    dsimp only
    split
    · exact Or.inl ⟨rfl, by simp⟩
    · exact Or.inl ⟨rfl, by simp⟩
  | none =>
    dsimp only
    split
    · next hsame => exact Or.inl ⟨rfl, fun h ↦ h.2 hsame⟩
    · next hne =>
      refine Or.inr ⟨⟨rfl, hne⟩, ?_⟩
      cases hsrc : s.journals (projectKey targetProjectId target) with
      | none =>
        refine ⟨(s.journals (resolve s.shares s.has caller)).getD .empty, Or.inl ⟨?_, ?_⟩⟩
        · rw [State.mergeable, hsrc]
          rfl
        · unfold State.shared State.route State.file
          dsimp only
          congr 1
          funext k
          by_cases hk : k = projectKey targetProjectId target
          · rw [if_pos hk, if_neg (hk ▸ hne), hk, hsrc]
          · rw [if_neg hk]
      | some src =>
        have hok := @mergeEntries_ok_iff u sha256
          ((s.journals (resolve s.shares s.has caller)).getD .empty) src
        rw [← mergeable_iff hsrc] at hok
        dsimp only
        split
        · next msg dst hmerge =>
          rw [hmerge] at hok
          refine ⟨dst, Or.inr ⟨?_, rfl⟩⟩
          rw [← Bool.not_eq_true, ← hok]
          simp
        · next m dst hmerge =>
          rw [hmerge] at hok
          exact ⟨dst, Or.inl ⟨hok.mp ⟨m, rfl⟩, rfl⟩⟩

/-- What an unshare does. -/
theorem unshare_cases (host : String) (target : Path) (targetProjectId : Option String) :
    (unshare s host target targetProjectId).2 = s ∧
        s.routeGone (.unshare host target targetProjectId) = none ∧
        s.made (.unshare host target targetProjectId) = none ∨
      s.routeGone (.unshare host target targetProjectId) = some (host, target) ∧
        ((unshare s host target targetProjectId).2 =
            { s with shares := s.shares.deleteKey (host, target) } ∧
          s.made (.unshare host target targetProjectId) = none ∨
        ∃ src, (unshare s host target targetProjectId).2 =
            State.file { s with shares := s.shares.deleteKey (host, target) }
              (projectKey targetProjectId target) (some src) ∧
          s.made (.unshare host target targetProjectId) =
            some (projectKey targetProjectId target)) := by
  unfold unshare
  cases hroute : s.shares.get? (host, target) with
  | none =>
    have hgone : s.routeGone (.unshare host target targetProjectId) = none := by
      rw [State.routeGone, hroute]
      rfl
    have hmade : s.made (.unshare host target targetProjectId) = none := by
      rw [State.made, hroute]
      rfl
    exact Or.inl ⟨rfl, hgone, hmade⟩
  | some r =>
    rw [State.routeGone, State.made, hroute, Option.bind_some, Option.bind_some]
    dsimp only
    cases hsrc : s.journals r.journal with
    | none =>
      have hno : s.has r.journal = false := by
        rw [State.has, hsrc]
        rfl
      rw [hno]
      exact Or.inr ⟨rfl, Or.inl ⟨rfl, rfl⟩⟩
    | some src =>
      have hthere : s.has r.journal = true := by
        rw [State.has, hsrc]
        rfl
      rw [hthere]
      dsimp only
      by_cases hown : s.has (projectKey targetProjectId target) = true
      · rw [hown]
        exact Or.inl ⟨rfl, rfl, rfl⟩
      · rw [Bool.not_eq_true] at hown
        rw [hown]
        exact Or.inr ⟨rfl, Or.inr ⟨src, rfl, rfl⟩⟩

/-- The journals after a step. -/
theorem has_act (op : RouteOp) (k : Key) : (s.act u sha256 op).has k = true ↔
    s.made op = some k ∨ s.has k = true ∧ s.taken u op ≠ some k := by
  cases op with
  | session host path projectId note =>
    rw [State.act, State.made, State.taken, Option.some_inj]
    exact has_put
  | load host path projectId batch =>
    rw [State.act, State.made, State.taken, Option.some_inj]
    exact has_put
  | share caller host target targetProjectId now =>
    rw [State.act, State.made, State.taken]
    rcases share_cases caller host target targetProjectId now with
      ⟨hsame, hno⟩ | ⟨hshares, dst, ⟨hmerge, hafter⟩ | ⟨hmerge, hafter⟩⟩
    · rw [hsame, if_neg hno, if_neg (fun h ↦ hno h.1)]
      simp
    · rw [hafter, if_pos hshares, Option.some_inj, has_shared_iff hshares.2]
      apply or_congr_right
      by_cases hown : s.has (projectKey targetProjectId target) = true
      · rw [if_pos ⟨hshares, hmerge, hown⟩, ne_eq (some _), Option.some_inj]
      · rw [if_neg (fun h ↦ hown h.2.2)]
        constructor
        · exact fun h ↦ ⟨h.1, by simp⟩
        · exact fun h ↦ ⟨h.1, fun hk ↦ hown (hk ▸ h.1)⟩
    · rw [hafter, if_pos hshares, if_neg (fun h ↦ by simp [hmerge] at h), Option.some_inj, has_file]
      simp
  | unshare host target targetProjectId =>
    rw [State.act, State.taken]
    rcases unshare_cases host target targetProjectId with
      ⟨hsame, -, hmade⟩ | ⟨-, ⟨hafter, hmade⟩ | ⟨src, hafter, hmade⟩⟩
    · rw [hsame, hmade]
      simp
    · rw [hafter, hmade]
      simp [State.has]
    · rw [hafter, hmade, Option.some_inj, has_file]
      simp [State.has]

/-- The routes after a step. -/
theorem mem_shares_act (op : RouteOp) (r : ShareRow) : r ∈ (s.act u sha256 op).shares.rows ↔
    r ∈ s.shares.rows ∧ s.routeGone op ≠ some r.key ∨ s.routeAdded u op = some r := by
  cases op with
  | session host path projectId note =>
    simp [State.act, State.put, State.routeGone, State.routeAdded]
  | load host path projectId batch =>
    simp [State.act, State.put, State.routeGone, State.routeAdded]
  | share caller host target targetProjectId now =>
    rw [State.act, State.routeGone, State.routeAdded]
    rcases share_cases caller host target targetProjectId now with
      ⟨hsame, hno⟩ | ⟨hshares, dst, ⟨hmerge, hafter⟩ | ⟨hmerge, hafter⟩⟩
    · rw [hsame, if_neg (fun h ↦ hno h.1)]
      simp
    · have hfree : (host, target) ∉ s.shares.rows.map ShareRow.key := by
        have h := List.findSome?_eq_none_iff.mp hshares.1 target
          ((List.mem_tails target target).mpr (List.suffix_refl _))
        rw [Option.map_eq_none_iff] at h
        simpa using Table.get?_eq_none_iff.mp h
      rw [hafter, if_pos ⟨hshares, hmerge⟩]
      show r ∈ (s.shares.insertOrIgnore _).rows ↔ _
      rw [Table.mem_insertOrIgnore, Option.some_inj]
      simp [eq_comm, ShareRow.key, hfree]
    · rw [hafter, if_neg (fun h ↦ by simp [hmerge] at h)]
      simp [State.file]
  | unshare host target targetProjectId =>
    rw [State.act, State.routeAdded]
    rcases unshare_cases host target targetProjectId with
      ⟨hsame, hgone, -⟩ | ⟨hgone, ⟨hafter, -⟩ | ⟨src, hafter, -⟩⟩
    · rw [hsame, hgone]
      simp
    · rw [hafter, hgone]
      simp [Table.deleteKey, eq_comm]
    · rw [hafter, hgone]
      simp [State.file, Table.deleteKey, eq_comm]

/-- A step changes whether a journal is there exactly when it toggles it. -/
theorem toggles_iff (op : RouteOp) (k : Key) :
    s.Toggles u op k ↔ (s.act u sha256 op).has k = !s.has k := by
  have hact := @has_act u sha256 s op k
  have htaken : s.taken u op = some k → s.has k = true ∧ s.made op ≠ some k := by
    have hadopted : ∀ key path, s.adopted key path = some k →
        s.has k = true ∧ some key ≠ some k := by
      intro key path h
      unfold State.adopted at h
      split at h
      · next hmoved =>
        cases h
        exact ⟨hmoved.2.2, fun hk ↦ hmoved.1 (Option.some.inj hk)⟩
      · cases h
    cases op with
    | session host path projectId note => exact hadopted _ _
    | load host path projectId batch => exact hadopted _ _
    | share caller host target targetProjectId now =>
      intro h
      rw [State.taken] at h
      split at h
      · next hmerged =>
        cases h
        rw [State.made, if_pos hmerged.1]
        exact ⟨hmerged.2.2, fun hk ↦ hmerged.1.2 (Option.some.inj hk).symm⟩
      · cases h
    | unshare host target targetProjectId =>
      intro h
      cases h
  unfold State.Toggles
  cases hhas : s.has k with
  | true =>
    rw [hhas] at hact htaken
    rw [Bool.not_true, ← Bool.not_eq_true ((s.act u sha256 op).has k), hact]
    constructor
    · rintro (⟨-, hno⟩ | h)
      · cases hno
      · exact fun hor ↦ hor.elim (htaken h).2 fun hkept ↦ hkept.2 h
    · intro hgone
      by_contra hno
      exact hgone (Or.inr ⟨rfl, fun h ↦ hno (Or.inr h)⟩)
  | false =>
    rw [hhas] at hact htaken
    rw [Bool.not_false, hact]
    constructor
    · rintro (⟨h, -⟩ | h)
      · exact Or.inl h
      · cases (htaken h).1
    · rintro (h | ⟨hno, -⟩)
      · exact Or.inl ⟨h, rfl⟩
      · cases hno

/-! ### Reading back -/

/-- Without a route a folder's own journal is found once it is there. -/
theorem resolve_own {shares : Table ShareRow.key} {has : Key → Bool} {x : Reader}
    (hfree : sharedKey shares x.host x.path = none)
    (hhas : has (projectKey x.projectId x.path) = true) :
    resolve shares has x = projectKey x.projectId x.path := by
  unfold resolve
  rw [hfree]
  dsimp only
  by_cases hsession : x.session = true
  · rw [if_pos hsession]
  · rw [if_neg hsession]
    by_cases hfolder : projectKey x.projectId x.path = .folder x.path
    · rw [hfolder] at hhas
      rw [hfolder, if_neg fun h ↦ h.1 rfl]
      have hnearest : x.path.tails.find? (fun p ↦ has (.folder p)) = some x.path := by
        cases hpath : x.path with
        | nil =>
          rw [hpath] at hhas
          simp [hhas]
        | cons a path =>
          rw [hpath] at hhas
          simp [hhas]
      rw [nearestJournal, hnearest]
      rfl
    · exact if_pos ⟨hfolder, hhas⟩

theorem resolve_routed {shares : Table ShareRow.key} {has : Key → Bool} {x : Reader} {key : Key}
    (h : sharedKey shares x.host x.path = some key) : resolve shares has x = key := by
  rw [resolve, h]

/-- A session reads back what it wrote, and an import that the folder's route does not pass by. -/
theorem readBack_iff {here : String} (op : RouteOp) :
    ReadBack here s (s.act u sha256 op) op ↔
      ∀ path projectId batch, op = .load here path projectId batch →
        sharedKey s.shares here path = none ∨
          sharedKey s.shares here path = some (projectKey projectId path) := by
  cases op with
  | session host path projectId note =>
    refine iff_of_true (fun _ session ↦ ?_) (fun path projectId batch h ↦ by cases h)
    show resolve s.shares _ _ = _
    cases hroute : sharedKey s.shares host path with
    | some key => rw [resolve_routed hroute, resolve_routed hroute]
    | none =>
      have hkey : resolve s.shares s.has ⟨host, path, projectId, true⟩ =
          projectKey projectId path := by
        rw [resolve, hroute]
        rfl
      rw [hkey]
      refine resolve_own hroute ?_
      rw [has_act, State.made, hkey]
      exact Or.inl rfl
  | load host path projectId batch =>
    constructor
    · intro h path' projectId' batch' heq
      cases heq
      cases hroute : sharedKey s.shares here path with
      | none => exact Or.inl rfl
      | some key =>
        have hread := h rfl true
        rw [show (s.act u sha256 (.load here path projectId batch)).shares = s.shares from rfl,
          resolve_routed hroute] at hread
        exact Or.inr (congrArg some hread)
    · rintro h rfl session
      show resolve s.shares _ _ = _
      rcases h path projectId batch rfl with hroute | hroute
      · refine resolve_own hroute ?_
        rw [has_act]
        exact Or.inl rfl
      · exact resolve_routed hroute
  | share caller host target targetProjectId now =>
    exact iff_of_true trivial fun path projectId batch h ↦ by cases h
  | unshare host target targetProjectId =>
    exact iff_of_true trivial fun path projectId batch h ↦ by cases h

/-! ### Leaving -/

/-- A routed folder can leave with all entries where one of the two journals is there. -/
theorem canLeave_iff {ids : Path → Option String} {r : ShareRow} (hr : r ∈ s.shares.rows) :
    CanLeave ids s r ↔ s.has (r.own ids) = !s.has r.journal := by
  have hroute : s.shares.get? (r.host, r.path) = some r := Table.get?_eq_some_iff.mpr ⟨hr, rfl⟩
  unfold CanLeave unshare
  rw [hroute]
  dsimp only
  cases hsrc : s.journals r.journal with
  | none =>
    have hno : s.has r.journal = false := by
      rw [State.has, hsrc]
      rfl
    rw [hno, Bool.not_false]
    constructor
    · rintro ⟨s', hs', db', hdb', -⟩
      cases hs'
      exact Option.isSome_iff_exists.mpr ⟨db', hdb'⟩
    · intro hown
      obtain ⟨db', hdb'⟩ := Option.isSome_iff_exists.mp hown
      exact ⟨_, rfl, db', hdb', fun db hdb ↦ by cases hdb⟩
  | some src =>
    have hthere : s.has r.journal = true := by
      rw [State.has, hsrc]
      rfl
    rw [hthere, Bool.not_true]
    dsimp only
    constructor
    · rintro ⟨s', hs', -⟩
      split at hs'
      · cases hs'
      · next hno => exact Bool.not_eq_true _ ▸ hno
    · intro hno
      have hown : ¬ s.has (projectKey (ids r.path) r.path) = true := by
        rw [show s.has (projectKey (ids r.path) r.path) = false from hno]
        simp
      refine ⟨_, if_neg hown, src, if_pos rfl, fun db hdb e he ↦ ?_⟩
      cases hdb
      exact he

/-- Every routed folder of this host can leave. -/
def AllLeave (here : String) (ids : Path → Option String) (s : State) : Prop :=
  ∀ r ∈ s.shares.rows, r.host = here → CanLeave ids s r

theorem allLeave_act_iff {here : String} {ids : Path → Option String} (op : RouteOp)
    (h : AllLeave here ids s) : AllLeave here ids (s.act u sha256 op) ↔
      (∀ r ∈ s.shares.rows, r.host = here → s.routeGone op ≠ some r.key →
        (s.Toggles u op (r.own ids) ↔ s.Toggles u op r.journal)) ∧
      ∀ r, s.routeAdded u op = some r → r.host = here →
        (s.Toggles u op (r.own ids) ↔ s.has (r.own ids) = true) := by
  have hkept : ∀ r ∈ s.shares.rows, r.host = here → r ∈ (s.act u sha256 op).shares.rows →
      (CanLeave ids (s.act u sha256 op) r ↔
        (s.Toggles u op (r.own ids) ↔ s.Toggles u op r.journal)) := by
    intro r hr hhost hafter
    have hbefore := (canLeave_iff hr).mp (h r hr hhost)
    rw [canLeave_iff hafter, @toggles_iff u sha256, @toggles_iff u sha256, hbefore]
    cases (s.act u sha256 op).has (r.own ids) <;> cases (s.act u sha256 op).has r.journal <;>
      cases s.has r.journal <;> simp
  have hjoined : ∀ r, s.routeAdded u op = some r → r ∈ (s.act u sha256 op).shares.rows →
      (CanLeave ids (s.act u sha256 op) r ↔
        (s.Toggles u op (r.own ids) ↔ s.has (r.own ids) = true)) := by
    intro r hr hafter
    have hthere : (s.act u sha256 op).has r.journal = true := by
      rw [has_act]
      cases op with
      | share caller host target targetProjectId now =>
        rw [State.routeAdded] at hr
        split at hr
        · next hshares =>
          cases hr
          exact Or.inl (if_pos hshares.1)
        · cases hr
      | session host path projectId note => cases hr
      | load host path projectId batch => cases hr
      | unshare host target targetProjectId => cases hr
    rw [canLeave_iff hafter, @toggles_iff u sha256, hthere]
    cases (s.act u sha256 op).has (r.own ids) <;> cases s.has (r.own ids) <;> simp
  unfold AllLeave
  simp only [mem_shares_act]
  constructor
  · intro hall
    constructor
    · intro r hr hhost hstays
      have hmem : r ∈ s.shares.rows ∧ s.routeGone op ≠ some r.key ∨ s.routeAdded u op = some r :=
        Or.inl ⟨hr, hstays⟩
      exact (hkept r hr hhost ((mem_shares_act op r).mpr hmem)).mp (hall r hmem hhost)
    · intro r hr hhost
      have hmem : r ∈ s.shares.rows ∧ s.routeGone op ≠ some r.key ∨ s.routeAdded u op = some r :=
        Or.inr hr
      exact (hjoined r hr ((mem_shares_act op r).mpr hmem)).mp (hall r hmem hhost)
  · rintro ⟨hstay, hjoin⟩ r hmem hhost
    rcases hmem with ⟨hr, hstays⟩ | hr
    · exact (hkept r hr hhost ((mem_shares_act op r).mpr (Or.inl ⟨hr, hstays⟩))).mpr
        (hstay r hr hhost hstays)
    · exact (hjoined r hr ((mem_shares_act op r).mpr (Or.inr hr))).mpr (hjoin r hr hhost)

end

/-! ### Runs -/

/-- Along every run, what is written for a folder is what its readers read and every routed
folder can leave, exactly as long as every step is settled. -/
theorem written_is_read_iff (u : Unicode) (sha256 : String → String) (here : String)
    (ids : Path → Option String) (ops : List RouteOp) :
    (∀ t ∈ trace (State.act u sha256) .empty ops,
        ReadBack here t.before t.after t.op ∧ AllLeave here ids t.after) ↔
      ∀ t ∈ trace (State.act u sha256) .empty ops, Settled u here ids t.before t.op := by
  have hread : ∀ t ∈ trace (State.act u sha256) .empty ops,
      (ReadBack here t.before t.after t.op ↔ ∀ path projectId batch,
        t.op = .load here path projectId batch → sharedKey t.before.shares here path = none ∨
          sharedKey t.before.shares here path = some (projectKey projectId path)) := by
    intro t ht
    rw [after_of_mem_trace ht]
    exact readBack_iff t.op
  have hstart : AllLeave here ids .empty := fun r hr ↦ by cases hr
  have hleave := @forall_trace_iff _ _ (State.act u sha256) (AllLeave here ids) _ .empty ops hstart
    fun s op h ↦ @allLeave_act_iff u sha256 s here ids op h
  constructor
  · intro h t ht
    have hstep := hleave.mp (fun t ht ↦ (h t ht).2) t ht
    exact ⟨(hread t ht).mp (h t ht).1, hstep.1, hstep.2⟩
  · intro h t ht
    have hall := hleave.mpr fun t ht ↦ And.intro (h t ht).kept (h t ht).joined
    exact ⟨(hread t ht).mpr (h t ht).loaded, hall t ht⟩

/-- A folder is routed to the notes, and an archive is loaded into it. -/
def loadedRun : List RouteOp :=
  [.share ⟨"laptop", ["notes"], none, false⟩ "laptop" ["work"] none 1,
    .load "laptop" ["work"] none .mindMaps]

/-- A session started in the folder reads another journal, and the folder cannot leave. -/
theorem written_is_read_iff_strayed :
    ¬ ∀ t ∈ trace (State.act .ascii id) .empty loadedRun,
      ReadBack "laptop" t.before t.after t.op ∧ AllLeave "laptop" (fun _ ↦ none) t.after := by
  intro h
  have hlast := (h _ (mem_trace_append loadedRun.dropLast
    (.load "laptop" ["work"] none .mindMaps) [])).1 rfl true
  exact absurd hlast (by decide +kernel)

end Claudebase.Journal
