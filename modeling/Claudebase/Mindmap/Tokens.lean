import Claudebase.Journal.Share
import Claudebase.Mindmap.Signed

/-!
# The live links of mind maps

`src/mindmap.rs:263,310,373,909,1027`, `src/journal.rs:1770–1893`,
`src/daemon/mindmap_tools.rs:160–183,309–328`, `src/daemon/journal_tools.rs:222–292`. A map gets a
token when it is made, imported or merged, and its live page is found by the token, in whichever
journal comes first. A journal that stops being shared is copied with its tokens. Tokens are
numbered in the order they are drawn, so no two draws are the same.
-/

namespace Claudebase.Mindmap
open Claudebase.Base

/-! ### Tokens -/

/-- The column `view_token` of a row of `mindmaps`. -/
structure TokenRow where
  map : Int
  token : Nat
  deriving DecidableEq, Repr

/-- The tokens of the maps with these ids: a map keeps its own, a new one gets the next. Also the
number of the next draw. -/
def drawTokens (old : Table TokenRow.map) : List Int → Nat → List TokenRow × Nat
  | [], n => ([], n)
  | id :: ids, n =>
    match old.get? id with
    | some r => (r :: (drawTokens old ids n).1, (drawTokens old ids n).2)
    | none => (⟨id, n⟩ :: (drawTokens old ids (n + 1)).1, (drawTokens old ids (n + 1)).2)

section

variable {old : Table TokenRow.map}

theorem map_drawTokens (ids : List Int) (n : Nat) :
    (drawTokens old ids n).1.map TokenRow.map = ids := by
  induction ids generalizing n with
  | nil => rfl
  | cons id ids ih =>
    rw [drawTokens]
    split
    · next r hr => rw [List.map_cons, ih, (Table.get?_eq_some_iff.mp hr).2]
    · rw [List.map_cons, ih]

theorem le_drawTokens (ids : List Int) (n : Nat) : n ≤ (drawTokens old ids n).2 := by
  induction ids generalizing n with
  | nil => exact Nat.le_refl n
  | cons id ids ih =>
    rw [drawTokens]
    split
    · exact ih n
    · exact Nat.le_of_succ_le (ih (n + 1))

/-- A token is an old one or one drawn now. -/
theorem mem_drawTokens {ids : List Int} {n : Nat} {r : TokenRow}
    (h : r ∈ (drawTokens old ids n).1) :
    r ∈ old.rows ∨ n ≤ r.token ∧ r.token < (drawTokens old ids n).2 := by
  induction ids generalizing n with
  | nil => cases h
  | cons id ids ih =>
    rw [drawTokens] at h ⊢
    split at h
    · next r' hr' =>
      rcases List.mem_cons.mp h with rfl | h
      · exact Or.inl (Table.get?_eq_some_iff.mp hr').1
      · exact ih h
    · rcases List.mem_cons.mp h with rfl | h
      · exact Or.inr ⟨Nat.le_refl n, le_drawTokens ids (n + 1)⟩
      · refine (ih h).imp_right fun hdrawn ↦ ⟨?_, hdrawn.2⟩
        omega

/-- No token is drawn twice. -/
theorem eq_of_drawTokens {ids : List Int} {n : Nat} {r r' : TokenRow}
    (hold : ∀ x ∈ old.rows, x.token < n)
    (h : r ∈ (drawTokens old ids n).1) (h' : r' ∈ (drawTokens old ids n).1) (hr : n ≤ r.token)
    (heq : r'.token = r.token) : r' = r := by
  induction ids generalizing n with
  | nil => cases h
  | cons id ids ih =>
    rw [drawTokens] at h h'
    split at h
    · next x hx =>
      have hlt := hold x (Table.get?_eq_some_iff.mp hx).1
      rw [hx] at h'
      rcases List.mem_cons.mp h with rfl | h
      · omega
      · rcases List.mem_cons.mp h' with rfl | h'
        · omega
        · exact ih hold h h' hr
    · next hnone =>
      have hlater : ∀ {y}, y ∈ (drawTokens old ids (n + 1)).1 → n ≤ y.token → n + 1 ≤ y.token := by
        intro y hy hle
        rcases mem_drawTokens hy with hy | hy
        · have hlt := hold y hy
          omega
        · exact hy.1
      rw [hnone] at h'
      rcases List.mem_cons.mp h with rfl | h
      · rcases List.mem_cons.mp h' with rfl | h'
        · rfl
        · have hle := hlater h' (by omega)
          dsimp only at heq
          omega
      · have hle := hlater h hr
        rcases List.mem_cons.mp h' with rfl | h'
        · dsimp only at heq
          omega
        · exact ih (fun x hx ↦ Nat.lt_succ_of_lt (hold x hx)) h h' hle

end

/-! ### Journal files -/

/-- A journal with the tokens of its maps. -/
structure File where
  key : Journal.Key
  db : Db
  tokens : Table TokenRow.map
  stamped : tokens.rows.map TokenRow.map = db.maps.rows.map MapRow.id

namespace File

/-- A journal just created. -/
def fresh (key : Journal.Key) : File := ⟨key, .ofJournal .empty, .empty, rfl⟩

/-- The file with these tables; its new maps draw their tokens from `n` on. -/
def stamp (f : File) (db : Db) (n : Nat) : File where
  key := f.key
  db
  tokens := ⟨(drawTokens f.tokens (db.maps.rows.map MapRow.id) n).1, by
    rw [map_drawTokens]
    exact db.maps.nodup⟩
  stamped := map_drawTokens _ n

/-- The next draw after that. -/
def drawn (f : File) (db : Db) (n : Nat) : Nat :=
  (drawTokens f.tokens (db.maps.rows.map MapRow.id) n).2

/-- `VACUUM INTO`: the file under another key. -/
def copy (f : File) (key : Journal.Key) : File := { f with key }

/-- `MAX(created_at)`. -/
def lastEntryAt (f : File) : Option Int :=
  (f.db.journal.entries.rows.map Journal.Entry.createdAt).max?

/-- The order of `list_journals`. -/
def newer (a b : File) : Bool :=
  match a.lastEntryAt, b.lastEntryAt with
  | some x, some y => y < x || (x == y && decide (a.key.display ≤ b.key.display))
  | some _, none => true
  | none, some _ => false
  | none, none => decide (a.key.display ≤ b.key.display)

end File

/-! ### The daemon's journals -/

/-- The routes and the files of the daemon, and how many tokens were drawn. -/
structure Daemon where
  shares : Table Journal.ShareRow.key
  files : Table File.key
  minted : Nat

namespace Daemon

/-- No journal yet. -/
def start : Daemon := ⟨.empty, .empty, 0⟩

/-- Whether a key has a journal. -/
def has (s : Daemon) (key : Journal.Key) : Bool := (s.files.get? key).isSome

/-- `view_token_of`: the token of a map, which its link carries. -/
def viewToken (s : Daemon) (key : Journal.Key) (map : Int) : Option Nat :=
  (s.files.get? key).bind fun f ↦ (f.tokens.get? map).map TokenRow.token

/-- `list_journals`. -/
def listJournals (s : Daemon) : List File := s.files.rows.mergeSort File.newer

/-- `find_by_token`: the map a token leads to. -/
def findByToken (s : Daemon) (token : Nat) : Option (Journal.Key × Int) :=
  s.listJournals.findSome? fun f ↦
    (f.tokens.rows.find? fun r ↦ r.token == token).map fun r ↦ (f.key, r.map)

/-- The journal of a key, created on demand. -/
def file (s : Daemon) (key : Journal.Key) : File := (s.files.get? key).getD (.fresh key)

/-- A journal with other tables. -/
def put (s : Daemon) (key : Journal.Key) (db : Db) : Daemon :=
  { s with
    files := s.files.insertOrReplace ((s.file key).stamp db s.minted)
    minted := (s.file key).drawn db s.minted }

/-- `merge_into`, with the mind maps. -/
def mergeInto (u : Unicode) (sha256 : String → String) (dst src : Db) :
    Except String (Nat × Nat) × Db :=
  match Journal.mergeEntries u sha256 dst.journal src.journal with
  | (.error e, j) => (.error e, dst.withJournal j)
  | (.ok m, j) =>
    match merge (dst.withJournal j) src m.lookup with
    | .error e => (.error e, dst.withJournal j)
    | .ok (_, db) => (.ok (m.written, m.merged), db)

/-- `share`, `src/daemon/journal_tools.rs:224`. -/
def share (u : Unicode) (sha256 : String → String) (s : Daemon) (caller : Journal.Reader)
    (host : String) (target : Journal.Path) (targetProjectId : Option String) (now : Int) : Daemon :=
  let project := Journal.resolve s.shares s.has caller
  let own := Journal.projectKey targetProjectId target
  if (Journal.sharedKey s.shares host target).isSome ∨ own = project then s
  else
    let route (s : Daemon) : Daemon :=
      { s with shares := s.shares.insertOrIgnore ⟨host, target, project, now⟩ }
    match s.files.get? own with
    | none => route (s.put project (s.file project).db)
    | some src =>
      let merged := mergeInto u sha256 (s.file project).db src.db
      let s := s.put project merged.2
      match merged.1 with
      | .error _ => s
      | .ok _ => route { s with files := s.files.deleteKey own }

/-- `unshare`, `src/daemon/journal_tools.rs:264`. -/
def unshare (s : Daemon) (host : String) (target : Journal.Path)
    (targetProjectId : Option String) : Daemon :=
  match s.shares.get? (host, target) with
  | none => s
  | some r =>
    let own := Journal.projectKey targetProjectId target
    let unrouted : Daemon := { s with shares := s.shares.deleteKey (host, target) }
    match s.files.get? r.journal with
    | none => unrouted
    | some src =>
      if s.has own = true then s
      else { unrouted with files := s.files.insertOrIgnore (src.copy own) }

end Daemon

/-- What can happen next: a write or an import in a journal, a share, an unshare. -/
inductive LinkAct where
  | write (key : Journal.Key) (op : Op)
  | take (key : Journal.Key) (m : Map) (ownerHost : Option String) (now : Int)
  | share (caller : Journal.Reader) (host : String) (target : Journal.Path)
      (targetProjectId : Option String) (now : Int)
  | unshare (host : String) (target : Journal.Path) (targetProjectId : Option String)

/-- One step. -/
def Daemon.next (u : Unicode) (sha256 : String → String) (s : Daemon) : LinkAct → Daemon
  | .write key op => s.put key (Mindmap.next u sha256 (s.file key).db op)
  | .take key m ownerHost now => s.put key (committed (s.file key).db
      (importMap (s.file key).db m ownerHost now))
  | .share caller host target targetProjectId now =>
    s.share u sha256 caller host target targetProjectId now
  | .unshare host target targetProjectId => s.unshare host target targetProjectId

namespace Daemon

/-! ### Rows with a token -/

theorem viewToken_eq_some_iff {s : Daemon} {key : Journal.Key} {map : Int} {n : Nat} :
    s.viewToken key map = some n ↔
      ∃ f ∈ s.files.rows, f.key = key ∧ ⟨map, n⟩ ∈ f.tokens.rows := by
  simp only [viewToken, Option.bind_eq_some_iff, Option.map_eq_some_iff, Table.get?_eq_some_iff]
  constructor
  · rintro ⟨f, ⟨hf, hkey⟩, r, ⟨hr, rfl⟩, rfl⟩
    exact ⟨f, hf, hkey, hr⟩
  · rintro ⟨f, hf, hkey, hr⟩
    exact ⟨f, ⟨hf, hkey⟩, ⟨map, n⟩, ⟨hr, rfl⟩, rfl⟩

/-- The token was drawn, and at most this map has it. -/
structure Only (s : Daemon) (key : Journal.Key) (map : Int) (n : Nat) : Prop where
  drawn : n < s.minted
  only : ∀ f ∈ s.files.rows, ∀ r ∈ f.tokens.rows, r.token = n → f.key = key ∧ r.map = map

/-- Where only one map can have a token, it leads to that map or nowhere. -/
theorem findByToken_of_only {s : Daemon} {key : Journal.Key} {map : Int} {n : Nat}
    (h : s.Only key map n) :
    s.findByToken n = if s.viewToken key map = some n then some (key, map) else none := by
  have hlisted : ∀ f, f ∈ s.listJournals ↔ f ∈ s.files.rows := fun f ↦ List.mem_mergeSort
  cases hfind : s.findByToken n with
  | some x =>
    obtain ⟨f, hf, hx⟩ := List.exists_of_findSome?_eq_some hfind
    obtain ⟨r, hr, rfl⟩ := Option.map_eq_some_iff.mp hx
    have hmem := List.mem_of_find?_eq_some hr
    have htoken : r.token = n := by simpa using List.find?_some hr
    obtain ⟨hkey, hmap⟩ := h.only f ((hlisted f).mp hf) r hmem htoken
    have hview : s.viewToken key map = some n :=
      viewToken_eq_some_iff.mpr ⟨f, (hlisted f).mp hf, hkey, by
        rw [← hmap, ← htoken]
        exact hmem⟩
    rw [if_pos hview, hkey, hmap]
  | none =>
    rw [if_neg fun hview ↦ ?_]
    obtain ⟨f, hf, -, hr⟩ := viewToken_eq_some_iff.mp hview
    have hnone := List.findSome?_eq_none_iff.mp hfind f ((hlisted f).mpr hf)
    rw [Option.map_eq_none_iff, List.find?_eq_none] at hnone
    exact hnone _ hr (by simp)

/-- Every token was drawn for one map. -/
def Distinct (s : Daemon) : Prop :=
  ∀ f ∈ s.files.rows, ∀ r ∈ f.tokens.rows, s.Only f.key r.map r.token

theorem distinct_start : start.Distinct := fun _ hf ↦ absurd hf List.not_mem_nil

/-! ### One step -/

/-- Every row of `s'` is one of `s`. -/
def Fewer (s s' : Daemon) : Prop :=
  ∀ f' ∈ s'.files.rows, ∀ r ∈ f'.tokens.rows, ∃ f ∈ s.files.rows, f.key = f'.key ∧ r ∈ f.tokens.rows

theorem Only.fewer {s s' : Daemon} {key : Journal.Key} {map : Int} {n : Nat}
    (h : s.Only key map n) (hminted : s'.minted = s.minted) (hfewer : Fewer s s') :
    s'.Only key map n where
  drawn := hminted ▸ h.drawn
  only f' hf' r hr htoken := by
    obtain ⟨f, hf, hkey, hmem⟩ := hfewer f' hf' r hr
    exact hkey ▸ h.only f hf r hmem htoken

theorem Distinct.fewer {s s' : Daemon} (h : s.Distinct) (hminted : s'.minted = s.minted)
    (hfewer : Fewer s s') : s'.Distinct := by
  intro f' hf' r hr
  obtain ⟨f, hf, hkey, hmem⟩ := hfewer f' hf' r hr
  exact hkey ▸ (h f hf r hmem).fewer hminted hfewer

section Put

variable {s : Daemon} {key : Journal.Key} {db : Db}

/-- The tokens of a journal are those of its file, if it has one. -/
theorem mem_files_of_file {r : TokenRow} (h : r ∈ (s.file key).tokens.rows) :
    s.file key ∈ s.files.rows := by
  unfold file at h ⊢
  cases hget : s.files.get? key with
  | none =>
    rw [hget] at h
    cases h
  | some f => exact (Table.get?_eq_some_iff.mp hget).1

theorem minted_le_put : s.minted ≤ (s.put key db).minted := le_drawTokens _ _

/-- A row after a write is one that was there or is of a map made now. -/
theorem mem_put {f : File} {r : TokenRow} (hf : f ∈ (s.put key db).files.rows)
    (hr : r ∈ f.tokens.rows) :
    (∃ f₀ ∈ s.files.rows, f₀.key = f.key ∧ r ∈ f₀.tokens.rows) ∨
      f = (s.file key).stamp db s.minted ∧ s.minted ≤ r.token ∧
        r.token < (s.put key db).minted := by
  rcases Table.mem_insertOrReplace.mp hf with ⟨hf, -⟩ | rfl
  · exact Or.inl ⟨f, hf, rfl, hr⟩
  · rcases mem_drawTokens hr with hold | hnew
    · exact Or.inl ⟨s.file key, mem_files_of_file hold, rfl, hold⟩
    · exact Or.inr ⟨rfl, hnew⟩

theorem Only.put {key' : Journal.Key} {map : Int} {n : Nat} (h : s.Only key' map n) :
    (s.put key db).Only key' map n where
  drawn := Nat.lt_of_lt_of_le h.drawn minted_le_put
  only f hf r hr htoken := by
    rcases mem_put hf hr with ⟨f₀, hf₀, hkey, hr₀⟩ | ⟨-, hnew, -⟩
    · exact hkey ▸ h.only f₀ hf₀ r hr₀ htoken
    · have hdrawn := h.drawn
      omega

theorem Distinct.put (h : s.Distinct) : (s.put key db).Distinct := by
  intro f hf r hr
  rcases mem_put hf hr with ⟨f₀, hf₀, hkey, hr₀⟩ | ⟨rfl, hnew, hlt⟩
  · exact hkey ▸ (h f₀ hf₀ r hr₀).put
  · refine ⟨hlt, fun f' hf' r' hr' htoken ↦ ?_⟩
    rcases mem_put hf' hr' with ⟨f₀, hf₀, hkey, hr₀⟩ | ⟨rfl, -, -⟩
    · have hdrawn := (h f₀ hf₀ r' hr₀).drawn
      omega
    · have hold : ∀ x ∈ (s.file key).tokens.rows, x.token < s.minted :=
        fun x hx ↦ (h _ (mem_files_of_file hx) x hx).drawn
      rw [eq_of_drawTokens hold hr hr' hnew htoken]
      exact ⟨rfl, rfl⟩

end Put

/-- An unshare copies a journal that has a mind map. -/
def Copies (s : Daemon) (a : LinkAct) : Prop :=
  ∃ host target targetProjectId r src, a = .unshare host target targetProjectId ∧
    s.shares.get? (host, target) = some r ∧ s.files.get? r.journal = some src ∧
    s.has (Journal.projectKey targetProjectId target) = false ∧ src.db.maps.rows ≠ []

/-- What every step but such a copy does: it puts tables in place, drops files or changes routes. -/
theorem next_kept {u : Unicode} {sha256 : String → String} {s : Daemon} {a : LinkAct}
    (ha : ¬ s.Copies a) {I : Daemon → Prop}
    (hfewer : ∀ s s', s'.minted = s.minted → Fewer s s' → I s → I s')
    (hput : ∀ s key db, I s → I (s.put key db)) (h : I s) : I (s.next u sha256 a) := by
  have hroute : ∀ s shares, I s → I { s with shares } :=
    fun s _ hs ↦ hfewer s _ rfl (fun f hf r hr ↦ ⟨f, hf, rfl, hr⟩) hs
  have hdelete : ∀ s key, I s → I { s with files := s.files.deleteKey key } := by
    intro s key hs
    exact hfewer s _ rfl (fun f hf r hr ↦ ⟨f, (Table.mem_delete.mp hf).1, rfl, hr⟩) hs
  cases a with
  | write key op => exact hput _ _ _ h
  | take key m ownerHost now => exact hput _ _ _ h
  | share caller host target targetProjectId now =>
    show I (share u sha256 s caller host target targetProjectId now)
    unfold share
    dsimp only
    split
    · exact h
    · split
      · exact hroute _ _ (hput _ _ _ h)
      · next src hsrc =>
        split
        · exact hput _ _ _ h
        · exact hroute _ _ (hdelete _ _ (hput _ _ _ h))
  | unshare host target targetProjectId =>
    show I (unshare s host target targetProjectId)
    unfold unshare
    split
    · exact h
    · next r hr =>
      dsimp only
      split
      · exact hroute _ _ h
      · next src hsrc =>
        split
        · exact h
        · next hfree =>
          refine hfewer s _ rfl (fun f hf r' hr' ↦ ?_) h
          rcases Table.mem_insertOrIgnore.mp hf with hf | ⟨rfl, -⟩
          · exact ⟨f, hf, rfl, hr'⟩
          · exfalso
            have hmaps : src.db.maps.rows ≠ [] := by
              intro hnil
              have hstamped := src.stamped
              rw [hnil, List.map_nil, List.map_eq_nil_iff] at hstamped
              have hr'' : r' ∈ src.tokens.rows := hr'
              rw [hstamped] at hr''
              cases hr''
            exact ha ⟨host, target, targetProjectId, r, src, rfl, hr, hsrc,
              Bool.eq_false_iff.mpr hfree, hmaps⟩

theorem Distinct.next {u : Unicode} {sha256 : String → String} {s : Daemon} {a : LinkAct}
    (h : s.Distinct) (ha : ¬ s.Copies a) : (s.next u sha256 a).Distinct :=
  next_kept ha (fun _ _ hminted hfewer hs ↦ Distinct.fewer hs hminted hfewer)
    (fun _ _ _ hs ↦ Distinct.put hs) h

theorem Only.next {u : Unicode} {sha256 : String → String} {s : Daemon} {a : LinkAct}
    {key : Journal.Key} {map : Int} {n : Nat} (h : s.Only key map n) (ha : ¬ s.Copies a) :
    (s.next u sha256 a).Only key map n :=
  @next_kept u sha256 s a ha (fun s ↦ s.Only key map n)
    (fun _ _ hminted hfewer hs ↦ Only.fewer hs hminted hfewer) (fun _ _ _ hs ↦ Only.put hs) h

/-- A copy leaves two maps with one token. -/
theorem next_copies {u : Unicode} {sha256 : String → String} {s : Daemon} {a : LinkAct}
    (ha : s.Copies a) : ∃ key key' map n, key ≠ key' ∧
      (s.next u sha256 a).viewToken key map = some n ∧
      (s.next u sha256 a).viewToken key' map = some n := by
  obtain ⟨host, target, targetProjectId, r, src, rfl, hr, hsrc, hfree, hmaps⟩ := ha
  obtain ⟨hmem, hkey⟩ := Table.get?_eq_some_iff.mp hsrc
  obtain ⟨m, hm⟩ := List.exists_mem_of_ne_nil _ hmaps
  have hstamped : m.id ∈ src.tokens.rows.map TokenRow.map := by
    rw [src.stamped]
    exact List.mem_map_of_mem hm
  obtain ⟨x, hx, -⟩ := List.mem_map.mp hstamped
  have hown : Journal.projectKey targetProjectId target ∉ s.files.rows.map File.key := by
    intro hmem'
    obtain ⟨f, hf, hfkey⟩ := List.mem_map.mp hmem'
    have hsome : s.files.get? (Journal.projectKey targetProjectId target) = some f :=
      Table.get?_eq_some_iff.mpr ⟨hf, hfkey⟩
    rw [has, hsome] at hfree
    cases hfree
  have hnext : s.next u sha256 (.unshare host target targetProjectId) =
      { s with
        shares := s.shares.deleteKey (host, target)
        files := s.files.insertOrIgnore
          (src.copy (Journal.projectKey targetProjectId target)) } := by
    show unshare s host target targetProjectId = _
    unfold unshare
    rw [hr]
    dsimp only
    rw [hsrc]
    dsimp only
    rw [if_neg (by simp [hfree])]
  refine ⟨r.journal, Journal.projectKey targetProjectId target, x.map, x.token, ?_, ?_, ?_⟩
  · intro heq
    exact hown (heq ▸ hkey ▸ List.mem_map_of_mem hmem)
  · rw [hnext]
    exact viewToken_eq_some_iff.mpr ⟨src, Table.mem_insertOrIgnore.mpr (Or.inl hmem), hkey, hx⟩
  · rw [hnext]
    exact viewToken_eq_some_iff.mpr ⟨src.copy _, Table.mem_insertOrIgnore.mpr
      (Or.inr ⟨rfl, hown⟩), rfl, hx⟩

end Daemon

/-! ### Runs -/

/-- In a run, a link given out for a map leads to it as long as the map is there, and nowhere
afterwards. -/
def LinksLive (u : Unicode) (sha256 : String → String) (acts : List LinkAct) : Prop :=
  ∀ first later rest, acts = first ++ later ++ rest → ∀ key map n,
    (run (Daemon.next u sha256) .start first).viewToken key map = some n →
    (run (Daemon.next u sha256) .start (first ++ later)).findByToken n =
      if (run (Daemon.next u sha256) .start (first ++ later)).viewToken key map = some n
        then some (key, map) else none

/-- Links stay with their maps exactly where no unshare copies a journal that has a map. -/
theorem links_live_iff (u : Unicode) (sha256 : String → String) (acts : List LinkAct) :
    LinksLive u sha256 acts ↔
      ∀ t ∈ trace (Daemon.next u sha256) .start acts, ¬ t.before.Copies t.op := by
  constructor
  · intro h t ht hcopies
    obtain ⟨first, rest, hacts, hbefore⟩ := exists_of_mem_trace ht
    rw [hbefore] at hcopies
    obtain ⟨key, key', map, n, hne, hkey, hkey'⟩ := @Daemon.next_copies u sha256 _ _ hcopies
    have hrun : run (Daemon.next u sha256) .start (first ++ [t.op]) =
        (run (Daemon.next u sha256) .start first).next u sha256 t.op := run_concat
    rw [← hrun] at hkey hkey'
    have hsplit : acts = first ++ [t.op] ++ [] ++ rest := by
      rw [hacts, List.append_nil, List.append_assoc, List.singleton_append]
    have hone := h (first ++ [t.op]) [] rest hsplit key map n hkey
    have htwo := h (first ++ [t.op]) [] rest hsplit key' map n hkey'
    rw [List.append_nil] at hone htwo
    rw [if_pos hkey] at hone
    rw [if_pos hkey', hone] at htwo
    exact hne (Prod.mk.inj (Option.some.inj htwo)).1
  · intro h first later rest hacts key map n hview
    rw [hacts, trace_append, trace_append] at h
    have hdistinct : (run (Daemon.next u sha256) .start first).Distinct := by
      refine invariant_of_run Daemon.distinct_start fun t ht hbefore ↦ ?_
      rw [after_of_mem_trace ht]
      exact hbefore.next (h t (List.mem_append_left _ (List.mem_append_left _ ht)))
    obtain ⟨f, hf, hkey, hr⟩ := Daemon.viewToken_eq_some_iff.mp hview
    have honly : (run (Daemon.next u sha256) .start first).Only key map n :=
      hkey ▸ hdistinct f hf ⟨map, n⟩ hr
    rw [run_append]
    apply Daemon.findByToken_of_only
    refine @invariant_of_run _ _ _ (fun s : Daemon ↦ s.Only key map n) _ _ honly
      fun t ht hbefore ↦ ?_
    rw [after_of_mem_trace ht]
    exact Daemon.Only.next hbefore (h t (List.mem_append_left _ (List.mem_append_right _ ht)))

/-- A folder shares its repository's journal, which has a map, and stops sharing it. -/
def copiedMap : List LinkAct :=
  [.write (.repo "r") (.createMap ⟨"plan", "mindmap", "down", false⟩ ⟨"mira", none⟩ 1),
   .share ⟨"h", ["a"], some "r", true⟩ "h" ["b"] none 2,
   .unshare "h" ["b"] none]

theorem links_live_iff_copied : ¬ LinksLive .ascii id copiedMap := by
  intro h
  have hone := h copiedMap [] [] (by simp) (.repo "r") 1 0 (by decide +kernel)
  have htwo := h copiedMap [] [] (by simp) (.folder ["b"]) 1 0 (by decide +kernel)
  rw [List.append_nil, if_pos (by decide +kernel)] at hone htwo
  rw [hone] at htwo
  exact absurd htwo (by decide)

end Claudebase.Mindmap
