import Claudebase.Journal.Added
import Claudebase.Journal.Close

/-!
# Copying the entries of one journal into another

`src/journal.rs:1340–1406,1803–1862`, without the mind maps. Entries are added oldest first, one
the destination has already is folded into it, and closed flags are closed again by
`close_with`, whose refusals are dropped. A transaction of its own commits each of these: a
failure leaves what was copied before it.
-/

namespace Claudebase.Journal
open Claudebase.Base

/-! ### Reading an entry -/

/-- `attach_tags`: the tags of an entry. -/
def Db.tagsOf (db : Db) (id : Int) : List String :=
  (db.entryTags.rows.filter fun r ↦ r.entryId == id).map TagRow.tag

/-- `attach_tags`: the flags of an entry in the order of `FLAGS`. -/
def Db.flagStates (db : Db) (id : Int) : List FlagRow := flags.filterMap (db.flagRow id)

/-- An entry of another journal as `add` takes it: no reminder, no references. -/
def foreignEntry (src : Db) (e : Entry) : NewEntry where
  body := e.body
  category := e.category
  tags := src.tagsOf e.id
  salience := e.salience
  agent := e.agent
  agentId := e.agentId
  sessionId := e.sessionId
  feature := e.feature
  sourceArtifact := e.sourceArtifact
  flags := (src.flagStates e.id).map fun r ↦ r.flag.name
  proofs := src.proofsOf e.id
  foreign := true

/-! ### Copying -/

/-- A flag closed as it was; a refusal changes nothing. -/
def restoreFlag (u : Unicode) (db : Db) (id createdAt : Int) (r : FlagRow) : Db :=
  match closeWith u db id [r.flag.name] r.closedBy r.resolution (r.closedAt.getD createdAt)
      .restore with
  | .ok (_, db) => db
  | .error _ => db

/-- One entry. -/
def mergeEntry (u : Unicode) (sha256 : String → String) (src : Db) (dst : Db) (e : Entry) :
    Except String (AddStatus × Int) × Db :=
  match add u sha256 dst (foreignEntry src e) e.createdAt with
  | .error m => (.error m, dst)
  | .ok (added, db) =>
    (.ok added, ((src.flagStates e.id).filter fun r ↦ r.closedAt.isSome).foldl
      (fun db r ↦ restoreFlag u db added.2 e.createdAt r) db)

/-- The renumbering so far, and how many entries were written and folded. -/
structure Merged where
  map : List (Int × Int)
  written : Nat
  merged : Nat
  deriving DecidableEq, Repr

/-- One more entry copied. -/
def Merged.push (m : Merged) (e : Entry) : AddStatus × Int → Merged
  | (.written, id) => ⟨(e.id, id) :: m.map, m.written + 1, m.merged⟩
  | (.deduped, id) => ⟨(e.id, id) :: m.map, m.written, m.merged + 1⟩

/-- The entries, one after another. -/
def mergeLoop (u : Unicode) (sha256 : String → String) (src : Db) :
    List Entry → Merged → Db → Except String Merged × Db
  | [], m, dst => (.ok m, dst)
  | e :: es, m, dst =>
    match mergeEntry u sha256 src dst e with
    | (.error msg, dst) => (.error msg, dst)
    | (.ok added, dst) => mergeLoop u sha256 src es (m.push e added) dst

/-- The links between copied entries, renumbered. -/
def mergeLinks (map : List (Int × Int)) : List LinkRow → Db → Except String Unit × Db
  | [], dst => (.ok (), dst)
  | r :: rows, dst =>
    match map.lookup r.fromId, map.lookup r.toId with
    | some f, some t =>
      if f = t then mergeLinks map rows dst
      else match dst.insertLink ⟨f, t, r.kind⟩ with
        | .error msg => (.error msg, dst)
        | .ok dst => mergeLinks map rows dst
    | _, _ => mergeLinks map rows dst

/-- Oldest first. -/
def Entry.le (a b : Entry) : Bool :=
  a.createdAt < b.createdAt || (a.createdAt == b.createdAt && a.id ≤ b.id)

/-- The entries in the order they are copied. -/
def Db.oldestFirst (db : Db) : List Entry := db.entries.rows.mergeSort Entry.le

/-- `merge_into` up to the mind maps, which carry no flags. -/
def mergeEntries (u : Unicode) (sha256 : String → String) (dst src : Db) :
    Except String Merged × Db :=
  match mergeLoop u sha256 src src.oldestFirst ⟨[], 0, 0⟩ dst with
  | (.error msg, dst) => (.error msg, dst)
  | (.ok m, dst) =>
    match mergeLinks m.map src.entryLinks.rows dst with
    | (.error msg, dst) => (.error msg, dst)
    | (.ok (), dst) => (.ok m, dst)

/-! ### The flags of an entry -/

/-- The flags of an entry, each once. -/
theorem map_flag_flagStates (db : Db) (id : Int) :
    (db.flagStates id).map FlagRow.flag = flags.filter (db.hasFlag id) := by
  unfold Db.flagStates
  induction flags with
  | nil => rfl
  | cons f fs ih =>
    rw [List.filterMap_cons, List.filter_cons, Db.hasFlag_eq]
    cases hr : db.flagRow id f with
    | none => simpa using ih
    | some r =>
      obtain ⟨-, -, rfl⟩ := Db.flagRow_eq_some_iff.mp hr
      simpa using ih

theorem mem_flagStates {db : Db} {id : Int} {r : FlagRow} :
    r ∈ db.flagStates id ↔ db.flagRow id r.flag = some r := by
  unfold Db.flagStates
  rw [List.mem_filterMap]
  constructor
  · rintro ⟨f, -, hr⟩
    obtain ⟨-, -, rfl⟩ := Db.flagRow_eq_some_iff.mp hr
    exact hr
  · exact fun hr ↦ ⟨r.flag, mem_flags r.flag, hr⟩

theorem nodup_flagStates (db : Db) (id : Int) : ((db.flagStates id).map FlagRow.flag).Nodup := by
  rw [map_flag_flagStates]
  exact List.Nodup.filter _ (by decide)

/-- The row of a flag among selected ones. -/
theorem find?_flagStates (db : Db) (id : Int) (p : FlagRow → Bool) (f : Flag) :
    ((db.flagStates id).filter p).find? (fun r ↦ r.flag = f) = (db.flagRow id f).filter p := by
  have hmem : ∀ x, x ∈ (db.flagStates id).filter p ∧ x.flag = f ↔
      db.flagRow id f = some x ∧ p x = true := by
    intro x
    rw [List.mem_filter, mem_flagStates]
    constructor
    · rintro ⟨⟨hx, hp⟩, rfl⟩
      exact ⟨hx, hp⟩
    · rintro ⟨hx, hp⟩
      obtain ⟨-, -, rfl⟩ := Db.flagRow_eq_some_iff.mp hx
      exact ⟨⟨hx, hp⟩, rfl⟩
  cases hfind : ((db.flagStates id).filter p).find? fun r ↦ r.flag = f with
  | none =>
    have hno := List.find?_eq_none.mp hfind
    symm
    rw [Option.filter_eq_none_iff]
    intro x hx hp
    obtain ⟨hx', hf⟩ := (hmem x).mpr ⟨hx, hp⟩
    exact hno x hx' (by simpa using hf)
  | some x =>
    have hxf : x.flag = f := by simpa using List.find?_some hfind
    obtain ⟨hx, hp⟩ := (hmem x).mp ⟨List.mem_of_find?_eq_some hfind, hxf⟩
    rw [hx, Option.filter_some_pos hp]

/-- An entry is copied with the flags it has. -/
theorem entryFlagsOf_foreignEntry (u : Unicode) (src : Db) (e : Entry) :
    entryFlagsOf u (foreignEntry src e) = .ok (flags.filter (src.hasFlag e.id)) := by
  have hnames : (foreignEntry src e).flags = (flags.filter (src.hasFlag e.id)).map Flag.name := by
    rw [← map_flag_flagStates, List.map_map]
    rfl
  have hsame : (flags.filter fun f ↦ (flags.filter (src.hasFlag e.id)).contains f) =
      flags.filter (src.hasFlag e.id) := by
    apply List.filter_congr
    intro f hf
    rw [Bool.eq_iff_iff, List.contains_iff_mem, List.mem_filter]
    exact and_iff_right hf
  unfold entryFlagsOf
  rw [hnames, normalizeFlags_names, hsame]
  rfl

/-! ### Closing a flag again -/

/-- What a restored flag leaves of the row it meets. -/
def FlagRow.reclosed (r : FlagRow) (createdAt : Int) (x : FlagRow) : FlagRow :=
  if closable r.flag = true ∧ x.closedAt = none then
    { x with
      closedAt := some (r.closedAt.getD createdAt)
      closedBy := clean r.closedBy
      resolution := clean r.resolution }
  else x

theorem Db.flagRow_updateFlag {db : Db} {id : Int} {flag : Flag} {closedAt : Option Int}
    {closedBy resolution : Option String} (i : Int) (f : Flag) :
    (db.updateFlag id flag closedAt closedBy resolution).flagRow i f =
      if i = id ∧ f = flag then
        (db.flagRow i f).map fun x ↦ { x with closedAt, closedBy, resolution }
      else db.flagRow i f := by
  have hkey : ∀ r : FlagRow, FlagRow.key { r with closedAt, closedBy, resolution } = r.key :=
    fun _ ↦ rfl
  show (db.entryFlags.update _ _ hkey).get? (i, f) = _
  rw [Table.get?_update]
  show (db.flagRow i f).map _ = _
  cases hr : db.flagRow i f with
  | none => simp
  | some r =>
    obtain ⟨-, rfl, rfl⟩ := Db.flagRow_eq_some_iff.mp hr
    by_cases hk : r.entryId = id ∧ r.flag = flag
    · simp [hk]
    · rw [Option.map_some, if_neg (by simpa using hk), if_neg hk]

/-- A restoring close takes the one flag it names, if that is an open work item. -/
theorem closeWith_restore (u : Unicode) (db : Db) (id : Int) (f : Flag)
    (closedBy resolution : Option String) (now : Int) :
    (closable f = true ∧ db.hasOpenFlag id f = true ∧
      closeWith u db id [f.name] closedBy resolution now .restore =
        .ok ([f.name], db.updateFlag id f (some now) (clean closedBy) (clean resolution))) ∨
    (¬ (closable f = true ∧ db.hasOpenFlag id f = true) ∧
      ∃ msg, closeWith u db id [f.name] closedBy resolution now .restore = .error msg) := by
  unfold closeWith
  rw [normalizeFlags_name]
  by_cases hc : closable f = true
  · have hmarks : [f].find? (fun f ↦ !closable f) = none := by simp [hc]
    simp only [bind, Except.bind, hmarks]
    by_cases hopen : db.hasOpenFlag id f = true
    · have hexists : db.Exists id := Db.exists_of_hasFlag (Db.hasFlag_of_hasOpenFlag hopen)
      have hmem : f ∈ db.openWorkItems id := Db.mem_openWorkItems.mpr ⟨hopen, hc⟩
      have htargets : closeTargets db id [f] = .ok [f] := by
        have hnone : [f].find? (fun f ↦ !(db.openWorkItems id).contains f) = none := by simp [hmem]
        simp only [closeTargets, List.cons_ne_nil, ↓reduceIte, hnone]
        rfl
      have hunverified : unverifiedGate u db id [f] .restore (clean resolution) =
          .ok (clean resolution) := by
        unfold unverifiedGate
        split
        · rfl
        · rfl
      have hbranch : branchGate u db id [f] .restore (clean resolution) =
          .ok (clean resolution, []) := by
        unfold branchGate
        dsimp only
        split
        · rfl
        · rfl
      refine Or.inl ⟨hc, hopen, ?_⟩
      rw [require_of_pos hexists]
      simp only [htargets, hunverified, hbranch]
      rfl
    · refine Or.inr ⟨fun h ↦ hopen h.2, ?_⟩
      have hmem : f ∉ db.openWorkItems id := fun h ↦ hopen (Db.mem_openWorkItems.mp h).1
      have htargets : closeTargets db id [f] = .error s!"entry {id} has no open `{f.name}`" := by
        have hsome : [f].find? (fun f ↦ !(db.openWorkItems id).contains f) = some f := by simp [hmem]
        simp only [closeTargets, List.cons_ne_nil, ↓reduceIte, hsome]
      unfold require
      split
      · next e he =>
        exact ⟨e, rfl⟩
      · rw [htargets]
        exact ⟨_, rfl⟩
  · have hmarks : [f].find? (fun f ↦ !closable f) = some f := by simp [hc]
    refine Or.inr ⟨fun h ↦ hc h.1, ?_⟩
    simp only [bind, Except.bind, hmarks]
    exact ⟨_, rfl⟩

theorem restoreFlag_flagRow (u : Unicode) (db : Db) (id createdAt : Int) (r : FlagRow) (i : Int)
    (f : Flag) : (restoreFlag u db id createdAt r).flagRow i f =
      if i = id ∧ f = r.flag then (db.flagRow i f).map (r.reclosed createdAt) else db.flagRow i f := by
  unfold restoreFlag
  rcases closeWith_restore u db id r.flag r.closedBy r.resolution (r.closedAt.getD createdAt) with
    ⟨hc, hopen, hclose⟩ | ⟨hno, msg, hclose⟩
  · rw [hclose]
    dsimp only
    rw [Db.flagRow_updateFlag]
    split
    · next hk =>
      obtain ⟨rfl, rfl⟩ := hk
      rw [Db.hasOpenFlag_eq, Option.any_eq_true] at hopen
      obtain ⟨x, hx, hopen⟩ := hopen
      rw [hx, Option.map_some, Option.map_some, FlagRow.reclosed,
        if_pos ⟨hc, Option.isNone_iff_eq_none.mp hopen⟩]
    · rfl
  · rw [hclose]
    dsimp only
    split
    · next hk =>
      obtain ⟨rfl, rfl⟩ := hk
      cases hx : db.flagRow i r.flag with
      | none => rfl
      | some x =>
        rw [Option.map_some, FlagRow.reclosed, if_neg]
        rintro ⟨hc, hopen⟩
        refine hno ⟨hc, ?_⟩
        rw [Db.hasOpenFlag_eq, hx]
        simp [hopen]
    · rfl

theorem entries_restoreFlag (u : Unicode) (db : Db) (id createdAt : Int) (r : FlagRow) :
    (restoreFlag u db id createdAt r).entries = db.entries := by
  unfold restoreFlag
  rcases closeWith_restore u db id r.flag r.closedBy r.resolution (r.closedAt.getD createdAt) with
    ⟨-, -, hclose⟩ | ⟨-, msg, hclose⟩
  · rw [hclose]
    rfl
  · rw [hclose]

/-- Flags of one entry closed again, each by its own row. -/
theorem restoreFlags_flagRow (u : Unicode) (db : Db) (id createdAt : Int) {rows : List FlagRow}
    (hnodup : (rows.map FlagRow.flag).Nodup) (i : Int) (f : Flag) :
    (rows.foldl (fun db r ↦ restoreFlag u db id createdAt r) db).flagRow i f =
      if i = id then match rows.find? fun r ↦ r.flag = f with
        | some r => (db.flagRow i f).map (r.reclosed createdAt)
        | none => db.flagRow i f
      else db.flagRow i f := by
  induction rows generalizing db with
  | nil =>
    rw [List.foldl_nil, List.find?_nil]
    exact (ite_self _).symm
  | cons r rows ih =>
    rw [List.map_cons, List.nodup_cons] at hnodup
    rw [List.foldl_cons, ih _ hnodup.2, restoreFlag_flagRow, List.find?_cons]
    by_cases hi : i = id
    · by_cases hf : r.flag = f
      · have hrest : rows.find? (fun x ↦ x.flag = f) = none := by
          rw [List.find?_eq_none]
          intro x hx hxf
          rw [decide_eq_true_iff] at hxf
          exact hnodup.1 (hf.trans hxf.symm ▸ List.mem_map_of_mem hx)
        simp [hi, hf, hrest]
      · simp [hi, hf, Ne.symm hf]
    · simp [hi]

theorem entries_restoreFlags (u : Unicode) (db : Db) (id createdAt : Int) (rows : List FlagRow) :
    (rows.foldl (fun db r ↦ restoreFlag u db id createdAt r) db).entries = db.entries := by
  induction rows generalizing db with
  | nil => rfl
  | cons r rows ih =>
    rw [List.foldl_cons, ih]
    exact entries_restoreFlag u db id createdAt r

/-! ### One entry -/

/-- The row of a flag after an entry with the row `r` for it went into the entry `id`, where it
was `s` before. -/
def settled (id createdAt : Int) (r : FlagRow) (s : Option FlagRow) : FlagRow :=
  let x := s.getD ⟨id, r.flag, createdAt, none, none, none⟩
  if r.closedAt.isSome then r.reclosed createdAt x else x

/-- What copying one entry did. -/
theorem mergeEntry_ok {u : Unicode} {sha256 : String → String} {src dst db : Db} {e : Entry}
    {status : AddStatus} {id : Int} (h : mergeEntry u sha256 src dst e = (.ok (status, id), db)) :
    ∃ category db₁, categoryOf u (foreignEntry src e) (flags.filter (src.hasFlag e.id)) =
        some category ∧
      Added dst db₁ (sha256 (trimmed e.body)) category (flags.filter (src.hasFlag e.id)) e.createdAt
        status id ∧
      db.entries = db₁.entries ∧
      ∀ i f, db.flagRow i f = if i = id then match src.flagRow e.id f with
          | some r => some (settled id e.createdAt r (dst.flagRow i f))
          | none => dst.flagRow i f
        else dst.flagRow i f := by
  unfold mergeEntry at h
  cases hadd : add u sha256 dst (foreignEntry src e) e.createdAt with
  | error m =>
    rw [hadd] at h
    cases h
  | ok added =>
    obtain ⟨⟨status', id'⟩, db₁⟩ := added
    rw [hadd] at h
    cases h
    obtain ⟨named, category, hnamed, hcategory, hadded⟩ := add_ok hadd
    rw [entryFlagsOf_foreignEntry] at hnamed
    cases hnamed
    refine ⟨category, db₁, hcategory, hadded, entries_restoreFlags _ _ _ _ _, fun i f ↦ ?_⟩
    have hnodup : (((src.flagStates e.id).filter fun r ↦ r.closedAt.isSome).map
        FlagRow.flag).Nodup :=
      (nodup_flagStates src e.id).sublist (List.filter_sublist.map _)
    rw [restoreFlags_flagRow _ _ _ _ hnodup, hadded.flagRow i f]
    by_cases hi : i = id
    · rw [if_pos hi, if_pos hi, find?_flagStates]
      cases hr : src.flagRow e.id f with
      | none =>
        have hno : f ∉ flags.filter (src.hasFlag e.id) := by simp [Db.hasFlag_eq, hr]
        rw [Option.filter_none, if_neg fun h ↦ hno h.2]
      | some r =>
        obtain ⟨-, -, rfl⟩ := Db.flagRow_eq_some_iff.mp hr
        have hmem : r.flag ∈ flags.filter (src.hasFlag e.id) := by
          simp [Db.hasFlag_eq, hr, mem_flags]
        have hopened : (dst.flagRow i r.flag).or (some ⟨id, r.flag, e.createdAt, none, none, none⟩) =
            some ((dst.flagRow i r.flag).getD ⟨id, r.flag, e.createdAt, none, none, none⟩) := by
          cases dst.flagRow i r.flag with
          | none => rfl
          | some x => rfl
        rw [if_pos ⟨hi, hmem⟩, hopened]
        unfold settled
        by_cases hclosed : r.closedAt.isSome = true
        · simp [Option.filter_some, hclosed]
        · simp [Option.filter_some, hclosed]
    · simp [hi]

end Claudebase.Journal
