import Claudebase.Telegram.Poll

/-!
# Voice notes

`src/daemon/telegram.rs:1731–1752,2108–2201,2424–2462,2553–2607`. A note is parked, goes to the
worker, comes back as a transcript and is stored by a batch, after which it is unparked. The
worker's queue is memory: it is filled from what is fetched, before the note is parked, and
at a start from what is parked. A note that enters the queue twice is stored twice, and so is
one that is still parked when its transcript has been stored.
-/

namespace Claudebase.Telegram
open Claudebase.Base

/-! ### Counting updates -/

/-- How many of the updates have the id. -/
def copies (id : Int) (us : List Update) : Nat := (us.map Update.updateId).count id

@[simp] theorem copies_nil (id : Int) : copies id [] = 0 := rfl

@[simp] theorem copies_append (id : Int) (us vs : List Update) :
    copies id (us ++ vs) = copies id us + copies id vs := by
  simp [copies]

theorem copies_cons (id : Int) (u : Update) (us : List Update) :
    copies id (u :: us) = copies id [u] + copies id us :=
  copies_append id [u] us

theorem copies_eq_zero {id : Int} {us : List Update} :
    copies id us = 0 ↔ ∀ u ∈ us, u.updateId ≠ id := by
  simp [copies, List.count_eq_zero]

theorem exists_of_copies_ne_zero {id : Int} {us : List Update} (h : copies id us ≠ 0) :
    ∃ u ∈ us, u.updateId = id := by
  by_contra hnone
  push Not at hnone
  exact h (copies_eq_zero.mpr hnone)

theorem copies_le_one {id : Int} {us : List Update} (h : (us.map Update.updateId).Nodup) :
    copies id us ≤ 1 :=
  List.nodup_iff_count_le_one.mp h id

/-- Taking one update out. -/
theorem copies_eraseIdx {id : Int} {us : List Update} {i : Nat} {u : Update} (h : us[i]? = some u) :
    copies id (us.eraseIdx i) + copies id [u] = copies id us := by
  induction us generalizing i with
  | nil => simp at h
  | cons v us ih =>
    cases i with
    | zero =>
      obtain rfl : v = u := by simpa using h
      rw [List.eraseIdx_cons_zero, copies_cons id v us, Nat.add_comm]
    | succ i =>
      have hrest := ih (by simpa using h)
      rw [List.eraseIdx_cons_succ, copies_cons id v, copies_cons id v us]
      omega

/-- What the server answers holds each id once. -/
theorem Service.nodup_getUpdates (telegram : Service) (offset upTo : Int) :
    ((telegram.getUpdates offset upTo).map Update.updateId).Nodup := by
  unfold getUpdates
  rw [List.Nodup, List.pairwise_map, List.pairwise_filterMap]
  refine (List.nodup_range).imp ?_
  intro n n' hne u hu u' hu' heq
  rw [telegram.updateId_eq _ u hu, telegram.updateId_eq _ u' hu'] at heq
  apply hne
  omega

/-- The operations of a trace are those of its run. -/
theorem map_op_trace {σ ο : Type*} (next : σ → ο → σ) (s : σ) (ops : List ο) :
    (trace next s ops).map Step.op = ops := by
  induction ops generalizing s with
  | nil => rfl
  | cons o ops ih => rw [trace, List.map_cons, ih]

namespace Daemon

variable {uuids : Uuids} {telegram : Service}

/-! ### What a cycle does to the notes -/

/-- The updates a commit processes. -/
def Commit.batch : Commit → List Update
  | .process batch => batch
  | .park _ | .advance _ | .unpark _ | .collect => []

/-- The updates that have gone through a committed batch. -/
def processed (s : Daemon) : List Update := s.log.map Step.op

theorem processed_run (env : Env) (access : Access) (s : Daemon) (commits : List Commit) :
    (run (commit uuids env access) s commits).processed =
      s.processed ++ commits.flatMap Commit.batch := by
  induction commits generalizing s with
  | nil => exact (List.append_nil _).symm
  | cons c commits ih =>
    have hc : (s.commit uuids env access c).processed = s.processed ++ c.batch := by
      cases c with
      | process batch =>
        unfold processed commit
        rw [List.map_append, map_op_trace]
        rfl
      | park u => exact (List.append_nil _).symm
      | advance maxId => exact (List.append_nil _).symm
      | unpark updateId => exact (List.append_nil _).symm
      | collect => exact (List.append_nil _).symm
    calc (run (commit uuids env access) (s.commit uuids env access c) commits).processed
      _ = (s.commit uuids env access c).processed ++ commits.flatMap Commit.batch := ih _
      _ = s.processed ++ (c :: commits).flatMap Commit.batch := by
        rw [hc, List.append_assoc, List.flatMap_cons]

private theorem batch_map_nil {α : Type*} {f : α → Commit} (h : ∀ a, (f a).batch = [])
    (as : List α) : (as.map f).flatMap Commit.batch = [] := by
  simp [List.flatMap_map, h]

private theorem batch_advance (c : Cycle) : c.advance.flatMap Commit.batch = [] := by
  unfold Cycle.advance
  split
  · rfl
  · rfl

/-- A cycle that gets past the commit of its batch. -/
def Progress.processes : Progress → Bool
  | .processed _ | .complete => true
  | .parked _ | .advanced => false

theorem batch_commits (c : Cycle) (progress : Progress) :
    (c.commits progress).flatMap Commit.batch = if progress.processes then c.batch else [] := by
  have hparks : ∀ us : List Update, (us.map Commit.park).flatMap Commit.batch = [] :=
    batch_map_nil fun _ ↦ rfl
  have hunparks : ∀ ids : List Int, (ids.map Commit.unpark).flatMap Commit.batch = [] :=
    batch_map_nil fun _ ↦ rfl
  have hprocess : [Commit.process c.batch].flatMap Commit.batch = c.batch := List.append_nil _
  have hcollect : [Commit.collect].flatMap Commit.batch = [] := rfl
  cases progress with
  | parked n => exact hparks _
  | advanced =>
    simp only [Cycle.commits, List.flatMap_append, hparks, batch_advance]
    rfl
  | processed n =>
    simp only [Cycle.commits, List.flatMap_append, hparks, hunparks, batch_advance, hprocess]
    simp [Progress.processes]
  | complete =>
    simp only [Cycle.commits, List.flatMap_append, hparks, hunparks, batch_advance, hprocess,
      hcollect]
    simp [Progress.processes]

/-- A batch touches no parked note and takes the offset no lower. -/
theorem process_notes (uuids : Uuids) (env : Env) (access : Access) (db : Db)
    (batch : List Update) :
    (Batch.process uuids env db access batch).db.pendingVoice = db.pendingVoice ∧
      db.lastUpdateId ≤ (Batch.process uuids env db access batch).db.lastUpdateId := by
  unfold Batch.process
  split
  · exact ⟨rfl, le_refl _⟩
  · obtain ⟨new, -, happ⟩ := Batch.extends_updates uuids env db access batch
    obtain ⟨-, hvoice, hoffset⟩ :=
      Batch.advanceOffset_db (Batch.updates uuids env db access batch)
    rw [hvoice, hoffset, happ.pendingVoice, happ.lastUpdateId]
    exact ⟨rfl, le_max_left _ _⟩

/-- No commit but a parking parks. -/
theorem parked_commits {env : Env} {access : Access} {s : Daemon} {commits : List Commit}
    {n : Update} (h : (run (commit uuids env access) s commits).Parked n) :
    s.Parked n ∨ .park n ∈ commits := by
  refine invariant_of_run (I := fun s' : Daemon ↦ s'.Parked n → s.Parked n ∨ .park n ∈ commits)
    (s := s) Or.inl ?_ h
  intro t ht hbefore hafter
  have hop := op_mem_of_mem_trace ht
  rw [after_of_mem_trace ht] at hafter
  generalize t.op = c at hop hafter
  cases c with
  | park u =>
    obtain ⟨r, hr, hn⟩ := hafter
    rcases Table.mem_insertOrIgnore.mp hr with hr | ⟨rfl, -⟩
    · exact hbefore ⟨r, hr, hn⟩
    · exact Or.inr (hn ▸ hop)
  | advance maxId => exact hbefore hafter
  | process batch =>
    apply hbefore
    unfold Parked commit at hafter
    rwa [(process_notes uuids env access t.before.db batch).1] at hafter
  | unpark updateId =>
    obtain ⟨r, hr, hn⟩ := hafter
    exact hbefore ⟨r, (Table.mem_delete.mp hr).1, hn⟩
  | collect => exact hbefore hafter

/-- Unparking leaves the notes under other ids. -/
theorem mem_unparks {env : Env} {access : Access} {s : Daemon} {ids : List Int} {r : PendingVoice} :
    r ∈ (run (commit uuids env access) s (ids.map .unpark)).db.pendingVoice.rows ↔
      r ∈ s.db.pendingVoice.rows ∧ r.updateId ∉ ids := by
  induction ids generalizing s with
  | nil => exact ⟨fun hr ↦ ⟨hr, List.not_mem_nil⟩, And.left⟩
  | cons id ids ih =>
    have hid : r ∈ (s.commit uuids env access (.unpark id)).db.pendingVoice.rows ↔
        r ∈ s.db.pendingVoice.rows ∧ r.updateId ≠ id := by
      unfold commit Db.deletePendingVoice Table.deleteKey
      rw [Table.mem_delete]
      simp
    rw [List.map_cons, List.mem_cons, not_or, ← and_assoc, ← hid]
    exact ih

/-- No commit but one takes the offset below where it was. -/
theorem lastUpdateId_commits {env : Env} {access : Access} {s : Daemon} {commits : List Commit}
    (h : ∀ maxId, .advance maxId ∈ commits → s.db.lastUpdateId ≤ maxId) :
    s.db.lastUpdateId ≤ (run (commit uuids env access) s commits).db.lastUpdateId := by
  refine invariant_of_run (I := fun s' : Daemon ↦ s.db.lastUpdateId ≤ s'.db.lastUpdateId) (s := s)
    (le_refl _) ?_
  intro t ht hbefore
  have hop := op_mem_of_mem_trace ht
  rw [after_of_mem_trace ht]
  generalize t.op = c at hop
  cases c with
  | park u => exact hbefore
  | advance maxId => exact h maxId hop
  | process batch => exact hbefore.trans (process_notes uuids env access t.before.db batch).2
  | unpark updateId => exact hbefore
  | collect => exact hbefore

theorem mem_toPark_of_commits {c : Cycle} {progress : Progress} {n : Update}
    (h : .park n ∈ c.commits progress) : n ∈ c.toPark := by
  have hadvance : Commit.park n ∉ c.advance := by
    unfold Cycle.advance
    split
    · simp
    · simp
  cases progress with
  | parked k =>
    obtain ⟨u, hu, heq⟩ := List.mem_map.mp h
    obtain rfl : u = n := Commit.park.inj heq
    exact List.mem_of_mem_take hu
  | advanced => simpa [Cycle.commits, hadvance] using h
  | processed k => simpa [Cycle.commits, hadvance, -List.map_take] using h
  | complete => simpa [Cycle.commits, hadvance] using h

theorem fetchedMaxId_of_commits {c : Cycle} {progress : Progress} {maxId : Int}
    (h : .advance maxId ∈ c.commits progress) : maxId = c.fetchedMaxId ∧ 0 < c.fetchedMaxId := by
  have hadvance : Commit.advance maxId ∈ c.advance →
      maxId = c.fetchedMaxId ∧ 0 < c.fetchedMaxId := by
    unfold Cycle.advance
    split
    · next hpos => exact fun hmem ↦ ⟨Commit.advance.inj (List.mem_singleton.mp hmem), hpos⟩
    · exact fun hmem ↦ absurd hmem List.not_mem_nil
  apply hadvance
  cases progress with
  | parked k => simp [Cycle.commits, -List.map_take] at h
  | advanced => simpa [Cycle.commits] using h
  | processed k => simpa [Cycle.commits, -List.map_take] using h
  | complete => simpa [Cycle.commits] using h

/-- A cycle that unparks all its transcripts leaves none of them parked. -/
theorem settled_commits {env : Env} {access : Access} {s : Daemon} {c : Cycle}
    {progress : Progress} (hall : ∀ k, progress = .processed k → c.settled.length ≤ k)
    (hprocesses : progress.processes = true) {r : PendingVoice}
    (h : r ∈ (run (commit uuids env access) s (c.commits progress)).db.pendingVoice.rows) :
    r.updateId ∉ c.settled := by
  cases progress with
  | parked k => cases hprocesses
  | advanced => cases hprocesses
  | processed k =>
    rw [Cycle.commits, List.take_of_length_le (hall k rfl), run_append] at h
    exact (mem_unparks.mp h).2
  | complete =>
    rw [Cycle.commits, run_append, run_append] at h
    have h : r ∈ (run (commit uuids env access) _ (c.settled.map .unpark)).db.pendingVoice.rows := h
    exact (mem_unparks.mp h).2

/-! ### One transcript for each note -/

/-- A voice note the server holds. -/
def HasNote (telegram : Service) (n : Update) : Prop :=
  telegram.update n.updateId = some n ∧ n.isUntranscribedVoice = true

variable (telegram) in
/-- A note is at the worker once, or processed once, or neither; a processed one is not parked
and will not be fetched. -/
structure Single (s : Daemon) : Prop where
  once : ∀ n, HasNote telegram n →
    copies n.updateId (s.voiceQueue ++ s.transcripts) + copies n.updateId s.processed ≤ 1
  unparked : ∀ n, HasNote telegram n → s.Parked n → copies n.updateId s.processed = 0
  below : ∀ n, HasNote telegram n → copies n.updateId s.processed ≠ 0 →
    n.updateId ≤ s.db.lastUpdateId
  down : s.running = false → s.voiceQueue = [] ∧ s.transcripts = []
  origin : ∀ u ∈ s.processed,
    (u ∈ s.handed ∧ u.isUntranscribedVoice = false) ∨ s.IsTranscript u

theorem single_fresh : Single telegram fresh := by
  constructor
  · exact fun n hn ↦ Nat.zero_le 1
  · exact fun n hn hp ↦ rfl
  · exact fun n hn hp ↦ absurd rfl hp
  · exact fun hdown ↦ ⟨rfl, rfl⟩
  · exact fun u hu ↦ absurd hu List.not_mem_nil

/-- Steps that process nothing and bring nothing to the worker. -/
theorem Single.of_frame {s s' : Daemon} (h : Single telegram s) (hhanded : s'.handed = s.handed)
    (hlog : s'.log = s.log) (hoffset : s'.db.lastUpdateId = s.db.lastUpdateId)
    (hparked : ∀ n, s'.Parked n → s.Parked n)
    (hcopies : ∀ id, copies id (s'.voiceQueue ++ s'.transcripts) ≤
      copies id (s.voiceQueue ++ s.transcripts))
    (hdown : s'.running = false → s'.voiceQueue = [] ∧ s'.transcripts = []) :
    Single telegram s' := by
  have hprocessed : s'.processed = s.processed := by
    unfold processed
    rw [hlog]
  constructor
  · intro n hn
    rw [hprocessed]
    have honce := h.once n hn
    have hle := hcopies n.updateId
    omega
  · intro n hn hp
    rw [hprocessed]
    exact h.unparked n hn (hparked n hp)
  · intro n hn hp
    rw [hprocessed] at hp
    rw [hoffset]
    exact h.below n hn hp
  · exact hdown
  · intro u hu
    unfold IsTranscript IsNote
    rw [hhanded]
    exact h.origin u (hprocessed ▸ hu)

theorem Single.of_quiet {s s' : Daemon} (h : Single telegram s) (hq : Quiet s s') :
    Single telegram s' := by
  apply h.of_frame hq.handed hq.log hq.offset
  · unfold Parked
    rw [hq.parked]
    exact fun n hn ↦ hn
  · rw [hq.voiceQueue, hq.transcripts]
    exact fun id ↦ le_refl _
  · rw [hq.running, hq.voiceQueue, hq.transcripts]
    exact h.down

/-! ### The poll cycle -/

section

variable (s : Daemon) (upTo : Int)

/-- A note is fetched once, or not at all. -/
theorem copies_toPark_le (telegram : Service) (n : Update) :
    copies n.updateId (s.cycleOf telegram upTo).toPark ≤ 1 := by
  apply copies_le_one
  have hsub : ((s.cycleOf telegram upTo).toPark.map Update.updateId).Sublist
      ((s.fetched telegram upTo).map Update.updateId) := List.filter_sublist.map _
  exact hsub.nodup (telegram.nodup_getUpdates _ _)

theorem copies_toPark_of_not_mem {n : Update} (hn : HasNote telegram n)
    (hnot : n ∉ s.fetched telegram upTo) : copies n.updateId (s.cycleOf telegram upTo).toPark = 0 := by
  apply copies_eq_zero.mpr
  intro u hu hid
  have hu : u ∈ s.fetched telegram upTo := (List.mem_filter.mp hu).1
  have hknown := (Service.mem_getUpdates.mp hu).2.2
  rw [hid, hn.1] at hknown
  rw [Option.some.inj hknown] at hnot
  exact hnot hu

/-- A batch holds a note as often as its transcripts do. -/
theorem copies_batch {n : Update} (hn : HasNote telegram n) :
    copies n.updateId (s.cycleOf telegram upTo).batch = copies n.updateId s.transcripts := by
  have hrest : copies n.updateId
      ((s.fetched telegram upTo).filter fun u ↦ !u.isUntranscribedVoice) = 0 := by
    apply copies_eq_zero.mpr
    intro u hu hid
    obtain ⟨hu, hvoice⟩ := List.mem_filter.mp hu
    have hknown := (Service.mem_getUpdates.mp hu).2.2
    rw [hid, hn.1] at hknown
    rw [← Option.some.inj hknown, hn.2] at hvoice
    cases hvoice
  calc copies n.updateId (s.cycleOf telegram upTo).batch
    _ = copies n.updateId ((s.fetched telegram upTo).filter fun u ↦ !u.isUntranscribedVoice) +
        copies n.updateId s.transcripts := copies_append _ _ _
    _ = copies n.updateId s.transcripts := by rw [hrest, Nat.zero_add]

/-- The offset moves to something above it. -/
theorem le_fetchedMaxId {s : Daemon} {upTo : Int}
    (hpos : 0 < (s.cycleOf telegram upTo).fetchedMaxId) :
    s.db.lastUpdateId ≤ (s.cycleOf telegram upTo).fetchedMaxId := by
  unfold cycleOf at hpos ⊢
  cases hf : s.fetched telegram upTo with
  | nil =>
    rw [hf] at hpos
    exact absurd hpos (lt_irrefl 0)
  | cons u us =>
    have hu : u ∈ s.fetched telegram upTo := hf ▸ List.mem_cons_self
    have habove := (Service.mem_getUpdates.mp hu).1
    have hmax : u.updateId ≤ (Cycle.of (u :: us) s.transcripts).fetchedMaxId :=
      le_foldl_max (Or.inr ⟨u.updateId, List.mem_cons_self, le_refl _⟩)
    omega

end


/-- A note that is fetched again is not at the worker. -/
def Apart (telegram : Service) (s : Daemon) (upTo : Int) : Prop :=
  ∀ n ∈ s.fetched telegram upTo, n.isUntranscribedVoice = true →
    ∀ u ∈ s.voiceQueue ++ s.transcripts, u.updateId ≠ n.updateId

theorem Single.pollCycle {pending : List Update} {s : Daemon} (h : Single telegram s)
    (ht : Tracked telegram pending s) (hrunning : s.running = true) {upTo : Int}
    {progress : Progress} (hall : ∀ k, progress = .processed k → s.transcripts.length ≤ k)
    (hapart : Apart telegram s upTo) (access : Access) (env : Env) :
    Single telegram (s.pollCycle uuids telegram upTo access env progress) := by
  have htracked : Tracked telegram (pending ++ leftOpen telegram s upTo progress)
      (s.pollCycle uuids telegram upTo access env progress) := ht.pollCycle upTo access env progress
  unfold Daemon.pollCycle at htracked ⊢
  split
  · next hidle =>
    -- nothing came in and nothing was waiting
    obtain ⟨hfetched, htranscripts⟩ : s.fetched telegram upTo = [] ∧ s.transcripts = [] := by
      simpa using hidle
    apply h.of_frame
    · simp [Daemon.receive, hfetched]
    · rfl
    · rfl
    · exact fun n hn ↦ hn
    · simp [Daemon.receive, cycleOf, Cycle.of, hfetched]
    · exact fun hdown ↦ absurd (hrunning.symm.trans hdown) (by decide)
  · next hbusy =>
    rw [if_neg hbusy] at htracked
    generalize hs' : run (commit uuids env access) (s.receive telegram upTo)
      ((s.cycleOf telegram upTo).commits progress) = s' at htracked
    have hmemory : SameMemory (s.receive telegram upTo) s' := hs' ▸ sameMemory_run _ _
    have hqueue : s'.voiceQueue = s.voiceQueue ++ (s.cycleOf telegram upTo).toPark :=
      hmemory.voiceQueue
    have htranscripts : s'.transcripts = [] := hmemory.transcripts
    have hprocessed : s'.processed = s.processed ++
        if progress.processes then (s.cycleOf telegram upTo).batch else [] := by
      rw [← hs', processed_run, batch_commits]
      rfl
    have hparked : ∀ n, s'.Parked n → s.Parked n ∨ n ∈ s.fetched telegram upTo := by
      intro n hn
      rw [← hs'] at hn
      exact (parked_commits hn).imp_right fun hmem ↦ (List.mem_filter.mp (mem_toPark_of_commits hmem)).1
    have hoffset : s.db.lastUpdateId ≤ s'.db.lastUpdateId := by
      have hbefore : (s.receive telegram upTo).db.lastUpdateId = s.db.lastUpdateId := rfl
      rw [← hs', ← hbefore]
      apply lastUpdateId_commits
      intro maxId hmem
      obtain ⟨rfl, hpos⟩ := fetchedMaxId_of_commits hmem
      rw [hbefore]
      exact le_fetchedMaxId hpos
    -- a note that is fetched was nowhere before
    have hnew : ∀ n, HasNote telegram n → n ∈ s.fetched telegram upTo →
        copies n.updateId (s.voiceQueue ++ s.transcripts) = 0 ∧ copies n.updateId s.processed = 0 := by
      intro n hn hmem
      refine ⟨copies_eq_zero.mpr (hapart n hmem hn.2), ?_⟩
      by_contra hne
      have hbelow := h.below n hn hne
      have habove := (Service.mem_getUpdates.mp hmem).1
      omega
    have hcopies : ∀ n, HasNote telegram n → copies n.updateId s'.processed =
        copies n.updateId s.processed +
          if progress.processes then copies n.updateId s.transcripts else 0 := by
      intro n hn
      rw [hprocessed, copies_append]
      split
      · rw [copies_batch s upTo hn]
      · rfl
    constructor
    · intro n hn
      rw [hqueue, htranscripts, hcopies n hn]
      have honce := h.once n hn
      have hpark := copies_toPark_le s upTo telegram n
      simp only [copies_append, copies_nil] at honce ⊢
      by_cases hmem : n ∈ s.fetched telegram upTo
      · obtain ⟨hworker, hlogged⟩ := hnew n hn hmem
        rw [copies_append] at hworker
        split
        · omega
        · omega
      · have hnone := copies_toPark_of_not_mem s upTo hn hmem
        split
        · omega
        · omega
    · intro n hn hp
      rw [hcopies n hn]
      rcases hparked n hp with hbefore | hmem
      · rw [h.unparked n hn hbefore, Nat.zero_add]
        split
        · next hprocesses =>
          apply copies_eq_zero.mpr
          intro u hu hid
          -- a transcript of the batch has been unparked
          obtain ⟨r, hr, rfl⟩ := hp
          have hkey : r.updateId = r.update.updateId := (htracked.parked r hr).1
          have hlength : ∀ k, progress = .processed k →
              (s.cycleOf telegram upTo).settled.length ≤ k := by
            intro k hk
            rw [cycleOf, Cycle.of, List.length_map]
            exact hall k hk
          rw [← hs'] at hr
          apply settled_commits hlength hprocesses hr
          rw [hkey, ← hid]
          exact List.mem_map_of_mem hu
        · rfl
      · obtain ⟨hworker, hlogged⟩ := hnew n hn hmem
        rw [copies_append] at hworker
        split
        · omega
        · omega
    · intro n hn hne
      rw [hcopies n hn] at hne
      by_cases hlogged : copies n.updateId s.processed = 0
      · have hdone : copies n.updateId s.transcripts ≠ 0 := by
          split at hne
          · omega
          · omega
        obtain ⟨d, hd, hid⟩ := exists_of_copies_ne_zero hdone
        obtain ⟨v, text, hv, rfl⟩ := ht.transcripts d hd
        have hvn : v = n := by
          have hknown := ht.known v hv.1
          rw [← updateId_transcribed v text, hid, hn.1] at hknown
          exact (Option.some.inj hknown).symm
        subst hvn
        by_contra habove
        have hmem : v ∈ s.fetched telegram upTo := by
          apply Service.mem_getUpdates.mpr
          have hserved := ht.served v hv.1
          exact ⟨by omega, le_max_of_le_left hserved, hn.1⟩
        exact hapart v hmem hn.2 _ (List.mem_append_right _ hd) hid
      · exact (h.below n hn hlogged).trans hoffset
    · intro hdown
      rw [hmemory.running] at hdown
      exact absurd (hrunning.symm.trans hdown) (by decide)
    · intro u hu
      have hhanded : s'.handed = s.handed ++ s.fetched telegram upTo := hmemory.handed
      have hnote : ∀ {v}, s.IsTranscript v → s'.IsTranscript v := by
        rintro v ⟨n, text, hn, rfl⟩
        exact ⟨n, text, ⟨hhanded ▸ List.mem_append_left _ hn.1, hn.2⟩, rfl⟩
      rw [hprocessed, List.mem_append] at hu
      rw [hhanded]
      rcases hu with hu | hu
      · exact (h.origin u hu).imp (fun hold ↦ ⟨List.mem_append_left _ hold.1, hold.2⟩) hnote
      · split at hu
        · rcases List.mem_append.mp hu with hu | hu
          · obtain ⟨hu, hvoice⟩ := List.mem_filter.mp hu
            exact Or.inl ⟨List.mem_append_right _ hu, by simpa using hvoice⟩
          · exact Or.inr (hnote (ht.transcripts u hu))
        · exact absurd hu List.not_mem_nil

/-! ### Runs -/

/-- A cycle ends, by an error or a crash, after the commit of its batch and before the last
transcript in it has been unparked. -/
def LeavesParked (t : Step Daemon Op) : Prop :=
  t.before.running = true ∧ ∃ upTo access env k, t.op = .poll upTo access env (.processed k) ∧
    k < t.before.transcripts.length

/-- A cycle fetches a note that is at the worker, or whose transcript is ready. -/
def FetchesAgain (telegram : Service) (t : Step Daemon Op) : Prop :=
  t.before.running = true ∧ ∃ upTo access env progress,
    t.op = .poll upTo access env progress ∧ ¬ Apart telegram t.before upTo

/-- A note at the worker becomes a transcript. -/
theorem Single.transcribe {s : Daemon} (h : Single telegram s) (hrunning : s.running = true)
    (i : Nat) (outcome : Except String String) : Single telegram (s.transcribe i outcome) := by
  unfold Daemon.transcribe
  split
  · exact h
  · next u hu =>
    apply h.of_frame
    · rfl
    · rfl
    · rfl
    · rintro n ⟨r', hr', rfl⟩
      obtain ⟨r, hr, rfl⟩ := Db.mem_bumpPendingVoiceAttempts.mp hr'
      exact ⟨r, hr, rfl⟩
    · intro id
      have herase : copies id (s.voiceQueue.eraseIdx i) + copies id [u] = copies id s.voiceQueue :=
        copies_eraseIdx hu
      have hsame : ∀ text, copies id [u.transcribed text] = copies id [u] := fun _ ↦ rfl
      simp only [copies_append, hsame]
      omega
    · exact fun hdown ↦ absurd (hrunning.symm.trans hdown) (by decide)

/-- A start takes the parked notes, none of which has been processed. -/
theorem Single.start {pending : List Update} {s : Daemon} (h : Single telegram s)
    (ht : Tracked telegram pending s) (hdown : s.running = false) (now : Int) :
    Single telegram (s.start now) := by
  have hqueue : (s.start now).voiceQueue = s.db.loadPendingVoice.map PendingVoice.update := rfl
  have hrows : ∀ r ∈ s.db.loadPendingVoice, r ∈ s.db.pendingVoice.rows :=
    fun r hr ↦ (List.perm_insertionSort _ _).mem_iff.mp hr
  have hids : (s.db.loadPendingVoice.map PendingVoice.update).map Update.updateId =
      s.db.loadPendingVoice.map PendingVoice.updateId := by
    rw [List.map_map]
    apply List.map_congr_left
    intro r hr
    exact (ht.parked r (hrows r hr)).1.symm
  have honce : ∀ id, copies id (s.db.loadPendingVoice.map PendingVoice.update) ≤ 1 := by
    intro id
    apply copies_le_one
    rw [hids]
    have hperm : (s.db.loadPendingVoice.map PendingVoice.updateId).Perm
        (s.db.pendingVoice.rows.map PendingVoice.updateId) := (List.perm_insertionSort _ _).map _
    exact hperm.nodup_iff.mpr s.db.pendingVoice.nodup
  constructor
  · intro n hn
    rw [hqueue]
    have htranscripts : (s.start now).transcripts = [] := (h.down hdown).2
    have hprocessed : (s.start now).processed = s.processed := rfl
    rw [htranscripts, hprocessed, List.append_nil]
    by_cases hparked : copies n.updateId (s.db.loadPendingVoice.map PendingVoice.update) = 0
    · have hold := h.once n hn
      omega
    · obtain ⟨u, hu, hid⟩ := exists_of_copies_ne_zero hparked
      obtain ⟨r, hr, rfl⟩ := List.mem_map.mp hu
      have hknown := ht.known _ (ht.parked r (hrows r hr)).2.1
      rw [hid, hn.1] at hknown
      have hlogged := h.unparked n hn ⟨r, hrows r hr, (Option.some.inj hknown).symm⟩
      have hle := honce n.updateId
      omega
  · exact h.unparked
  · exact h.below
  · exact fun hup ↦ absurd hup (by simp [Daemon.start])
  · exact h.origin

/-- Every step that unparks what it stores and fetches no note twice keeps notes single. -/
theorem single_next {pending : List Update} {s : Daemon} {op : Op} (h : Single telegram s)
    (ht : Tracked telegram pending s)
    (hleaves : ¬ LeavesParked ⟨s, op, next uuids telegram s op⟩)
    (hagain : ¬ FetchesAgain telegram ⟨s, op, next uuids telegram s op⟩) :
    Single telegram (next uuids telegram s op) := by
  unfold next
  split
  · next upTo access env progress hrunning =>
    apply h.pollCycle ht hrunning
    · rintro k rfl
      by_contra hlt
      exact hleaves ⟨hrunning, upTo, access, env, k, rfl, not_le.mp hlt⟩
    · by_contra hnot
      exact hagain ⟨hrunning, upTo, access, env, progress, rfl, hnot⟩
  · next hrunning => exact h.transcribe hrunning _ _
  · exact h.of_quiet (quiet_handleChatPost s _ _ _ _)
  · exact h.of_quiet (quiet_sendNext s _ _)
  · exact h.of_quiet (quiet_drainBacklog s _ _)
  · exact h.of_quiet ⟨rfl, rfl, rfl, rfl, rfl, rfl, rfl, rfl⟩
  · exact h.of_frame rfl rfl rfl (fun n hn ↦ hn) (fun id ↦ Nat.zero_le _) fun _ ↦ ⟨rfl, rfl⟩
  · next hdown => exact h.start ht hdown _
  · exact h

/-! ### One message for each note -/

/-- The messages stored for a note: what the steps of the log on it added to the table. -/
def messagesOf (s : Daemon) (n : Update) : List ChatMessage :=
  (s.log.filter fun t ↦ t.op.updateId = n.updateId).flatMap fun t ↦
    t.after.db.chatMessages.rows.drop t.before.db.chatMessages.rows.length

/-- A note becomes one message: none while it waits, above the offset or parked, and once its
transcript has been processed exactly one, if the gate admitted its sender. -/
structure OneMessage (s : Daemon) (n : Update) : Prop where
  stored : ∀ row ∈ s.messagesOf n, ∃ row' ∈ s.db.chatMessages.rows, SameMessage row row'
  once : (s.messagesOf n).length ≤ 1
  waiting : s.Parked n → s.messagesOf n = []
  settled : s.db.lastUpdateId < n.updateId ∨ s.Parked n ∨
    ∃ t ∈ s.log, ∃ text, t.op = n.transcribed text ∧
      ∀ m, n.message = some m → t.before.access.Admits (toString m.userId) →
        ∃ row, Batch.RowOf { m with text := some text } text row ∧ s.messagesOf n = [row]

theorem length_log_filter (s : Daemon) (id : Int) :
    (s.log.filter fun t ↦ t.op.updateId = id).length = copies id s.processed := by
  unfold copies processed
  rw [← List.countP_eq_length_filter, List.count_eq_countP, List.countP_map, List.countP_map]
  apply List.countP_congr
  intro t ht
  simp

/-- A step of a batch adds one row at most. -/
theorem Genuine.length_added {s : Daemon} {t : Step Batch Update} (h : Genuine uuids s t) :
    (t.after.db.chatMessages.rows.drop t.before.db.chatMessages.rows.length).length ≤ 1 := by
  obtain ⟨env, hstep⟩ := h.step
  obtain ⟨new, hlength, -, happ⟩ := Batch.appends_processUpdate uuids env t.before t.op
  rw [hstep, happ.rows, List.drop_left]
  exact hlength

/-- The steps of the log on a note: one, or none. -/
theorem Single.steps {s : Daemon} (h : Single telegram s) {n : Update} (hn : HasNote telegram n) :
    (s.log.filter fun t ↦ t.op.updateId = n.updateId) = [] ∨
      ∃ t ∈ s.log, (s.log.filter fun t ↦ t.op.updateId = n.updateId) = [t] := by
  have honce := h.once n hn
  rw [← length_log_filter] at honce
  generalize hsel : s.log.filter (fun t ↦ decide (t.op.updateId = n.updateId)) = steps at honce
  have hlength : steps.length = 0 ∨ steps.length = 1 := by omega
  rcases hlength with hnone | hsome
  · exact Or.inl (List.length_eq_zero_iff.mp hnone)
  · obtain ⟨t, rfl⟩ := List.length_eq_one_iff.mp hsome
    have ht : t ∈ s.log.filter fun t ↦ t.op.updateId = n.updateId := hsel ▸ List.mem_cons_self
    exact Or.inr ⟨t, (List.mem_filter.mp ht).1, rfl⟩

/-- The step that processed a note is the only one on it. -/
theorem Single.steps_of_mem {s : Daemon} (h : Single telegram s) {n : Update}
    (hn : HasNote telegram n) {t : Step Batch Update} (ht : t ∈ s.log)
    (hid : t.op.updateId = n.updateId) :
    (s.log.filter fun t ↦ t.op.updateId = n.updateId) = [t] := by
  have hmem : t ∈ s.log.filter fun t ↦ t.op.updateId = n.updateId :=
    List.mem_filter.mpr ⟨ht, by simpa using hid⟩
  rcases h.steps hn with hnone | ⟨t', -, hone⟩
  · rw [hnone] at hmem
    cases hmem
  · rw [hone] at hmem ⊢
    rw [List.mem_singleton.mp hmem]

/-- Notes that are single become one message each. -/
theorem Single.oneMessage {pending : List Update} {s : Daemon} (h : Single telegram s)
    (ht : Tracked telegram pending s) (hpending : ∀ u ∈ pending, u.isWanted = true)
    (hlog : ∀ t ∈ s.log, Genuine uuids s t) {n : Update} (hn : s.IsNote n) : s.OneMessage n := by
  have hnote : HasNote telegram n := ⟨ht.known n hn.1, hn.2⟩
  constructor
  · intro row hrow
    obtain ⟨t, htmem, hrow⟩ := List.mem_flatMap.mp hrow
    exact (hlog t (List.mem_filter.mp htmem).1).grows.kept row (List.mem_of_mem_drop hrow)
  · unfold messagesOf
    rcases h.steps hnote with hnone | ⟨t, htlog, hone⟩
    · rw [hnone]
      exact Nat.zero_le 1
    · rw [hone, List.flatMap_singleton]
      exact (hlog t htlog).length_added
  · intro hparked
    have hnone := h.unparked n hnote hparked
    rw [← length_log_filter, List.length_eq_zero_iff] at hnone
    unfold messagesOf
    rw [hnone]
    rfl
  · have hopen : n ∉ pending := by
      intro hmem
      have hvoice := isUntranscribedVoice_of_isWanted (hpending n hmem)
      rw [hn.2] at hvoice
      cases hvoice
    rcases ht.settled n hn.1 hopen with habove | hsettled
    · exact Or.inl habove
    · rcases hsettled.note hn.2 with hparked | ⟨text, t, htlog, hop⟩
      · exact Or.inr (Or.inl hparked)
      · refine Or.inr (Or.inr ⟨t, htlog, text, hop, fun m hm hadmits ↦ ?_⟩)
        obtain ⟨env, hstep⟩ := (hlog t htlog).step
        have hmessage : t.op.message = some { m with text := some text } := by
          simp [hop, Update.transcribed, hm]
        have hcontent : Batch.content? { m with text := some text } = some text := rfl
        obtain ⟨row, hrow, hrows⟩ :=
          Batch.stored_processUpdate uuids env hmessage hcontent hadmits
        have hid : t.op.updateId = n.updateId := by
          rw [hop]
          rfl
        refine ⟨row, hrow, ?_⟩
        unfold messagesOf
        rw [h.steps_of_mem hnote htlog hid, List.flatMap_singleton, hstep, hrows, List.drop_left]

end Daemon

open Daemon in
/-- Every note becomes one message, in every run whose cycles unpark what they store and fetch
no note that is at the worker. -/
theorem voice_note_once (uuids : Uuids) (telegram : Service) (ops : List Daemon.Op)
    (hleaves : ∀ t ∈ trace (Daemon.next uuids telegram) .fresh ops, ¬ LeavesParked t)
    (hagain : ∀ t ∈ trace (Daemon.next uuids telegram) .fresh ops, ¬ FetchesAgain telegram t) :
    ∀ t ∈ trace (Daemon.next uuids telegram) .fresh ops, ∀ n, t.after.IsNote n →
      t.after.OneMessage n := by
  let I : Daemon → Prop := fun s ↦ ∃ pending, (∀ u ∈ pending, u.isWanted = true) ∧
    Tracked telegram pending s ∧ Single telegram s ∧ ∀ t ∈ s.log, Genuine uuids s t
  have hstart : I .fresh :=
    ⟨[], fun u hu ↦ absurd hu List.not_mem_nil, tracked_fresh, single_fresh,
      fun t ht ↦ absurd ht List.not_mem_nil⟩
  have hstep : ∀ t ∈ trace (Daemon.next uuids telegram) .fresh ops, I t.before → I t.after := by
    rintro t ht ⟨pending, hwanted, htracked, hsingle, hlog⟩
    have hl := hleaves t ht
    have ha := hagain t ht
    obtain ⟨s, op, s'⟩ := t
    obtain rfl : s' = Daemon.next uuids telegram s op := after_of_mem_trace ht
    refine ⟨pending ++ opened telegram s op, ?_, tracked_next htracked op,
      single_next hsingle htracked hl ha, genuine_next hlog op⟩
    intro u hu
    rcases List.mem_append.mp hu with hu | hu
    · exact hwanted u hu
    · exact isWanted_of_mem_opened hu
  intro t ht n hn
  obtain ⟨pending, hwanted, htracked, hsingle, hlog⟩ := (invariant_of_trace hstart hstep t ht).2
  exact hsingle.oneMessage htracked hwanted hlog hn

namespace Daemon

instance (telegram : Service) (s : Daemon) (upTo : Int) : Decidable (Apart telegram s upTo) :=
  inferInstanceAs (Decidable (∀ n ∈ _, _ = _ → ∀ u ∈ _, _ ≠ _))

/-- A note of the operator's. -/
def noteUpdate : Update :=
  ⟨1, some ⟨10, some ⟨7, some "operator"⟩, 7, 0, none, some ⟨"file", 3⟩, none⟩, none, Or.inr rfl⟩

/-- A server that holds this one note. -/
def noteService : Service where
  update id := if id = 1 then some noteUpdate else none
  updateId_eq id u h := by
    split at h
    · next hid => rw [← Option.some.inj h, hid]; rfl
    · cases h

/-- The note is fetched and transcribed. -/
def noteRun : List Op :=
  [.start 0, .poll 1 operatorAccess stillEnv .complete, .transcribe 0 (.ok "hello")]

end Daemon

open Daemon in
/-- The next cycle stores the transcript. -/
theorem voice_note_once_transcribed :
    (∀ t ∈ trace (Daemon.next .longer noteService) .fresh
        (noteRun ++ [.poll 1 operatorAccess stillEnv .complete]),
      ∀ n, t.after.IsNote n → t.after.OneMessage n) ∧
    ((run (Daemon.next .longer noteService) .fresh
        (noteRun ++ [.poll 1 operatorAccess stillEnv .complete])).messagesOf noteUpdate).map
          ChatMessage.content = ["hello"] := by
  have hapart : ∀ t ∈ trace (Daemon.next .longer noteService) .fresh
      (noteRun ++ [.poll 1 operatorAccess stillEnv .complete]), Apart noteService t.before 1 := by
    decide
  refine ⟨voice_note_once .longer noteService _ ?_ ?_, by decide⟩
  · rintro t ht ⟨-, upTo, access, env, k, hop, -⟩
    have hmem := op_mem_of_mem_trace ht
    rw [hop] at hmem
    simp [noteRun] at hmem
  · rintro t ht ⟨-, upTo, access, env, progress, hop, hnot⟩
    have hmem := op_mem_of_mem_trace ht
    rw [hop] at hmem
    have hupTo : upTo = 1 := by
      simp [noteRun] at hmem
      omega
    rw [hupTo] at hnot
    exact hnot (hapart t ht)

open Daemon in
/-- A crash between storing the transcript and unparking the note stores it a second time. -/
theorem voice_note_once_twice :
    let s := run (Daemon.next .longer noteService) .fresh (noteRun ++
      [.poll 1 operatorAccess stillEnv (.processed 0), .crash, .start 1,
        .transcribe 0 (.ok "hello"), .poll 1 operatorAccess stillEnv .complete])
    s.IsNote noteUpdate ∧ ¬ s.OneMessage noteUpdate ∧
      s.db.chatMessages.rows.map ChatMessage.content = ["hello", "hello"] := by
  refine ⟨⟨by decide, rfl⟩, fun h ↦ ?_, by decide⟩
  have honce := h.once
  revert honce
  decide

end Claudebase.Telegram
