import Claudebase.Telegram.Messages

/-!
# One poll cycle

`src/daemon/telegram.rs:2139–2201`. The invariant of the poll loop between its commits: an
update handed over is above the offset or settled, except those a cycle has moved past and
not processed yet. Parking a note settles it, processing a batch settles its texts and taps,
and a note is unparked only once its transcript is in the log.
-/

namespace Claudebase.Telegram
open Claudebase.Base

/-- A batch has something to do for an update: a tap or a text. -/
def Update.isWanted (u : Update) : Bool :=
  u.callbackQuery.isSome || u.message.any fun m ↦ m.text.isSome

theorem Service.mem_getUpdates {telegram : Service} {offset upTo : Int} {u : Update} :
    u ∈ telegram.getUpdates offset upTo ↔
      offset < u.updateId ∧ u.updateId ≤ upTo ∧ telegram.update u.updateId = some u := by
  unfold getUpdates
  rw [List.mem_filterMap]
  constructor
  · rintro ⟨n, hn, hu⟩
    rw [List.mem_range] at hn
    have hid : u.updateId = offset + 1 + n := telegram.updateId_eq _ u hu
    refine ⟨by omega, by omega, ?_⟩
    rw [hid]
    exact hu
  · rintro ⟨hlow, hhigh, hu⟩
    refine ⟨(u.updateId - offset - 1).toNat, ?_, ?_⟩
    · rw [List.mem_range]
      omega
    · have hid : offset + 1 + ((u.updateId - offset - 1).toNat : Int) = u.updateId := by omega
      rw [hid]
      exact hu

namespace Daemon

variable {uuids : Uuids} {telegram : Service}

/-! ### Settled updates -/

/-- An update went through a committed batch. -/
def Logged (s : Daemon) (u : Update) : Prop := ∃ t ∈ s.log, t.op = u

/-- A note is parked. -/
def Parked (s : Daemon) (u : Update) : Prop := ∃ r ∈ s.db.pendingVoice.rows, r.update = u

/-- A text or tap went through a committed batch; a note is parked, or its transcript went
through one. -/
structure Settled (s : Daemon) (u : Update) : Prop where
  wanted : u.isWanted = true → s.Logged u
  note : u.isUntranscribedVoice = true → s.Parked u ∨ ∃ text, s.Logged (u.transcribed text)

/-- A note handed over. -/
def IsNote (s : Daemon) (u : Update) : Prop := u ∈ s.handed ∧ u.isUntranscribedVoice = true

/-- The transcript of a note handed over. -/
def IsTranscript (s : Daemon) (u : Update) : Prop := ∃ n text, s.IsNote n ∧ u = n.transcribed text

theorem updateId_transcribed (u : Update) (text : String) :
    (u.transcribed text).updateId = u.updateId := rfl

theorem Settled.mono {s s' : Daemon} {u : Update} (h : s.Settled u)
    (hlog : ∀ t ∈ s.log, t ∈ s'.log) (hparked : s.Parked u → s'.Parked u) : s'.Settled u := by
  have hlogged : ∀ {v}, s.Logged v → s'.Logged v := by
    rintro v ⟨t, ht, rfl⟩
    exact ⟨t, hlog t ht, rfl⟩
  constructor
  · intro hw
    exact hlogged (h.wanted hw)
  · intro hn
    rcases h.note hn with hp | ⟨text, ht⟩
    · exact Or.inl (hparked hp)
    · exact Or.inr ⟨text, hlogged ht⟩

variable (telegram) in
/-- What holds between the commits of the poll loop. Only the updates in `pending` may be at
or below the offset without being settled. -/
structure Tracked (pending : List Update) (s : Daemon) : Prop where
  known : ∀ u ∈ s.handed, telegram.update u.updateId = some u
  served : ∀ u ∈ s.handed, u.updateId ≤ s.served
  nonneg : 0 ≤ s.db.lastUpdateId
  settled : ∀ u ∈ s.handed, u ∉ pending → s.db.lastUpdateId < u.updateId ∨ s.Settled u
  parked : ∀ r ∈ s.db.pendingVoice.rows, r.updateId = r.update.updateId ∧ s.IsNote r.update
  queued : ∀ u ∈ s.voiceQueue, s.IsNote u
  transcripts : ∀ u ∈ s.transcripts, s.IsTranscript u

theorem tracked_fresh : Tracked telegram [] fresh := by
  have hnone : ∀ {u : Update}, u ∉ fresh.handed := List.not_mem_nil
  constructor
  · exact fun u hu ↦ absurd hu hnone
  · exact fun u hu ↦ absurd hu hnone
  · exact le_refl 0
  · exact fun u hu ↦ absurd hu hnone
  · exact fun r hr ↦ absurd hr List.not_mem_nil
  · exact fun u hu ↦ absurd hu List.not_mem_nil
  · exact fun u hu ↦ absurd hu List.not_mem_nil

/-- More updates may be open. -/
theorem Tracked.weaken {pending pending' : List Update} {s : Daemon}
    (h : Tracked telegram pending s) (hsub : pending ⊆ pending') : Tracked telegram pending' s where
  known := h.known
  served := h.served
  nonneg := h.nonneg
  settled u hu hpending := h.settled u hu fun hmem ↦ hpending (hsub hmem)
  parked := h.parked
  queued := h.queued
  transcripts := h.transcripts

/-- Two notes of one id are one note. -/
theorem Tracked.eq_of_updateId {pending : List Update} {s : Daemon} (h : Tracked telegram pending s)
    {u v : Update} (hu : u ∈ s.handed) (hv : v ∈ s.handed) (heq : u.updateId = v.updateId) :
    u = v := by
  have hu' := h.known u hu
  rw [heq, h.known v hv] at hu'
  exact (Option.some.inj hu').symm

/-- Steps that touch neither the notes nor the offset. -/
theorem Tracked.of_frame {pending : List Update} {s s' : Daemon} (h : Tracked telegram pending s)
    (hhanded : s'.handed = s.handed) (hserved : s'.served = s.served)
    (hoffset : s'.db.lastUpdateId = s.db.lastUpdateId)
    (hparked : s'.db.pendingVoice = s.db.pendingVoice) (hlog : ∀ t ∈ s.log, t ∈ s'.log)
    (hqueue : ∀ u ∈ s'.voiceQueue, u ∈ s.voiceQueue)
    (htranscripts : ∀ u ∈ s'.transcripts, u ∈ s.transcripts) : Tracked telegram pending s' where
  known u hu := h.known u (hhanded ▸ hu)
  served u hu := by
    rw [hserved]
    exact h.served u (hhanded ▸ hu)
  nonneg := by
    rw [hoffset]
    exact h.nonneg
  settled u hu hpending := by
    rw [hoffset]
    refine (h.settled u (hhanded ▸ hu) hpending).imp_right fun hs ↦ hs.mono hlog ?_
    unfold Parked
    rw [hparked]
    exact id
  parked r hr := by
    unfold IsNote
    rw [hhanded]
    exact h.parked r (hparked ▸ hr)
  queued u hu := by
    unfold IsNote
    rw [hhanded]
    exact h.queued u (hqueue u hu)
  transcripts u hu := by
    unfold IsTranscript IsNote
    rw [hhanded]
    exact h.transcripts u (htranscripts u hu)

/-! ### The commits of a cycle -/

variable {env : Env} {access : Access}

/-- Parking a note parks it and unparks none. -/
theorem parked_park {s : Daemon} {u v : Update} (h : s.Parked v) :
    (s.commit uuids env access (.park u)).Parked v := by
  obtain ⟨r, hr, hv⟩ := h
  exact ⟨r, Table.mem_insertOrIgnore.mpr (Or.inl hr), hv⟩

theorem Tracked.parked_park_self {pending : List Update} {s : Daemon}
    (h : Tracked telegram pending s) {u : Update} (hu : s.IsNote u) :
    (s.commit uuids env access (.park u)).Parked u := by
  by_cases htaken : u.updateId ∈ s.db.pendingVoice.rows.map PendingVoice.updateId
  · obtain ⟨r, hr, hid⟩ := List.mem_map.mp htaken
    obtain ⟨hrid, hnote⟩ := h.parked r hr
    refine ⟨r, Table.mem_insertOrIgnore.mpr (Or.inl hr), ?_⟩
    exact h.eq_of_updateId hnote.1 hu.1 (hrid.symm.trans hid)
  · exact ⟨_, Table.mem_insertOrIgnore.mpr (Or.inr ⟨rfl, htaken⟩), rfl⟩

theorem Tracked.park {pending : List Update} {s : Daemon} (h : Tracked telegram pending s)
    {u : Update} (hu : s.IsNote u) :
    Tracked telegram pending (s.commit uuids env access (.park u)) where
  known := h.known
  served := h.served
  nonneg := h.nonneg
  settled v hv hpending :=
    (h.settled v hv hpending).imp_right fun hs ↦ hs.mono (fun _ ht ↦ ht) parked_park
  parked r hr := by
    rcases Table.mem_insertOrIgnore.mp hr with hr | ⟨rfl, -⟩
    · exact h.parked r hr
    · exact ⟨rfl, hu⟩
  queued := h.queued
  transcripts := h.transcripts

/-- Parking leaves the offset. -/
theorem lastUpdateId_parks (s : Daemon) (notes : List Update) :
    (run (commit uuids env access) s (notes.map .park)).db.lastUpdateId = s.db.lastUpdateId := by
  induction notes generalizing s with
  | nil => rfl
  | cons u us ih => exact ih (s.commit uuids env access (.park u))

/-- Parking some notes parks all of them. -/
theorem Tracked.parks {pending : List Update} {s : Daemon} (h : Tracked telegram pending s)
    {notes : List Update} (hnotes : ∀ u ∈ notes, s.IsNote u) :
    Tracked telegram pending (run (commit uuids env access) s (notes.map .park)) ∧
      ∀ v, (v ∈ notes ∨ s.Parked v) →
        (run (commit uuids env access) s (notes.map .park)).Parked v := by
  induction notes generalizing s with
  | nil => exact ⟨h, fun v hv ↦ hv.resolve_left List.not_mem_nil⟩
  | cons u us ih =>
    have hu : s.IsNote u := hnotes u List.mem_cons_self
    have hus : ∀ v ∈ us, (s.commit uuids env access (.park u)).IsNote v :=
      fun v hv ↦ hnotes v (List.mem_cons_of_mem _ hv)
    obtain ⟨htracked, hparked⟩ := ih (h.park hu) hus
    refine ⟨htracked, fun v hv ↦ hparked v ?_⟩
    rcases hv with hv | hv
    · rcases List.mem_cons.mp hv with rfl | hv
      · exact Or.inr (h.parked_park_self hu)
      · exact Or.inl hv
    · exact Or.inr (parked_park hv)

/-- Commits change the tables and the log, not the memory. -/
structure SameMemory (s s' : Daemon) : Prop where
  running : s'.running = s.running
  handed : s'.handed = s.handed
  voiceQueue : s'.voiceQueue = s.voiceQueue
  transcripts : s'.transcripts = s.transcripts
  served : s'.served = s.served

theorem sameMemory_commit (s : Daemon) (c : Commit) :
    SameMemory s (s.commit uuids env access c) := by
  cases c with
  | park u => exact ⟨rfl, rfl, rfl, rfl, rfl⟩
  | advance maxId => exact ⟨rfl, rfl, rfl, rfl, rfl⟩
  | process batch => exact ⟨rfl, rfl, rfl, rfl, rfl⟩
  | unpark updateId => exact ⟨rfl, rfl, rfl, rfl, rfl⟩
  | collect => exact ⟨rfl, rfl, rfl, rfl, rfl⟩

theorem sameMemory_run (s : Daemon) (commits : List Commit) :
    SameMemory s (run (commit uuids env access) s commits) := by
  refine rel_run (fun s ↦ ⟨rfl, rfl, rfl, rfl, rfl⟩) (fun a b c hab hbc ↦ ?_) sameMemory_commit s
    commits
  exact ⟨hbc.running.trans hab.running, hbc.handed.trans hab.handed,
    hbc.voiceQueue.trans hab.voiceQueue, hbc.transcripts.trans hab.transcripts,
    hbc.served.trans hab.served⟩

/-- The offset moves past what was fetched: its notes are parked, its texts and taps are
still to be processed. -/
theorem Tracked.advance (uuids : Uuids) (env : Env) (access : Access) {pending : List Update}
    {s : Daemon} (h : Tracked telegram pending s) (fetched transcripts : List Update)
    (habove : ∀ u ∈ fetched, s.db.lastUpdateId < u.updateId)
    (hnew : ∀ u ∈ s.handed, s.db.lastUpdateId < u.updateId → u ∈ fetched)
    (hparked : ∀ u ∈ (Cycle.of fetched transcripts).toPark, s.Parked u) :
    Tracked telegram (pending ++ fetched.filter Update.isWanted)
        (run (commit uuids env access) s (Cycle.of fetched transcripts).advance) ∧
      ∀ u ∈ s.handed, u.updateId ≤
        (run (commit uuids env access) s (Cycle.of fetched transcripts).advance).db.lastUpdateId := by
  have hmax : ∀ u ∈ fetched, u.updateId ≤ (Cycle.of fetched transcripts).fetchedMaxId :=
    fun u hu ↦ le_foldl_max (Or.inr ⟨_, List.mem_map_of_mem hu, le_refl _⟩)
  have hsettled : ∀ u ∈ fetched, u ∉ fetched.filter Update.isWanted → s.Settled u := by
    intro u hu hpending
    constructor
    · intro hw
      exact absurd (List.mem_filter.mpr ⟨hu, hw⟩) hpending
    · intro hn
      exact Or.inl (hparked u (List.mem_filter.mpr ⟨hu, hn⟩))
  have hbelow : ∀ u ∈ s.handed, u ∉ pending → u.updateId ≤ s.db.lastUpdateId → s.Settled u :=
    fun u hu hpending hle ↦ (h.settled u hu hpending).resolve_left (not_lt.mpr hle)
  unfold Cycle.advance
  split
  · next hpos =>
    have hge : s.db.lastUpdateId ≤ (Cycle.of fetched transcripts).fetchedMaxId := by
      cases hf : fetched with
      | nil =>
        rw [hf] at hpos
        exact absurd hpos (lt_irrefl 0)
      | cons u us =>
        rw [← hf]
        have hu : u ∈ fetched := hf ▸ List.mem_cons_self
        exact (le_of_lt (habove u hu)).trans (hmax u hu)
    constructor
    · refine ⟨h.known, h.served, h.nonneg.trans hge, fun u hu hpending ↦ Or.inr ?_, h.parked,
        h.queued, h.transcripts⟩
      rw [List.mem_append, not_or] at hpending
      have hs : s.Settled u := by
        by_cases hlt : s.db.lastUpdateId < u.updateId
        · exact hsettled u (hnew u hu hlt) hpending.2
        · exact hbelow u hu hpending.1 (not_lt.mp hlt)
      exact hs.mono (fun _ ht ↦ ht) id
    · intro u hu
      by_cases hlt : s.db.lastUpdateId < u.updateId
      · exact hmax u (hnew u hu hlt)
      · exact (not_lt.mp hlt).trans hge
  · next hpos =>
    have hall : ∀ u ∈ s.handed, u.updateId ≤ s.db.lastUpdateId := by
      intro u hu
      by_contra hlt
      have hf := hnew u hu (not_le.mp hlt)
      have h0 := h.nonneg
      have h1 := habove u hf
      have h2 := hmax u hf
      omega
    refine ⟨⟨h.known, h.served, h.nonneg, fun u hu hpending ↦ Or.inr ?_, h.parked, h.queued,
      h.transcripts⟩, hall⟩
    rw [List.mem_append, not_or] at hpending
    exact hbelow u hu hpending.1 (hall u hu)

/-- The greatest id of a batch. -/
theorem maxId_updates_le {db : Db} {batch : List Update} {bound : Int} (h0 : 0 ≤ bound)
    (hids : ∀ u ∈ batch, u.updateId ≤ bound) :
    (Batch.updates uuids env db access batch).maxId ≤ bound := by
  refine invariant_of_run (I := fun b : Batch ↦ b.maxId ≤ bound)
    (s := .start db (pruneExpired access env.now).2 (pruneExpired access env.now).1) h0 ?_
  intro t ht hbefore
  rw [after_of_mem_trace ht]
  exact max_le hbefore (hids t.op (op_mem_of_mem_trace ht))

/-- A batch at or below the offset leaves it there, and the parked notes too. -/
theorem process_frame (uuids : Uuids) (env : Env) (access : Access) {db : Db}
    {batch : List Update} (h0 : 0 ≤ db.lastUpdateId)
    (hids : ∀ u ∈ batch, u.updateId ≤ db.lastUpdateId) :
    (Batch.process uuids env db access batch).db.pendingVoice = db.pendingVoice ∧
      (Batch.process uuids env db access batch).db.lastUpdateId = db.lastUpdateId := by
  unfold Batch.process
  split
  · exact ⟨rfl, rfl⟩
  · obtain ⟨new, -, happ⟩ := Batch.extends_updates uuids env db access batch
    obtain ⟨-, hvoice, hoffset⟩ :=
      Batch.advanceOffset_db (Batch.updates uuids env db access batch)
    rw [hvoice, hoffset, happ.pendingVoice, happ.lastUpdateId]
    exact ⟨rfl, max_eq_left (maxId_updates_le h0 hids)⟩

/-- A text or a tap is no note without a text. -/
theorem isUntranscribedVoice_of_isWanted {u : Update} (h : u.isWanted = true) :
    u.isUntranscribedVoice = false := by
  unfold Update.isWanted at h
  unfold Update.isUntranscribedVoice
  cases hm : u.message with
  | none => rfl
  | some m =>
    have hcb : u.callbackQuery = none := u.exclusive.resolve_left (by simp [hm])
    have htext : m.text.isSome = true := by simpa [hm, hcb] using h
    obtain ⟨text, ht⟩ := Option.isSome_iff_exists.mp htext
    simp [ht]

/-- Processing settles the batch. -/
theorem Tracked.process (uuids : Uuids) (env : Env) (access : Access)
    {pending opened batch : List Update} {s : Daemon} (h : Tracked telegram (pending ++ opened) s)
    (hopened : ∀ u ∈ opened, u ∈ batch ∧ u.isWanted = true)
    (hids : ∀ u ∈ batch, u.updateId ≤ s.db.lastUpdateId) :
    Tracked telegram pending (s.commit uuids env access (.process batch)) ∧
      ∀ u ∈ batch, (s.commit uuids env access (.process batch)).Logged u := by
  obtain ⟨hvoice, hoffset⟩ := process_frame uuids env access h.nonneg hids
  have hlog : ∀ t ∈ s.log, t ∈ (s.commit uuids env access (.process batch)).log :=
    fun t ht ↦ List.mem_append_left _ ht
  have hlogged : ∀ u ∈ batch, (s.commit uuids env access (.process batch)).Logged u := by
    intro u hu
    obtain ⟨t, ht, hop⟩ := exists_step hu
    exact ⟨t, List.mem_append_right _ ht, hop⟩
  have hframe : Tracked telegram (pending ++ opened) (s.commit uuids env access (.process batch)) :=
    h.of_frame rfl rfl hoffset hvoice hlog (fun _ hu ↦ hu) (fun _ hu ↦ hu)
  refine ⟨⟨hframe.known, hframe.served, hframe.nonneg, fun u hu hpending ↦ ?_, hframe.parked,
    hframe.queued, hframe.transcripts⟩, hlogged⟩
  by_cases hp : u ∈ opened
  · obtain ⟨hbatch, hw⟩ := hopened u hp
    refine Or.inr ⟨fun _ ↦ hlogged u hbatch, fun hn ↦ ?_⟩
    rw [isUntranscribedVoice_of_isWanted hw] at hn
    cases hn
  · apply hframe.settled u hu
    rw [List.mem_append]
    exact fun hmem ↦ hmem.elim hpending hp

/-- Unparking a note whose transcript is in the log. -/
theorem Tracked.unpark {pending : List Update} {s : Daemon} (h : Tracked telegram pending s)
    {n : Update} {text : String}
    (hn : s.IsNote n) (hlogged : s.Logged (n.transcribed text)) :
    Tracked telegram pending (s.commit uuids env access (.unpark n.updateId)) where
  known := h.known
  served := h.served
  nonneg := h.nonneg
  settled u hu hpending := by
    refine (h.settled u hu hpending).imp_right fun hs ↦ ⟨hs.wanted, fun hnote ↦ ?_⟩
    rcases hs.note hnote with ⟨r, hr, hru⟩ | htext
    · by_cases hid : u.updateId = n.updateId
      · obtain rfl : u = n := h.eq_of_updateId hu hn.1 hid
        exact Or.inr ⟨text, hlogged⟩
      · have hrid : r.updateId ≠ n.updateId := by
          rw [(h.parked r hr).1, hru]
          exact hid
        exact Or.inl ⟨r, Table.mem_delete.mpr ⟨hr, by simpa using hrid⟩, hru⟩
    · exact Or.inr htext
  parked r hr := h.parked r (Table.mem_delete.mp hr).1
  queued := h.queued
  transcripts := h.transcripts

/-- Unparking the notes of some transcripts. -/
theorem Tracked.unparks {pending : List Update} {s : Daemon} (h : Tracked telegram pending s)
    {ids : List Int}
    (hids : ∀ id ∈ ids, ∃ n text, s.IsNote n ∧ n.updateId = id ∧ s.Logged (n.transcribed text)) :
    Tracked telegram pending (run (commit uuids env access) s (ids.map .unpark)) := by
  induction ids generalizing s with
  | nil => exact h
  | cons id ids ih =>
    obtain ⟨n, text, hn, rfl, hlogged⟩ := hids id List.mem_cons_self
    exact ih (h.unpark hn hlogged) fun id hid ↦ hids id (List.mem_cons_of_mem _ hid)

/-- Collecting expired questions touches none of it. -/
theorem Tracked.collect (uuids : Uuids) (env : Env) (access : Access) {pending : List Update}
    {s : Daemon} (h : Tracked telegram pending s) :
    Tracked telegram pending (s.commit uuids env access .collect) where
  known := h.known
  served := h.served
  nonneg := h.nonneg
  settled u hu hpending :=
    (h.settled u hu hpending).imp_right fun hs ↦ hs.mono (fun _ ht ↦ ht) id
  parked := h.parked
  queued := h.queued
  transcripts := h.transcripts

/-! ### Cycles -/

/-- The answer has come in: what it brings is above the offset. -/
theorem Tracked.receive {pending : List Update} {s : Daemon} (h : Tracked telegram pending s)
    (upTo : Int) :
    Tracked telegram pending (s.receive telegram upTo) := by
  have hfetched : ∀ u ∈ s.fetched telegram upTo, s.db.lastUpdateId < u.updateId ∧
      u.updateId ≤ max s.served upTo ∧ telegram.update u.updateId = some u :=
    fun u hu ↦ Service.mem_getUpdates.mp hu
  have hnote : ∀ {u}, s.IsNote u → (s.receive telegram upTo).IsNote u :=
    fun hu ↦ ⟨List.mem_append_left _ hu.1, hu.2⟩
  constructor
  · intro u hu
    exact (List.mem_append.mp hu).elim (h.known u) fun hu ↦ (hfetched u hu).2.2
  · intro u hu
    exact (List.mem_append.mp hu).elim (fun hu ↦ (h.served u hu).trans (le_max_left _ _))
      fun hu ↦ (hfetched u hu).2.1
  · exact h.nonneg
  · intro u hu hpending
    exact (List.mem_append.mp hu).elim
      (fun hu ↦ (h.settled u hu hpending).imp_right fun hs ↦ hs.mono (fun _ ht ↦ ht) id)
      fun hu ↦ Or.inl (hfetched u hu).1
  · intro r hr
    exact ⟨(h.parked r hr).1, hnote (h.parked r hr).2⟩
  · intro u hu
    rcases List.mem_append.mp hu with hu | hu
    · exact hnote (h.queued u hu)
    · obtain ⟨hu, hvoice⟩ := List.mem_filter.mp hu
      exact ⟨List.mem_append_right _ hu, hvoice⟩
  · exact fun u hu ↦ absurd hu List.not_mem_nil

/-- What counts as a note or a transcript does not change between commits. -/
theorem SameMemory.isNote {s s' : Daemon} (h : SameMemory s s') {u : Update} (hu : s.IsNote u) :
    s'.IsNote u := by
  unfold IsNote
  rw [h.handed]
  exact hu

/-- A cycle up to the offset: only its texts and taps are open. -/
theorem Tracked.upToOffset {pending : List Update} {s s' : Daemon} (uuids : Uuids) (env : Env)
    (access : Access) (h : Tracked telegram pending s) (upTo : Int)
    (hs' : s' = run (commit uuids env access) (s.receive telegram upTo)
      ((s.cycleOf telegram upTo).commits .advanced)) :
    Tracked telegram (pending ++ (s.fetched telegram upTo).filter Update.isWanted) s' ∧
      ∀ u ∈ s'.handed, u.updateId ≤ s'.db.lastUpdateId := by
  have h0 : Tracked telegram pending (s.receive telegram upTo) := h.receive upTo
  have hnotes : ∀ u ∈ (s.cycleOf telegram upTo).toPark, (s.receive telegram upTo).IsNote u := by
    intro u hu
    obtain ⟨hu, hvoice⟩ := List.mem_filter.mp hu
    exact ⟨List.mem_append_right _ hu, hvoice⟩
  unfold Cycle.commits at hs'
  rw [run_append] at hs'
  generalize hs₁ : run (commit uuids env access) (s.receive telegram upTo)
    ((s.cycleOf telegram upTo).toPark.map .park) = s₁ at hs'
  have hparks : Tracked telegram pending s₁ := hs₁ ▸ (h0.parks hnotes).1
  have hparked : ∀ u ∈ (s.cycleOf telegram upTo).toPark, s₁.Parked u :=
    fun u hu ↦ hs₁ ▸ (h0.parks hnotes).2 u (Or.inl hu)
  have hoffset : s₁.db.lastUpdateId = s.db.lastUpdateId := hs₁ ▸ lastUpdateId_parks _ _
  have hmemory : SameMemory (s.receive telegram upTo) s₁ := hs₁ ▸ sameMemory_run _ _
  have habove : ∀ u ∈ s.fetched telegram upTo, s₁.db.lastUpdateId < u.updateId := by
    intro u hu
    rw [hoffset]
    exact (Service.mem_getUpdates.mp hu).1
  have hnew : ∀ u ∈ s₁.handed, s₁.db.lastUpdateId < u.updateId → u ∈ s.fetched telegram upTo := by
    intro u hu hlt
    rw [hmemory.handed] at hu
    rw [hoffset] at hlt
    exact Service.mem_getUpdates.mpr ⟨hlt, h0.served u hu, h0.known u hu⟩
  obtain ⟨htracked, hall⟩ := hparks.advance uuids env access _ s.transcripts habove hnew hparked
  have hmemory' : SameMemory s₁ s' := hs' ▸ sameMemory_run _ _
  rw [hmemory'.handed, hs']
  exact ⟨htracked, hall⟩

/-- A cycle up to the commit of its batch: nothing is open, and its transcripts are in the
log. -/
theorem Tracked.upToBatch {pending : List Update} {s s' : Daemon} (uuids : Uuids) (env : Env)
    (access : Access) (h : Tracked telegram pending s) (upTo : Int)
    (hs' : s' = run (commit uuids env access) (s.receive telegram upTo)
      ((s.cycleOf telegram upTo).commits .advanced ++
        [.process (s.cycleOf telegram upTo).batch])) :
    Tracked telegram pending s' ∧ ∀ id ∈ (s.cycleOf telegram upTo).settled,
      ∃ n text, s'.IsNote n ∧ n.updateId = id ∧ s'.Logged (n.transcribed text) := by
  rw [run_append] at hs'
  generalize hs₁ : run (commit uuids env access) (s.receive telegram upTo)
    ((s.cycleOf telegram upTo).commits .advanced) = s₁ at hs'
  obtain ⟨hopen, hall⟩ := h.upToOffset uuids env access upTo hs₁.symm
  have hmemory : SameMemory (s.receive telegram upTo) s₁ := hs₁ ▸ sameMemory_run _ _
  have hmemory' : SameMemory s₁ s' := hs' ▸ sameMemory_run _ _
  have hfetched : ∀ u ∈ s.fetched telegram upTo, u ∈ s₁.handed := by
    intro u hu
    rw [hmemory.handed]
    exact List.mem_append_right _ hu
  have htranscript : ∀ d ∈ s.transcripts, s₁.IsTranscript d := by
    intro d hd
    obtain ⟨n, text, hn, rfl⟩ := h.transcripts d hd
    exact ⟨n, text, hmemory.isNote ⟨List.mem_append_left _ hn.1, hn.2⟩, rfl⟩
  have hids : ∀ u ∈ (s.cycleOf telegram upTo).batch, u.updateId ≤ s₁.db.lastUpdateId := by
    intro u hu
    rcases List.mem_append.mp hu with hu | hu
    · exact hall u (hfetched u (List.mem_filter.mp hu).1)
    · obtain ⟨n, text, hn, rfl⟩ := htranscript u hu
      exact hall n hn.1
  have hopened : ∀ u ∈ (s.fetched telegram upTo).filter Update.isWanted,
      u ∈ (s.cycleOf telegram upTo).batch ∧ u.isWanted = true := by
    intro u hu
    obtain ⟨hu, hw⟩ := List.mem_filter.mp hu
    refine ⟨List.mem_append_left _ (List.mem_filter.mpr ⟨hu, ?_⟩), hw⟩
    rw [isUntranscribedVoice_of_isWanted hw]
    rfl
  obtain ⟨htracked, hlogged⟩ := hopen.process uuids env access hopened hids
  have hprocessed : s' = s₁.commit uuids env access (.process (s.cycleOf telegram upTo).batch) := hs'
  rw [← hprocessed] at htracked hlogged
  refine ⟨htracked, fun id hid ↦ ?_⟩
  obtain ⟨d, hd, rfl⟩ := List.mem_map.mp hid
  obtain ⟨n, text, hn, rfl⟩ := htranscript d hd
  exact ⟨n, text, hmemory'.isNote hn, rfl, hlogged _ (List.mem_append_right _ hd)⟩

/-- What a cycle leaves open: one that ends after its offset has moved and before its batch is
committed, the texts and taps of its answer. -/
def leftOpen (telegram : Service) (s : Daemon) (upTo : Int) : Progress → List Update
  | .advanced => (s.fetched telegram upTo).filter Update.isWanted
  | .parked _ | .processed _ | .complete => []

/-- A cycle keeps track of every update but those it leaves open. -/
theorem Tracked.pollCycle {pending : List Update} {s : Daemon} (h : Tracked telegram pending s)
    (upTo : Int) (access : Access) (env : Env) (progress : Progress) :
    Tracked telegram (pending ++ leftOpen telegram s upTo progress)
      (s.pollCycle uuids telegram upTo access env progress) := by
  have h0 : Tracked telegram pending (s.receive telegram upTo) := h.receive upTo
  unfold Daemon.pollCycle
  split
  · exact h0.weaken (List.subset_append_left _ _)
  · cases progress with
    | parked n =>
      rw [leftOpen, List.append_nil]
      refine (h0.parks fun u hu ↦ ?_).1
      obtain ⟨hu, hvoice⟩ := List.mem_filter.mp (List.mem_of_mem_take hu)
      exact ⟨List.mem_append_right _ hu, hvoice⟩
    | advanced => exact (h.upToOffset uuids env access upTo rfl).1
    | processed n =>
      rw [leftOpen, List.append_nil]
      unfold Cycle.commits
      rw [run_append]
      obtain ⟨hbatch, hsettled⟩ := h.upToBatch uuids env access upTo rfl
      exact hbatch.unparks fun id hid ↦ hsettled id (List.mem_of_mem_take hid)
    | complete =>
      rw [leftOpen, List.append_nil]
      unfold Cycle.commits
      rw [run_append, run_append]
      obtain ⟨hbatch, hsettled⟩ := h.upToBatch uuids env access upTo rfl
      exact (hbatch.unparks hsettled).collect uuids env access

end Daemon

end Claudebase.Telegram
