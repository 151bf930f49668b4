import Claudebase.Telegram.Cycle

/-!
# What the poll loop keeps

`src/daemon/telegram.rs:2139–2201`. An update handed over is above the offset, so the server
will hand it over again, or it is handled: a tap applied, a text stored, a note parked or
stored. Parking, moving the offset and processing are separate commits, though; a cycle that
ends between the second and the third has moved past updates nobody processed.
-/

namespace Claudebase.Telegram
open Claudebase.Base

namespace Daemon

/-! ### Handled updates -/

/-- A message stored at a step of a batch is in the table. -/
def Stored (s : Daemon) (t : Step Batch Update) (m : Message) (content : String) : Prop :=
  ∃ row, Batch.RowOf m content row ∧
    t.after.db.chatMessages.rows = t.before.db.chatMessages.rows ++ [row] ∧
    ∃ row' ∈ s.db.chatMessages.rows, SameMessage row row'

/-- An update has been dealt with: it went through a committed batch, where a sender the
gate admits had a tap applied or a text stored; a note may still be parked. -/
structure Handled (s : Daemon) (u : Update) : Prop where
  tap : ∀ cb, u.callbackQuery = some cb → ∃ t ∈ s.log, t.op = u ∧
    (t.before.access.Admits (toString cb.sender.id) → Batch.Applied cb t.before t.after)
  text : ∀ m text, u.message = some m → m.text = some text → ∃ t ∈ s.log, t.op = u ∧
    (t.before.access.Admits (toString m.userId) → s.Stored t m text)
  note : ∀ m, u.message = some m → m.text = none → m.voice.isSome = true →
    (∃ r ∈ s.db.pendingVoice.rows, r.update = u) ∨
    ∃ t ∈ s.log, ∃ text, t.op = u.transcribed text ∧
      (t.before.access.Admits (toString m.userId) → s.Stored t { m with text := some text } text)

/-- No update handed over is lost. -/
def NoLoss (s : Daemon) : Prop :=
  ∀ u ∈ s.handed, s.db.lastUpdateId < u.updateId ∨ s.Handled u

variable (uuids : Uuids) (telegram : Service)

/-- A cycle ends, by an error or a crash, after the offset has moved and before the batch is
committed, and the batch held a text or a tap fetched in it. -/
def Torn (t : Step Daemon Op) : Prop :=
  t.before.running = true ∧ ∃ upTo access env, t.op = .poll upTo access env .advanced ∧
    ∃ u ∈ t.before.fetched telegram upTo, u.isWanted = true

/-! ### The log -/

/-- A step of a committed batch, whose messages are in the table. -/
structure Genuine (s : Daemon) (t : Step Batch Update) : Prop where
  step : ∃ env, t.after = Batch.processUpdate uuids env t.before t.op
  grows : Grows t.after.db s.db

variable {uuids telegram}

theorem Genuine.mono {s s' : Daemon} {t : Step Batch Update} (h : Genuine uuids s t)
    (hdb : Grows s.db s'.db) : Genuine uuids s' t :=
  ⟨h.step, grows_trans _ _ _ h.grows hdb⟩

/-- The steps of a batch lead to what it commits. -/
theorem genuine_of_mem_trace {env : Env} {access : Access} {s : Daemon} {batch : List Update}
    {t : Step Batch Update} (h : t ∈ trace (Batch.processUpdate uuids env)
      (.start s.db (pruneExpired access env.now).2 (pruneExpired access env.now).1) batch) :
    Genuine uuids (s.commit uuids env access (.process batch)) t := by
  refine ⟨⟨env, after_of_mem_trace h⟩, ?_⟩
  have hne : batch.isEmpty = false := by
    cases batch with
    | nil => cases h
    | cons u us => rfl
  have hext := rel_of_mem_trace Batch.extends_refl Batch.extends_trans
    (Batch.extends_processUpdate uuids env) h
  have hdb : (s.commit uuids env access (.process batch)).db =
      (Batch.updates uuids env s.db access batch).advanceOffset.db := by
    simp [commit, Batch.process, hne]
  rw [hdb]
  exact grows_trans _ _ _ (grows_of_extends hext) (.of_eq (Batch.advanceOffset_db _).1)

/-- What is in the log stays genuine. -/
theorem genuine_commit {env : Env} {access : Access} {s : Daemon}
    (h : ∀ t ∈ s.log, Genuine uuids s t) (c : Commit) :
    ∀ t ∈ (s.commit uuids env access c).log, Genuine uuids (s.commit uuids env access c) t := by
  have hold : ∀ t ∈ s.log, Genuine uuids (s.commit uuids env access c) t :=
    fun t ht ↦ (h t ht).mono (grows_commit uuids env access s c)
  cases c with
  | park u => exact hold
  | advance maxId => exact hold
  | process batch =>
    intro t ht
    rcases List.mem_append.mp ht with ht | ht
    · exact hold t ht
    · exact genuine_of_mem_trace ht
  | unpark updateId => exact hold
  | collect => exact hold

/-- Only a poll cycle writes the log. -/
theorem log_next (uuids : Uuids) (telegram : Service) (s : Daemon) (op : Op) :
    (next uuids telegram s op).log = s.log ∨
    ∃ upTo access env progress,
      next uuids telegram s op = s.pollCycle uuids telegram upTo access env progress := by
  unfold next
  split
  · exact Or.inr ⟨_, _, _, _, rfl⟩
  · left
    unfold transcribe
    split
    · rfl
    · rfl
  · left
    unfold handleChatPost
    dsimp only
    split
    · rfl
    · split
      · rfl
      · rfl
  · left
    unfold sendNext
    split
    · rfl
    · split
      · rfl
      · rfl
  · exact Or.inl rfl
  · exact Or.inl rfl
  · exact Or.inl rfl
  · exact Or.inl rfl
  · exact Or.inl rfl

/-- The log only grows. -/
theorem log_prefix (uuids : Uuids) (telegram : Service) (s : Daemon) (op : Op) :
    s.log <+: (next uuids telegram s op).log := by
  rcases log_next uuids telegram s op with hlog | ⟨upTo, access, env, progress, hpoll⟩
  · rw [hlog]
  · rw [hpoll]
    unfold pollCycle
    split
    · exact List.prefix_refl s.log
    · have hcommit : ∀ (s : Daemon) (c : Commit), s.log <+: (s.commit uuids env access c).log := by
        intro s c
        cases c with
        | process batch => exact List.prefix_append s.log _
        | park u => exact List.prefix_refl s.log
        | advance maxId => exact List.prefix_refl s.log
        | unpark updateId => exact List.prefix_refl s.log
        | collect => exact List.prefix_refl s.log
      exact rel_run (R := fun s s' : Daemon ↦ s.log <+: s'.log) (fun s ↦ List.prefix_refl s.log)
        (fun _ _ _ h h' ↦ h.trans h') hcommit (s.receive telegram upTo) _

theorem genuine_pollCycle {s : Daemon} (h : ∀ t ∈ s.log, Genuine uuids s t) (upTo : Int)
    (access : Access) (env : Env) (progress : Progress) :
    ∀ t ∈ (s.pollCycle uuids telegram upTo access env progress).log,
      Genuine uuids (s.pollCycle uuids telegram upTo access env progress) t := by
  have hreceived : ∀ t ∈ s.log, Genuine uuids (s.receive telegram upTo) t :=
    fun t ht ↦ (h t ht).mono (.of_eq rfl)
  unfold pollCycle
  split
  · exact hreceived
  · refine invariant_of_run (I := fun s ↦ ∀ t ∈ s.log, Genuine uuids s t)
      (s := s.receive telegram upTo) hreceived ?_
    intro c hc hbefore
    rw [after_of_mem_trace hc]
    exact genuine_commit hbefore c.op

/-- The log of every run is genuine. -/
theorem genuine_next {s : Daemon} (h : ∀ t ∈ s.log, Genuine uuids s t) (op : Op) :
    ∀ t ∈ (next uuids telegram s op).log, Genuine uuids (next uuids telegram s op) t := by
  rcases log_next uuids telegram s op with hlog | ⟨upTo, access, env, progress, hpoll⟩
  · intro t ht
    rw [hlog] at ht
    exact (h t ht).mono (grows_next uuids telegram s op)
  · rw [hpoll]
    exact genuine_pollCycle h upTo access env progress

/-! ### Runs -/

/-- Steps that leave the updates alone: history, notes and offset, in memory and on disk. -/
structure Quiet (s s' : Daemon) : Prop where
  running : s'.running = s.running
  handed : s'.handed = s.handed
  served : s'.served = s.served
  log : s'.log = s.log
  offset : s'.db.lastUpdateId = s.db.lastUpdateId
  parked : s'.db.pendingVoice = s.db.pendingVoice
  voiceQueue : s'.voiceQueue = s.voiceQueue
  transcripts : s'.transcripts = s.transcripts

theorem Quiet.refl (s : Daemon) : Quiet s s := ⟨rfl, rfl, rfl, rfl, rfl, rfl, rfl, rfl⟩

theorem Tracked.of_quiet {pending : List Update} {s s' : Daemon} (h : Tracked telegram pending s)
    (hq : Quiet s s') : Tracked telegram pending s' := by
  apply h.of_frame hq.handed hq.served hq.offset hq.parked
  · exact fun t ht ↦ hq.log ▸ ht
  · exact fun u hu ↦ hq.voiceQueue ▸ hu
  · exact fun u hu ↦ hq.transcripts ▸ hu

theorem quiet_handleChatPost (s : Daemon) (tool : Tool) (args : Json) (seed : Nat) (now : Int) :
    Quiet s (s.handleChatPost uuids tool args seed now) := by
  unfold handleChatPost
  dsimp only
  split
  · exact .refl s
  · split
    · exact ⟨rfl, rfl, rfl, rfl, rfl, rfl, rfl, rfl⟩
    · exact ⟨rfl, rfl, rfl, rfl, rfl, rfl, rfl, rfl⟩

theorem quiet_sendNext (s : Daemon) (now : Int) (ok : Bool) : Quiet s (s.sendNext now ok) := by
  unfold sendNext
  split
  · exact .refl s
  · split
    · exact ⟨rfl, rfl, rfl, rfl, rfl, rfl, rfl, rfl⟩
    · exact ⟨rfl, rfl, rfl, rfl, rfl, rfl, rfl, rfl⟩

/-- Handing a backlog out leaves the notes and the offset. -/
theorem drainBacklog_frame (db : Db) (threadId : String) (now : Int) :
    (db.drainBacklog threadId now).2.pendingVoice = db.pendingVoice ∧
      (db.drainBacklog threadId now).2.lastUpdateId = db.lastUpdateId := by
  have hstep : ∀ (db : Db) (m : ChatMessage), (db.markDelivered m.id now).pendingVoice =
      db.pendingVoice ∧ (db.markDelivered m.id now).lastUpdateId = db.lastUpdateId :=
    fun _ _ ↦ ⟨rfl, rfl⟩
  exact rel_run (R := fun db db' : Db ↦ db'.pendingVoice = db.pendingVoice ∧
      db'.lastUpdateId = db.lastUpdateId) (fun _ ↦ ⟨rfl, rfl⟩)
    (fun _ _ _ h h' ↦ ⟨h'.1.trans h.1, h'.2.trans h.2⟩) hstep db _

theorem quiet_drainBacklog (s : Daemon) (threadId : String) (now : Int) :
    Quiet s { s with db := (s.db.drainBacklog threadId now).2 } := by
  obtain ⟨hparked, hoffset⟩ := drainBacklog_frame s.db threadId now
  exact ⟨rfl, rfl, rfl, rfl, hoffset, hparked, rfl, rfl⟩

theorem Tracked.transcribe {pending : List Update} {s : Daemon} (h : Tracked telegram pending s)
    (i : Nat) (outcome : Except String String) :
    Tracked telegram pending (s.transcribe i outcome) := by
  unfold Daemon.transcribe
  split
  · exact h
  · next u hu =>
    have hnote : s.IsNote u := h.queued u (List.mem_of_getElem? hu)
    constructor
    · exact h.known
    · exact h.served
    · exact h.nonneg
    · intro v hv hpending
      refine (h.settled v hv hpending).imp_right fun hs ↦ hs.mono (fun _ ht ↦ ht) ?_
      rintro ⟨r, hr, rfl⟩
      exact ⟨_, Db.mem_bumpPendingVoiceAttempts.mpr ⟨r, hr, rfl⟩, rfl⟩
    · intro r' hr'
      obtain ⟨r, hr, rfl⟩ := Db.mem_bumpPendingVoiceAttempts.mp hr'
      exact h.parked r hr
    · exact fun v hv ↦ h.queued v (List.mem_of_mem_eraseIdx hv)
    · intro d hd
      rcases List.mem_append.mp hd with hd | hd
      · exact h.transcripts d hd
      · obtain rfl := List.mem_singleton.mp hd
        exact ⟨u, _, hnote, rfl⟩

/-- What a step leaves open. -/
def opened (telegram : Service) (s : Daemon) : Op → List Update
  | .poll upTo _ _ progress => if s.running then leftOpen telegram s upTo progress else []
  | _ => []

/-- Only texts and taps are left open. -/
theorem isWanted_of_mem_opened {s : Daemon} {op : Op} {u : Update}
    (h : u ∈ opened telegram s op) : u.isWanted = true := by
  unfold opened at h
  split at h
  · split at h
    · unfold leftOpen at h
      split at h
      · exact (List.mem_filter.mp h).2
      · cases h
      · cases h
      · cases h
    · cases h
  · cases h

/-- A step that is not torn leaves nothing open. -/
theorem opened_of_not_torn {s s' : Daemon} {op : Op} (h : ¬ Torn telegram ⟨s, op, s'⟩) :
    opened telegram s op = [] := by
  unfold opened
  split
  · next upTo access env progress =>
    split
    · next hrunning =>
      cases progress with
      | advanced =>
        rw [leftOpen, List.filter_eq_nil_iff]
        intro u hu hw
        exact h ⟨hrunning, upTo, access, env, rfl, u, hu, hw⟩
      | parked n => rfl
      | processed n => rfl
      | complete => rfl
    · rfl
  · rfl

/-- Every step keeps track of the updates but those it leaves open. -/
theorem tracked_next {pending : List Update} {s : Daemon} (h : Tracked telegram pending s)
    (op : Op) : Tracked telegram (pending ++ opened telegram s op) (next uuids telegram s op) := by
  have hframe : ∀ {s' : Daemon}, Tracked telegram pending s' →
      Tracked telegram (pending ++ opened telegram s op) s' :=
    fun h' ↦ h'.weaken (List.subset_append_left _ _)
  unfold next
  split
  · next upTo access env progress hrunning =>
    rw [opened, if_pos hrunning]
    exact h.pollCycle upTo access env progress
  · exact hframe (h.transcribe _ _)
  · exact hframe (h.of_quiet (quiet_handleChatPost s _ _ _ _))
  · exact hframe (h.of_quiet (quiet_sendNext s _ _))
  · exact hframe (h.of_quiet (quiet_drainBacklog s _ _))
  · exact hframe (h.of_quiet ⟨rfl, rfl, rfl, rfl, rfl, rfl, rfl, rfl⟩)
  · exact hframe (h.of_frame rfl rfl rfl rfl (fun _ ht ↦ ht)
      (fun _ hu ↦ absurd hu List.not_mem_nil) fun _ hu ↦ absurd hu List.not_mem_nil)
  · refine hframe ⟨h.known, h.served, h.nonneg, fun u hu hpending ↦ ?_, h.parked, fun u hu ↦ ?_,
      h.transcripts⟩
    · exact (h.settled u hu hpending).imp_right fun hs ↦ hs.mono (fun _ ht ↦ ht) id
    · obtain ⟨r, hr, rfl⟩ := List.mem_map.mp hu
      exact (h.parked r ((List.perm_insertionSort _ _).mem_iff.mp hr)).2
  · exact hframe h

/-- A settled update is handled. -/
theorem handled_of_settled {s : Daemon} {u : Update} (hlog : ∀ t ∈ s.log, Genuine uuids s t)
    (h : s.Settled u) : s.Handled u := by
  have hstored : ∀ {t : Step Batch Update} {m : Message} {text : String}, t ∈ s.log →
      t.op.message = some m → m.text = some text →
      t.before.access.Admits (toString m.userId) → s.Stored t m text := by
    intro t m text ht hm htext hadmits
    obtain ⟨⟨env, hstep⟩, hgrows⟩ := hlog t ht
    have hc : Batch.content? m = some text := by simp [Batch.content?, htext]
    obtain ⟨row, hrow, happ⟩ := Batch.stored_processUpdate uuids env hm hc hadmits
    rw [← hstep] at happ
    refine ⟨row, hrow, happ, hgrows.kept row ?_⟩
    rw [happ]
    exact List.mem_append_right _ List.mem_cons_self
  constructor
  · intro cb hcb
    obtain ⟨t, ht, rfl⟩ := h.wanted (by simp [Update.isWanted, hcb])
    refine ⟨t, ht, rfl, fun hadmits ↦ ?_⟩
    obtain ⟨⟨env, hstep⟩, -⟩ := hlog t ht
    rw [hstep]
    exact Batch.applied_processUpdate uuids env hcb hadmits
  · intro m text hm htext
    obtain ⟨t, ht, rfl⟩ := h.wanted (by simp [Update.isWanted, hm, htext])
    exact ⟨t, ht, rfl, hstored ht hm htext⟩
  · intro m hm htext hvoice
    have hnote : u.isUntranscribedVoice = true := by
      simp [Update.isUntranscribedVoice, hm, htext, hvoice]
    rcases h.note hnote with hparked | ⟨text, t, ht, hop⟩
    · exact Or.inl hparked
    · refine Or.inr ⟨t, ht, text, hop, fun hadmits ↦ hstored ht ?_ rfl hadmits⟩
      simp [hop, Update.transcribed, hm]

end Daemon

open Daemon in
/-- The poll loop loses no update, in every run without a torn cycle. -/
theorem poll_loses_nothing (uuids : Uuids) (telegram : Service) (ops : List Daemon.Op)
    (htorn : ∀ t ∈ trace (Daemon.next uuids telegram) .fresh ops, ¬ Torn telegram t) :
    ∀ t ∈ trace (Daemon.next uuids telegram) .fresh ops, t.after.NoLoss := by
  have hstart : Tracked telegram [] .fresh ∧ ∀ t ∈ Daemon.fresh.log, Genuine uuids .fresh t :=
    ⟨tracked_fresh, fun t ht ↦ absurd ht List.not_mem_nil⟩
  have hstep : ∀ t ∈ trace (Daemon.next uuids telegram) .fresh ops,
      (Tracked telegram [] t.before ∧ ∀ t' ∈ t.before.log, Genuine uuids t.before t') →
      Tracked telegram [] t.after ∧ ∀ t' ∈ t.after.log, Genuine uuids t.after t' := by
    intro t ht hbefore
    have htracked : Tracked telegram ([] ++ opened telegram t.before t.op)
        (Daemon.next uuids telegram t.before t.op) := tracked_next hbefore.1 t.op
    rw [opened_of_not_torn (htorn t ht)] at htracked
    rw [after_of_mem_trace ht]
    exact ⟨htracked, genuine_next hbefore.2 t.op⟩
  intro t ht u hu
  obtain ⟨htracked, hlog⟩ := (invariant_of_trace
    (I := fun s ↦ Tracked telegram [] s ∧ ∀ t ∈ s.log, Genuine uuids s t) hstart hstep t ht).2
  exact (htracked.settled u hu List.not_mem_nil).imp_right (handled_of_settled hlog)

namespace Daemon

/-- A text from a sender on the allow list. -/
def helloUpdate : Update :=
  ⟨1, some ⟨10, some ⟨7, some "operator"⟩, 7, 0, some "hello", none, none⟩, none, Or.inr rfl⟩

/-- A server that holds this one update. -/
def helloService : Service where
  update id := if id = 1 then some helloUpdate else none
  updateId_eq id u h := by
    split at h
    · next hid => rw [← Option.some.inj h, hid]; rfl
    · cases h

/-- The access file of the operator. -/
def operatorAccess : Access := ⟨.allowlist, ["7"], .empty⟩

/-- A machine where no clock moves. -/
def stillEnv : Env where
  host := ⟨"host", fun _ ↦ true⟩
  now := 0
  clock _ := 0
  seed _ := 0
  pairingCode _ := none
  isoSeconds _ := ""
  isoMillis _ := ""

end Daemon

open Daemon in
/-- A cycle that completes stores the text. -/
theorem poll_loses_nothing_complete :
    (∀ t ∈ trace (Daemon.next .longer helloService) .fresh
        [.start 0, .poll 1 operatorAccess stillEnv .complete], t.after.NoLoss) ∧
      (run (Daemon.next .longer helloService) .fresh
        [.start 0, .poll 1 operatorAccess stillEnv .complete]).db.chatMessages.rows.map
          ChatMessage.content = ["hello"] := by
  constructor
  · apply poll_loses_nothing
    intro t ht
    rintro ⟨-, upTo, access, env, hop, -⟩
    have hmem := op_mem_of_mem_trace ht
    rw [hop] at hmem
    simp at hmem
  · decide

open Daemon in
/-- An error or a crash right after the offset has moved loses the text for good. -/
theorem poll_loses_nothing_torn :
    ¬ (run (Daemon.next .longer helloService) .fresh
      [.start 0, .poll 1 operatorAccess stillEnv .advanced, .crash]).NoLoss := by
  intro h
  have hlog : (run (Daemon.next .longer helloService) .fresh
      [.start 0, .poll 1 operatorAccess stillEnv .advanced, .crash]).log = [] := rfl
  rcases h helloUpdate (by decide) with hoffset | hhandled
  · revert hoffset
    decide
  · obtain ⟨t, ht, -⟩ := hhandled.text _ _ rfl rfl
    rw [hlog] at ht
    cases ht

end Claudebase.Telegram
