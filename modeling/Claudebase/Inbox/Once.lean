import Claudebase.Inbox.System

/-!
# Marks on messages

A marked message is taken off its queue by nobody. The mark is recorded when a subscription
takes the message, and after a publication by the senders that record one; whatever else
happens in between, a message that was neither taken nor published to a receiver stays where
the next subscription finds it.
-/

namespace Claudebase.Inbox
open Claudebase.Base
open Telegram (ChatMessage Uuids)

/-! ### Being handed out -/

/-- A subscription took the message, or it was published to a receiver or as a reminder. -/
def Event.handsOut (id : String) : Event → Prop
  | published _ frame subscribers =>
    frame.messageId = id ∧ (1 ≤ subscribers ∨ frame.isReminder = true)
  | backlog _ _ messages => id ∈ messages.map ChatMessage.id
  | forwarded _ _ | drained _ => False

/-- A message has been handed out. -/
def System.HandedOut (s : System) (id : String) : Prop := ∃ e ∈ s.log, e.handsOut id

/-- A notification was published to a receiver. -/
def System.Reached (s : System) (frame : Frame) : Prop :=
  ∃ threadId subscribers, .published threadId frame subscribers ∈ s.log ∧ 1 ≤ subscribers

/-- What an action does to messages and marks. -/
structure Effect.Accounts (s : System) (action : Action) (effect : Effect) : Prop where
  stored : ∀ threadId id, s.db.Holds threadId id → effect.db.Holds threadId id
  kept : ∀ id, s.db.Marked id → effect.db.Marked id
  marks : ∀ id, effect.db.Marked id →
    s.db.Marked id ∨ action = .mark id ∨ ∃ e ∈ effect.events, e.handsOut id
  recorded : ∀ threadId id, action = .mark id → s.db.Holds threadId id → effect.db.Marked id
  queued : ∀ threadId frame, .publish threadId frame ∈ effect.first ++ effect.last →
    effect.db.Holds threadId frame.messageId
  marking : ∀ id, .mark id ∈ effect.first ++ effect.last →
    (∃ threadId frame, action = .publish threadId frame ∧ frame.messageId = id) ∧
      ∃ e ∈ effect.events, e.handsOut id
  published : ∀ threadId frame subscribers, .published threadId frame subscribers ∈ effect.events →
    action = .publish threadId frame ∧
      (frame.marks subscribers = true → .mark frame.messageId ∈ effect.first)
  carried : ∀ r ∈ effect.receivers, ∀ frame ∈ r.frames, (∃ r' ∈ s.receivers, frame ∈ r'.frames) ∨
    ∃ threadId subscribers, .published threadId frame subscribers ∈ effect.events ∧ 1 ≤ subscribers
  forwarded : ∀ connection frame, .forwarded connection frame ∉ effect.events
  taken : ∀ e ∈ effect.events, ∀ id ∈ e.taken, ¬ s.db.Marked id

namespace Effect.Accounts

variable {s : System} {action : Action} {effect : Effect}

/-- An action that leaves the messages alone, and publishes and records nothing. -/
theorem of_quiet (hdb : effect.db.chatMessages = s.db.chatMessages)
    (hreceivers : ∀ r ∈ effect.receivers, ∀ frame ∈ r.frames, ∃ r' ∈ s.receivers, frame ∈ r'.frames)
    (hactions : ∀ a ∈ effect.first ++ effect.last,
      (∀ threadId frame, a ≠ .publish threadId frame) ∧ ∀ id, a ≠ .mark id)
    (hevents : effect.events = []) (haction : ∀ id, action ≠ .mark id) :
    effect.Accounts s action where
  stored threadId id := (Db.holds_congr hdb).mpr
  kept id := (Db.marked_congr hdb).mpr
  marks id hmark := Or.inl ((Db.marked_congr hdb).mp hmark)
  recorded threadId id h := absurd h (haction id)
  queued threadId frame h := absurd rfl ((hactions _ h).1 threadId frame)
  marking id h := absurd rfl ((hactions _ h).2 id)
  published threadId frame subscribers h := by
    rw [hevents] at h
    cases h
  carried r hr frame hframe := Or.inl (hreceivers r hr frame hframe)
  forwarded connection frame h := by
    rw [hevents] at h
    cases h
  taken e h := by
    rw [hevents] at h
    cases h

/-- A send that fails. -/
theorem idle (haction : ∀ id, action ≠ .mark id) : s.idle.Accounts s action :=
  of_quiet rfl (fun r hr _ hframe ↦ ⟨r, hr, hframe⟩) (by nofun) rfl haction

/-- A sender stores a message nobody has been handed, and publishes it under its id. -/
theorem store {uuids : Uuids} {draw : Draw} {fromAgentId toAgentId content : String}
    {frames : SendOutcome → List Frame} (haction : ∀ id, action ≠ .mark id)
    (hframes : ∀ outcome, ∀ frame ∈ frames outcome, frame.messageId = outcome.messageId) :
    (s.store uuids draw fromAgentId toAgentId content frames).Accounts s action := by
  rcases s.store_cases uuids draw fromAgentId toAgentId content frames with
    hidle | ⟨outcome, db, hstored, heq⟩
  · rw [hidle]
    exact idle haction
  · rw [heq]
    have hfirst : ∀ a ∈ (frames outcome).map (Action.publish (agentThread toAgentId)),
        ∃ frame, a = .publish (agentThread toAgentId) frame ∧ frame.messageId = outcome.messageId := by
      intro a ha
      obtain ⟨frame, hframe, rfl⟩ := List.mem_map.mp ha
      exact ⟨frame, rfl, hframes outcome frame hframe⟩
    exact {
      stored := fun threadId id ↦ hstored.holds_of
      kept := fun id ↦ hstored.marked_iff.mpr
      marks := fun id hmark ↦ Or.inl (hstored.marked_iff.mp hmark)
      recorded := fun threadId id h ↦ absurd h (haction id)
      queued := fun threadId frame h ↦ by
        rw [show s.idle.last = [] from rfl, List.append_nil] at h
        obtain ⟨frame', heq, hid⟩ := hfirst _ h
        cases heq
        rw [hid]
        exact hstored.holds
      marking := fun id h ↦ by
        rw [show s.idle.last = [] from rfl, List.append_nil] at h
        obtain ⟨frame, heq, -⟩ := hfirst _ h
        cases heq
      published := fun threadId frame subscribers h ↦ nomatch h
      carried := fun r hr frame hframe ↦ Or.inl ⟨r, hr, hframe⟩
      forwarded := fun connection frame h ↦ nomatch h
      taken := fun e h ↦ nomatch h }

/-- A drain reads unmarked messages and publishes them again. -/
theorem snapshot {drainable : List DrainableMessage} {db : Db}
    (hdb : db.chatMessages = s.db.chatMessages)
    (hdrainable : ∀ d ∈ drainable, ∃ m ∈ s.db.chatMessages.rows, m.deliveredAt = none ∧ d = .of m)
    (haction : ∀ id, action ≠ .mark id) :
    Effect.Accounts s action { s.idle with
      db, first := drainable.map DrainableMessage.publication, events := [.drained drainable] } where
  stored threadId id := (Db.holds_congr hdb).mpr
  kept id := (Db.marked_congr hdb).mpr
  marks id hmark := Or.inl ((Db.marked_congr hdb).mp hmark)
  recorded threadId id h := absurd h (haction id)
  queued threadId frame h := by
    rw [show s.idle.last = [] from rfl, List.append_nil] at h
    obtain ⟨d, hd, heq⟩ := List.mem_map.mp h
    obtain ⟨m, hm, -, rfl⟩ := hdrainable d hd
    cases heq
    exact (Db.holds_congr hdb).mpr ⟨m, hm, rfl, rfl⟩
  marking id h := by
    rw [show s.idle.last = [] from rfl, List.append_nil] at h
    obtain ⟨d, -, heq⟩ := List.mem_map.mp h
    cases heq
  published threadId frame subscribers h := nomatch List.mem_singleton.mp h
  carried r hr frame hframe := Or.inl ⟨r, hr, hframe⟩
  forwarded connection frame h := nomatch List.mem_singleton.mp h
  taken e he id hid := by
    obtain rfl := List.mem_singleton.mp he
    obtain ⟨d, hd, rfl⟩ := List.mem_map.mp hid
    obtain ⟨m, hm, hnone, rfl⟩ := hdrainable d hd
    exact Db.not_marked hm hnone

/-- A publication is followed by the mark its sender records. -/
theorem publish (uuids : Uuids) (draw : Draw) (threadId : String) (frame : Frame) :
    (s.perform uuids draw (.publish threadId frame)).Accounts s (.publish threadId frame) where
  stored threadId id hold := hold
  kept id hmark := hmark
  marks id hmark := Or.inl hmark
  recorded threadId id h := nomatch h
  queued threadId' frame' h := by
    simp only [System.perform, System.idle, List.append_nil] at h
    split at h <;> simp at h
  marking id h := by
    simp only [System.perform, System.idle, List.append_nil] at h
    split at h
    · next hmarks =>
      obtain rfl : id = frame.messageId := by simpa using h
      exact ⟨⟨threadId, frame, rfl, rfl⟩, _, List.mem_singleton_self _, rfl,
        Frame.reached_of_marks hmarks⟩
    · cases h
  published threadId' frame' subscribers h := by
    cases List.mem_singleton.mp h
    refine ⟨rfl, fun hmarks ↦ ?_⟩
    simp only [System.perform]
    rw [if_pos hmarks]
    exact List.mem_singleton_self _
  carried r hr f hf := by
    rcases System.mem_frames_publish hr hf with hold | ⟨rfl, hreached⟩
    · exact Or.inl hold
    · exact Or.inr ⟨threadId, _, List.mem_singleton_self _, hreached⟩
  forwarded connection frame' h := nomatch List.mem_singleton.mp h
  taken e he id hid := by
    obtain rfl := List.mem_singleton.mp he
    cases hid

/-- A mark is recorded on its message. -/
theorem mark (uuids : Uuids) (draw : Draw) (messageId : String) :
    (s.perform uuids draw (.mark messageId)).Accounts s (.mark messageId) where
  stored threadId id := Db.holds_markDelivered
  kept id hmark := Db.marked_markDelivered.mpr (Or.inl hmark)
  marks id hmark := by
    rcases Db.marked_markDelivered.mp hmark with hold | ⟨rfl, -⟩
    · exact Or.inl hold
    · exact Or.inr (Or.inl rfl)
  recorded threadId id h hold := by
    cases h
    exact Db.marked_markDelivered.mpr (Or.inr ⟨rfl, threadId, hold⟩)
  queued threadId frame h := nomatch h
  marking id h := nomatch h
  published threadId frame subscribers h := nomatch h
  carried r hr frame hframe := Or.inl ⟨r, hr, hframe⟩
  forwarded connection frame h := nomatch h
  taken e h := nomatch h

/-- A subscription takes the unmarked messages of its thread and marks them. -/
theorem backlog (uuids : Uuids) (draw : Draw) (connection : Nat) (threadId : String) :
    (s.perform uuids draw (.drainBacklog connection threadId)).Accounts s
      (.drainBacklog connection threadId) where
  stored threadId id := Db.holds_drainBacklog
  kept id hmark := Db.marked_drainBacklog.mpr (Or.inl hmark)
  marks id hmark := by
    rcases Db.marked_drainBacklog.mp hmark with hold | htaken
    · exact Or.inl hold
    · exact Or.inr (Or.inr ⟨_, List.mem_singleton_self _, htaken⟩)
  recorded threadId id h := nomatch h
  queued threadId frame h := nomatch h
  marking id h := nomatch h
  published threadId frame subscribers h := nomatch List.mem_singleton.mp h
  carried r hr frame hframe := by
    obtain ⟨r', hr', rfl⟩ := List.mem_map.mp hr
    refine Or.inl ⟨r', hr', ?_⟩
    split at hframe <;> exact hframe
  forwarded connection frame h := nomatch List.mem_singleton.mp h
  taken e he id hid := by
    obtain rfl := List.mem_singleton.mp he
    obtain ⟨m, hm, rfl⟩ := List.mem_map.mp hid
    obtain ⟨hrow, -, hnone⟩ := Db.mem_undelivered.mp (Db.mem_drainBacklog.mp hm)
    exact Db.not_marked hrow hnone

end Effect.Accounts

/-- One case for each action. -/
theorem System.perform_accounts (s : System) (uuids : Uuids) (draw : Draw) (action : Action) :
    (s.perform uuids draw action).Accounts s action := by
  have hsame : ∀ r ∈ s.receivers, ∀ frame ∈ r.frames, ∃ r' ∈ s.receivers, frame ∈ r'.frames :=
    fun r hr frame hframe ↦ ⟨r, hr, hframe⟩
  cases action with
  | agentSend fromAgentId toAgentId content =>
    refine .store (by simp) ?_
    intro outcome frame hframe
    split at hframe
    · obtain rfl := List.mem_singleton.mp hframe
      rfl
    · cases hframe
  | deliverResolved agentId body label =>
    refine .store (by simp) ?_
    intro outcome frame hframe
    obtain rfl := List.mem_singleton.mp hframe
    rfl
  | deliverJob pool worker reqId callType line =>
    refine .store (by simp) ?_
    intro outcome frame hframe
    obtain rfl := List.mem_singleton.mp hframe
    rfl
  | deliverReminder r agentId =>
    refine .store (by simp) ?_
    intro outcome frame hframe
    obtain rfl := List.mem_singleton.mp hframe
    rfl
  | collect r nowSecs =>
    simp only [perform]
    split
    · exact .idle (by simp)
    · exact .of_quiet rfl hsame (by simp [idle]) rfl (by simp)
  | publish threadId frame => exact .publish uuids draw threadId frame
  | mark messageId => exact .mark uuids draw messageId
  | setDnd agentId dndUntilTs =>
    refine .of_quiet rfl hsame ?_ rfl (by simp)
    intro a ha
    simp only [perform, idle, List.append_nil] at ha
    split at ha
    · obtain rfl := List.mem_singleton.mp ha
      simp
    · cases ha
  | drainAgentInbox agentId =>
    refine .snapshot rfl ?_ (by simp)
    intro d hd
    obtain ⟨m, hm, rfl⟩ := Db.mem_drainAgentInbox hd
    obtain ⟨hrow, -, hnone⟩ := Db.mem_undelivered.mp hm
    exact ⟨m, hrow, hnone, rfl⟩
  | drainDndTick =>
    refine .snapshot rfl ?_ (by simp)
    intro d hd
    obtain ⟨agentId, -, m, hm, rfl⟩ := Db.mem_drainDndTick hd
    obtain ⟨hrow, -, hnone⟩ := Db.mem_undelivered.mp hm
    exact ⟨m, hrow, hnone, rfl⟩
  | listen connection threadId =>
    refine .of_quiet rfl ?_ (by simp [perform, idle]) rfl (by simp)
    intro r hr frame hframe
    rcases List.mem_append.mp hr with hr | hr
    · exact ⟨r, hr, hframe⟩
    · obtain rfl := List.mem_singleton.mp hr
      cases hframe
  | drainBacklog connection threadId => exact .backlog uuids draw connection threadId

/-! ### Runs -/

namespace System

variable {uuids : Uuids}

/-- Every mark, recorded or to be recorded, has its reason, and every publication that calls
for a mark has it, or will. -/
structure Accounted (s : System) : Prop where
  queued : ∀ threadId frame, .publish threadId frame ∈ s.pending →
    s.db.Holds threadId frame.messageId
  published : ∀ threadId frame subscribers, .published threadId frame subscribers ∈ s.log →
    s.db.Holds threadId frame.messageId
  marking : ∀ id, .mark id ∈ s.pending → (∃ threadId, s.db.Holds threadId id) ∧ s.HandedOut id
  marked : ∀ id, s.db.Marked id → s.HandedOut id
  recorded : ∀ threadId frame subscribers, .published threadId frame subscribers ∈ s.log →
    frame.marks subscribers = true → s.db.Marked frame.messageId ∨ .mark frame.messageId ∈ s.pending
  carried : ∀ r ∈ s.receivers, ∀ frame ∈ r.frames, s.Reached frame
  forwarded : ∀ connection frame, .forwarded connection frame ∈ s.log → s.Reached frame

theorem accounted_fresh : fresh.Accounted where
  queued threadId frame h := nomatch h
  published threadId frame subscribers h := nomatch h
  marking id h := nomatch h
  marked id h := by
    obtain ⟨m, hm, -⟩ := h
    cases hm
  recorded threadId frame subscribers h := nomatch h
  carried r hr := nomatch hr
  forwarded connection frame h := nomatch h

theorem HandedOut.mono {s s' : System} {id : String} {es : List Event} (h : s.HandedOut id)
    (hlog : s'.log = s.log ++ es) : s'.HandedOut id := by
  obtain ⟨e, he, hout⟩ := h
  exact ⟨e, hlog ▸ List.mem_append_left es he, hout⟩

theorem Reached.mono {s s' : System} {frame : Frame} {es : List Event} (h : s.Reached frame)
    (hlog : s'.log = s.log ++ es) : s'.Reached frame := by
  obtain ⟨threadId, subscribers, he, hreached⟩ := h
  exact ⟨threadId, subscribers, hlog ▸ List.mem_append_left es he, hreached⟩

/-- A call neither publishes nor marks before its first statement. -/
theorem actions_quiet {c : Call} {clock : Int} {a : Action} (h : a ∈ c.actions clock) :
    (∀ threadId frame, a ≠ .publish threadId frame) ∧ ∀ id, a ≠ .mark id := by
  rcases mem_actions h with hopens | ⟨r, rfl⟩
  · constructor
    · rintro threadId frame rfl
      cases hopens
    · rintro id rfl
      cases hopens
  · exact ⟨by nofun, by nofun⟩

namespace Accounted

variable {s s' : System}

/-- What happens beside the tasks' own steps and the forwarders. -/
theorem of_quiet (h : s.Accounted) (hdb : s'.db.chatMessages = s.db.chatMessages)
    (hreceivers : s'.receivers = s.receivers) (hlog : s'.log = s.log) (hpending : s.pending ⊆ s'.pending)
    (hnew : ∀ a ∈ s'.pending, a ∈ s.pending ∨
      ((∀ threadId frame, a ≠ .publish threadId frame) ∧ ∀ id, a ≠ .mark id)) : s'.Accounted := by
  have hlog' : s'.log = s.log ++ [] := by rw [hlog, List.append_nil]
  constructor
  case queued =>
    intro threadId frame ha
    rw [Db.holds_congr hdb]
    rcases hnew _ ha with ha | ⟨hne, -⟩
    · exact h.queued threadId frame ha
    · exact absurd rfl (hne threadId frame)
  case published =>
    intro threadId frame subscribers hmem
    rw [hlog] at hmem
    exact (Db.holds_congr hdb).mpr (h.published threadId frame subscribers hmem)
  case marking =>
    intro id ha
    rcases hnew _ ha with ha | ⟨-, hne⟩
    · obtain ⟨⟨threadId, hold⟩, hout⟩ := h.marking id ha
      exact ⟨⟨threadId, (Db.holds_congr hdb).mpr hold⟩, hout.mono hlog'⟩
    · exact absurd rfl (hne id)
  case marked =>
    intro id hmark
    exact (h.marked id ((Db.marked_congr hdb).mp hmark)).mono hlog'
  case recorded =>
    intro threadId frame subscribers hmem hmarks
    rw [hlog] at hmem
    rw [Db.marked_congr hdb]
    exact (h.recorded threadId frame subscribers hmem hmarks).imp_right (hpending ·)
  case carried =>
    intro r hr frame hframe
    rw [hreceivers] at hr
    exact (h.carried r hr frame hframe).mono hlog'
  case forwarded =>
    intro connection frame hmem
    rw [hlog] at hmem
    exact (h.forwarded connection frame hmem).mono hlog'

/-- A forwarder carries on what was published to its receiver. -/
theorem forward (h : s.Accounted) {receivers : List Receiver} {es : List Event}
    (hreceivers : ∀ r ∈ receivers, ∀ frame ∈ r.frames, ∃ r' ∈ s.receivers, frame ∈ r'.frames)
    (hes : ∀ e ∈ es, ∃ connection, ∃ r ∈ s.receivers, ∃ frame ∈ r.frames,
      e = .forwarded connection frame) :
    { s with receivers, log := s.log ++ es }.Accounted where
  queued := h.queued
  published threadId frame subscribers hmem := by
    rcases List.mem_append.mp hmem with hmem | hmem
    · exact h.published threadId frame subscribers hmem
    · obtain ⟨_, _, _, _, _, heq⟩ := hes _ hmem
      cases heq
  marking id ha := ⟨(h.marking id ha).1, (h.marking id ha).2.mono rfl⟩
  marked id hmark := (h.marked id hmark).mono rfl
  recorded threadId frame subscribers hmem hmarks := by
    rcases List.mem_append.mp hmem with hmem | hmem
    · exact h.recorded threadId frame subscribers hmem hmarks
    · obtain ⟨_, _, _, _, _, heq⟩ := hes _ hmem
      cases heq
  carried r hr frame hframe := by
    obtain ⟨r', hr', hframe⟩ := hreceivers r hr frame hframe
    exact (h.carried r' hr' frame hframe).mono rfl
  forwarded connection frame hmem := by
    rcases List.mem_append.mp hmem with hmem | hmem
    · exact (h.forwarded connection frame hmem).mono rfl
    · obtain ⟨_, r, hr, frame', hframe, heq⟩ := hes _ hmem
      cases heq
      exact (h.carried r hr frame hframe).mono rfl

/-- A task takes its next action. -/
theorem proceed (h : s.Accounted) {i : Nat} {action : Action} {rest : List Action}
    (hi : s.tasks[i]? = some (action :: rest)) {effect : Effect} (heffect : effect.Accounts s action) :
    { s with
      db := effect.db
      receivers := effect.receivers
      tasks := s.tasks.set i (effect.first ++ rest ++ effect.last)
      log := s.log ++ effect.events }.Accounted where
  queued threadId frame ha := by
    rcases mem_pending_set hi ha with ha | ha
    · exact heffect.stored _ _ (h.queued threadId frame ha)
    · exact heffect.queued threadId frame ha
  published threadId frame subscribers hmem := by
    rcases List.mem_append.mp hmem with hmem | hmem
    · exact heffect.stored _ _ (h.published threadId frame subscribers hmem)
    · obtain rfl := (heffect.published _ _ _ hmem).1
      exact heffect.stored _ _ (h.queued threadId frame (mem_pending_of_head hi))
  marking id ha := by
    rcases mem_pending_set hi ha with ha | ha
    · obtain ⟨⟨threadId, hold⟩, hout⟩ := h.marking id ha
      exact ⟨⟨threadId, heffect.stored _ _ hold⟩, hout.mono rfl⟩
    · obtain ⟨⟨threadId, frame, rfl, rfl⟩, e, he, hout⟩ := heffect.marking id ha
      refine ⟨⟨threadId, ?_⟩, e, List.mem_append_right _ he, hout⟩
      exact heffect.stored _ _ (h.queued threadId frame (mem_pending_of_head hi))
  marked id hmark := by
    rcases heffect.marks id hmark with hold | rfl | ⟨e, he, hout⟩
    · exact (h.marked id hold).mono rfl
    · exact (h.marking id (mem_pending_of_head hi)).2.mono rfl
    · exact ⟨e, List.mem_append_right _ he, hout⟩
  recorded threadId frame subscribers hmem hmarks := by
    rcases List.mem_append.mp hmem with hmem | hmem
    · rcases h.recorded threadId frame subscribers hmem hmarks with hold | ha
      · exact Or.inl (heffect.kept _ hold)
      · rcases mem_pending_set_of_mem hi ha with haction | ha'
        · obtain ⟨thread, hold⟩ := (h.marking _ ha).1
          exact Or.inl (heffect.recorded thread _ haction.symm hold)
        · exact Or.inr ha'
    · exact Or.inr (mem_pending_set_of_first hi ((heffect.published _ _ _ hmem).2 hmarks))
  carried r hr frame hframe := by
    rcases heffect.carried r hr frame hframe with ⟨r', hr', hframe⟩ | ⟨threadId, n, he, hreached⟩
    · exact (h.carried r' hr' frame hframe).mono rfl
    · exact ⟨threadId, n, List.mem_append_right _ he, hreached⟩
  forwarded connection frame hmem := by
    rcases List.mem_append.mp hmem with hmem | hmem
    · exact (h.forwarded connection frame hmem).mono rfl
    · exact absurd hmem (heffect.forwarded connection frame)

end Accounted

/-- A step seen from outside. -/
theorem accounted_next {s : System} (h : s.Accounted) (op : Op) : (s.next uuids op).Accounted := by
  cases op with
  | tick ms =>
    exact h.of_quiet rfl rfl (List.append_nil _) (List.Subset.refl _) fun a ha ↦ Or.inl ha
  | registry rows =>
    exact h.of_quiet rfl rfl (List.append_nil _) (List.Subset.refl _) fun a ha ↦ Or.inl ha
  | disconnect connection =>
    exact h.of_quiet rfl rfl (List.append_nil _) (List.Subset.refl _) fun a ha ↦ Or.inl ha
  | call c =>
    have hpending : (s.next uuids (.call c)).pending = s.pending ++ c.actions s.clock := by
      simp [next, step, pending]
    refine h.of_quiet rfl rfl (List.append_nil _) ?_ ?_
    · rw [hpending]
      exact List.subset_append_left _ _
    · intro a ha
      rw [hpending] at ha
      exact (List.mem_append.mp ha).imp_right actions_quiet
  | proceed i draw =>
    rcases s.proceed_cases i draw with ⟨hsame, -⟩ | ⟨action, rest, hi, -, hnext⟩
    · rw [hsame]
      exact h
    · rw [hnext]
      exact h.proceed hi (s.perform_accounts uuids draw action)
  | forward i =>
    obtain ⟨receivers, hnext, hreceivers, hes⟩ := s.forward_cases i
    rw [hnext]
    exact h.forward hreceivers hes

theorem accounted_run (ops : List Op) : (run (next uuids) fresh ops).Accounted :=
  invariant_of_run accounted_fresh fun t ht h ↦ by
    rw [after_of_mem_trace ht]
    exact accounted_next h t.op

end System

/-!
## What comes again and what does not

An inbox under any interleaving of its senders, subscriptions and drains. A mark keeps a message
from every later subscription and drain; it follows a publication that reached a receiver when
the sender records it, and without it the next subscription takes the message.
-/

namespace System

variable {uuids : Uuids} {s : System}

/-- What a step shows a forwarder carries, or an action at hand shows. -/
theorem mem_events {op : Op} {e : Event} (h : e ∈ s.events uuids op) :
    (∃ connection frame, e = .forwarded connection frame) ∨
    ∃ i draw action rest, op = .proceed i draw ∧ s.tasks[i]? = some (action :: rest) ∧
      e ∈ (s.perform uuids draw action).events := by
  cases op with
  | proceed i draw =>
    rcases s.proceed_cases i draw with ⟨-, hnone⟩ | ⟨action, rest, hi, hevents, -⟩
    · rw [hnone] at h
      cases h
    · rw [hevents] at h
      exact Or.inr ⟨i, draw, action, rest, rfl, hi, h⟩
  | forward i =>
    obtain ⟨receivers, -, -, hes⟩ := s.forward_cases i
    obtain ⟨connection, r, -, frame, -, rfl⟩ := hes e h
    exact Or.inl ⟨connection, frame, rfl⟩
  | _ => cases h

/-- Only unmarked messages are taken. -/
theorem not_marked_of_taken {op : Op} {e : Event} {id : String} (h : e ∈ s.events uuids op)
    (hid : id ∈ e.taken) : ¬ s.db.Marked id := by
  rcases mem_events h with ⟨connection, frame, rfl⟩ | ⟨i, draw, action, rest, -, -, he⟩
  · cases hid
  · exact (s.perform_accounts uuids draw action).taken e he id hid

/-- Nothing takes a mark away. -/
theorem marked_next (op : Op) {id : String} (h : s.db.Marked id) :
    (s.next uuids op).db.Marked id := by
  cases op with
  | proceed i draw =>
    rcases s.proceed_cases i draw with ⟨hsame, -⟩ | ⟨action, rest, -, -, hnext⟩
    · rw [hsame]
      exact h
    · rw [hnext]
      exact (s.perform_accounts uuids draw action).kept id h
  | forward i =>
    obtain ⟨receivers, hnext, -⟩ := s.forward_cases i
    rw [hnext]
    exact h
  | _ => exact h

/-- A marked message is taken in no run from there. -/
theorem not_taken_of_marked {id : String} (h : s.db.Marked id) (ops : List Op) :
    ∃ later, (run (next uuids) s ops).log = s.log ++ later ∧ ∀ e ∈ later, id ∉ e.taken := by
  induction ops generalizing s with
  | nil => exact ⟨[], (List.append_nil _).symm, by nofun⟩
  | cons op ops ih =>
    obtain ⟨later, hlog, hlater⟩ := ih (marked_next op h)
    refine ⟨s.events uuids op ++ later, ?_, ?_⟩
    · rw [← List.append_assoc]
      exact hlog
    · intro e he hid
      rcases List.mem_append.mp he with he | he
      · exact not_marked_of_taken he hid h
      · exact hlater e he hid

/-- A subscription takes every unmarked message its thread holds. -/
theorem mem_backlog {op : Op} {connection : Nat} {threadId id : String}
    {messages : List ChatMessage}
    (h : .backlog connection threadId messages ∈ s.events uuids op) (hold : s.db.Holds threadId id)
    (hmark : ¬ s.db.Marked id) : id ∈ messages.map ChatMessage.id := by
  rcases mem_events h with ⟨connection', frame, heq⟩ | ⟨i, draw, action, rest, -, -, he⟩
  · cases heq
  · obtain ⟨-, rfl⟩ := backlog_of_perform he
    obtain ⟨m, hm, rfl, hthread⟩ := hold
    apply List.mem_map_of_mem
    rw [Db.mem_drainBacklog, Db.mem_undelivered]
    refine ⟨hm, hthread, ?_⟩
    by_contra hnone
    exact hmark ⟨m, hm, rfl, hnone⟩

end System

/-! ### Any interleaving -/

/-- In every run of senders, subscriptions, reconnections and drains a marked message is in no
later backlog and read by no later drain. A message forwarded to a session is marked as soon as
no mark of it is outstanding, when its sender records one. And while a message was neither taken
by a subscription nor published to a receiver, and is no reminder, it has no mark, and the next
subscription to its thread takes it. -/
theorem inbox_hands_out (uuids : Uuids) (ops : List Op) :
    let s := run (System.next uuids) .fresh ops
    (∀ id, s.db.Marked id → ∀ ops', ∃ later,
      (run (System.next uuids) s ops').log = s.log ++ later ∧ ∀ e ∈ later, id ∉ e.taken) ∧
    (∀ connection frame, .forwarded connection frame ∈ s.log → frame.marks 1 = true →
      .mark frame.messageId ∉ s.pending → s.db.Marked frame.messageId) ∧
    (∀ id, s.db.Marked id → s.HandedOut id) ∧
    (∀ threadId frame subscribers, .published threadId frame subscribers ∈ s.log →
      ¬ s.HandedOut frame.messageId → ∀ op connection messages,
        .backlog connection threadId messages ∈ s.events uuids op →
          frame.messageId ∈ messages.map ChatMessage.id) := by
  intro s
  have hs : s.Accounted := System.accounted_run ops
  refine ⟨fun id hmark ops' ↦ System.not_taken_of_marked hmark ops', ?_, hs.marked, ?_⟩
  · intro connection frame hforwarded hmarks hpending
    obtain ⟨threadId, subscribers, hpublished, hreached⟩ := hs.forwarded connection frame hforwarded
    have hrecorded := hs.recorded threadId frame subscribers hpublished
      (Frame.marks_of_reached hmarks hreached)
    exact hrecorded.resolve_right hpending
  · intro threadId frame subscribers hpublished hout op connection messages hbacklog
    have hold : s.db.Holds threadId frame.messageId := hs.published threadId frame subscribers hpublished
    exact System.mem_backlog hbacklog hold fun hmark ↦ hout (hs.marked _ hmark)

/-- One agent, alive and without a deadline. -/
def onlineAgent : Table Agent.agentId :=
  .insertNew .empty ⟨"a", "ada", .alive, none, 0, none⟩ (by simp)

/-- A subscription of the agent's session. -/
def subscribed (connection task : Nat) : List Op :=
  [.call (.subscribe connection "agent:a"), .proceed task ⟨0, 0⟩, .proceed task ⟨0, 0⟩]

/-- A callback reaches the session; the session reconnects and has not read its backlog yet. -/
def callbackRun : List Op :=
  .registry onlineAgent :: subscribed 1 0 ++
    [.call (.callback "a" "done" none), .proceed 1 ⟨0, 0⟩, .proceed 1 ⟨0, 0⟩, .forward 0,
      .disconnect 1, .call (.subscribe 2 "agent:a"), .proceed 2 ⟨0, 0⟩]

/-- The same with a message of another agent, whose mark is still to be recorded. -/
def agentSendRun : List Op :=
  .registry onlineAgent :: subscribed 1 0 ++
    [.call (.agentSend "b" "a" "hello"), .proceed 1 ⟨0, 0⟩, .proceed 1 ⟨0, 0⟩, .forward 0,
      .disconnect 1, .call (.subscribe 2 "agent:a"), .proceed 2 ⟨0, 0⟩]

/-- A reminder comes due while nobody is subscribed, and then somebody is. -/
def reminderRun : List Op :=
  [.registry onlineAgent, .call (.reminderTick [⟨7, "look", 60, "ada", none⟩]),
    .proceed 0 ⟨0, 0⟩, .proceed 0 ⟨0, 0⟩, .proceed 0 ⟨0, 0⟩, .proceed 0 ⟨0, 0⟩,
    .call (.subscribe 1 "agent:a"), .proceed 1 ⟨0, 0⟩]

/-- A callback that was forwarded is returned by the next backlog, and so is a message between
its publication and its mark; a reminder published to nobody is returned by none. -/
theorem inbox_hands_out_again :
    (∃ frame e, .forwarded 1 frame ∈ (run (System.next .longer) .fresh callbackRun).log ∧
      e ∈ (run (System.next .longer) .fresh callbackRun).events .longer (.proceed 2 ⟨0, 0⟩) ∧
      frame.messageId ∈ e.taken) ∧
    (∃ frame e, .forwarded 1 frame ∈ (run (System.next .longer) .fresh agentSendRun).log ∧
      e ∈ (run (System.next .longer) .fresh agentSendRun).events .longer (.proceed 2 ⟨0, 0⟩) ∧
      frame.messageId ∈ e.taken) ∧
    ∃ frame, (run (System.next .longer) .fresh reminderRun).log = [.published "agent:a" frame 0] ∧
      (run (System.next .longer) .fresh reminderRun).events .longer (.proceed 1 ⟨0, 0⟩) =
        [.backlog 1 "agent:a" []] := by
  refine ⟨⟨.callback "done" none "a" "i", .backlog 2 "agent:a" [⟨"i", "agent:a", "callback",
    "done", none, 0, false, none, none⟩], by decide, by decide, by decide⟩,
    ⟨.agentToAgent "hello" "b" "a" "i" false, .backlog 2 "agent:a" [⟨"i", "agent:a", "b",
    "hello", none, 0, false, none, none⟩], by decide, by decide, by decide⟩,
    .reminder (DueReminder.render ⟨7, "look", 60, "ada", none⟩) 7 "a" "i", by decide, by decide⟩

end Claudebase.Inbox
