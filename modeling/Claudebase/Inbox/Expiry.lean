import Claudebase.Base.Ordered
import Claudebase.Inbox.Dnd

/-!
# Messages that waited for a deadline

`src/daemon/agent_registry.rs:1226–1389` and `src/daemon/server.rs:2207–2399`. A message queued
under a deadline waits for the drain that clears it. A drain reads the ten oldest unmarked
messages and marks each after its publication, so it takes a message once when the message is
among the ten, nobody else has it in hand, and a receiver is there.
-/

namespace Claudebase.Inbox
open Claudebase.Base
open Telegram (ChatMessage Uuids)

/-! ### What a drain reads -/

namespace Db

variable {db : Db} {agentId id : String}

/-- The thread of a row is that of its message. -/
theorem thread_of_mem_undelivered {threadId threadId' : String} {m : ChatMessage}
    (hm : m ∈ db.undelivered threadId) (hold : db.Holds threadId' m.id) : threadId = threadId' := by
  obtain ⟨m', hm', hid, rfl⟩ := hold
  obtain ⟨hrow, rfl, -⟩ := mem_undelivered.mp hm
  rw [db.chatMessages.eq_of_key_eq hrow hm' hid.symm]

/-- A stored message without a mark waits in its thread. -/
theorem exists_undelivered {threadId : String} (hold : db.Holds threadId id)
    (hmark : ¬ db.Marked id) : ∃ m ∈ db.undelivered threadId, m.id = id := by
  obtain ⟨m, hm, rfl, hthread⟩ := hold
  refine ⟨m, mem_undelivered.mpr ⟨hm, hthread, ?_⟩, rfl⟩
  by_contra hne
  exact hmark ⟨m, hm, rfl, hne⟩

/-- A drain of an inbox reads no message twice. -/
theorem nodup_drainAgentInbox (db : Db) (agentId : String) (rateLimit : Nat) :
    ((db.drainAgentInbox agentId rateLimit).map DrainableMessage.id).Nodup := by
  have hnodup : ((db.undelivered (agentThread agentId)).map ChatMessage.id).Nodup :=
    Table.nodup_map_key_filter
  have hordered : ((ordered ChatMessage.createdAt (db.undelivered (agentThread agentId))).map
      ChatMessage.id).Nodup := (perm_ordered.map ChatMessage.id).nodup_iff.mpr hnodup
  rw [drainAgentInbox, List.map_map]
  exact hordered.sublist ((List.take_sublist _ _).map ChatMessage.id)

/-- It reads a message when no more than the limit are as old. -/
theorem mem_drainAgentInbox_of_countP {m : ChatMessage} {rateLimit : Nat}
    (hm : m ∈ db.undelivered (agentThread agentId))
    (hcount : (db.undelivered (agentThread agentId)).countP (fun m' ↦ m'.createdAt ≤ m.createdAt) ≤
      rateLimit) : m.id ∈ (db.drainAgentInbox agentId rateLimit).map DrainableMessage.id := by
  rw [drainAgentInbox, List.map_map]
  exact List.mem_map.mpr ⟨m, mem_take_ordered hm hcount, rfl⟩

/-- It reads unmarked messages of its own inbox only. -/
theorem not_mem_drainAgentInbox {target : String} {rateLimit : Nat}
    (hold : db.Holds (agentThread agentId) id) (h : target ≠ agentId ∨ db.Marked id) :
    id ∉ (db.drainAgentInbox target rateLimit).map DrainableMessage.id := by
  intro hid
  obtain ⟨d, hd, rfl⟩ := List.mem_map.mp hid
  obtain ⟨m, hm, rfl⟩ := mem_drainAgentInbox hd
  rcases h with hne | hmark
  · exact hne (agentThread_inj.mp (thread_of_mem_undelivered hm hold))
  · exact not_marked (mem_undelivered.mp hm).1 (mem_undelivered.mp hm).2.2 hmark

/-- Nor does a tick read a message twice. -/
theorem nodup_drainDndTick (db : Db) (now : Int) (rateLimit : Nat) :
    ((db.drainDndTick now rateLimit).1.drainable.map DrainableMessage.id).Nodup := by
  have hexpired : (db.expiredDnd now).Nodup := Table.nodup_map_key_filter
  rw [show (db.drainDndTick now rateLimit).1.drainable =
    (db.expiredDnd now).flatMap fun agentId ↦ db.drainAgentInbox agentId rateLimit from rfl,
    List.map_flatMap, List.nodup_flatMap]
  refine ⟨fun agentId _ ↦ db.nodup_drainAgentInbox agentId rateLimit, hexpired.imp ?_⟩
  intro agentId target hne id hid hid'
  obtain ⟨d, hd, rfl⟩ := List.mem_map.mp hid
  obtain ⟨m, hm, rfl⟩ := mem_drainAgentInbox hd
  obtain ⟨hrow, hthread, -⟩ := mem_undelivered.mp hm
  exact not_mem_drainAgentInbox ⟨m, hrow, rfl, hthread⟩ (Or.inl hne.symm) hid'

/-- A tick reads the inboxes of the agents whose deadline has passed. -/
theorem mem_drainDndTick_iff {now : Int} {rateLimit : Nat}
    (hold : db.Holds (agentThread agentId) id) :
    id ∈ (db.drainDndTick now rateLimit).1.drainable.map DrainableMessage.id ↔
      agentId ∈ db.expiredDnd now ∧
        id ∈ (db.drainAgentInbox agentId rateLimit).map DrainableMessage.id := by
  rw [show (db.drainDndTick now rateLimit).1.drainable =
    (db.expiredDnd now).flatMap fun agentId ↦ db.drainAgentInbox agentId rateLimit from rfl,
    List.map_flatMap, List.mem_flatMap]
  constructor
  · rintro ⟨target, hexpired, hid⟩
    by_cases hne : target = agentId
    · exact hne ▸ ⟨hexpired, hid⟩
    · exact absurd hid (not_mem_drainAgentInbox hold (Or.inl hne))
  · exact fun h ↦ ⟨agentId, h⟩

/-- The message of a send was not there before. -/
theorem Stored.not_holds {db' : Db} {toAgentId threadId : String} {outcome : SendOutcome}
    {now : Int} (h : Stored db db' toAgentId outcome now) :
    ¬ db.Holds threadId outcome.messageId := by
  obtain ⟨row, hrows, hid, -, -⟩ := h.stored
  rintro ⟨m, hm, hm', -⟩
  have hnodup := db'.chatMessages.nodup
  rw [hrows, List.map_append, List.nodup_append] at hnodup
  exact hnodup.2.2 m.id (List.mem_map_of_mem hm) row.id (by simp) (hm'.trans hid.symm)

end Db

/-! ### Waiting and being drained -/

/-- A publication of the message. -/
def Action.publishes (id : String) : Action → Bool
  | publish _ frame => frame.messageId == id
  | agentSend _ _ _ | deliverResolved _ _ _ | deliverJob _ _ _ _ _ | collect _ _
  | deliverReminder _ _ | mark _ | setDnd _ _ | drainAgentInbox _ | drainDndTick | listen _ _
  | drainBacklog _ _ => false

/-- What a drain publishes of an inbox. -/
def Frame.isDrained (agentId id : String) : Frame → Bool
  | agentToAgent _ _ target messageId drainedFromDnd =>
    target == agentId && messageId == id && drainedFromDnd
  | callback _ _ _ _ | pool _ _ _ _ _ _ | reminder _ _ _ _ => false

/-- A drain has handed the message to a receiver. -/
def Event.drains (agentId id : String) : Event → Prop
  | published threadId frame subscribers =>
    threadId = agentThread agentId ∧ frame.isDrained agentId id = true ∧ 1 ≤ subscribers
  | forwarded _ _ | backlog _ _ _ | drained _ => False

instance (messageId : String) : DecidablePred (Event.handsOut messageId)
  | .published _ frame subscribers => inferInstanceAs
    (Decidable (frame.messageId = messageId ∧ (1 ≤ subscribers ∨ frame.isReminder = true)))
  | .backlog _ _ messages => inferInstanceAs (Decidable (messageId ∈ messages.map ChatMessage.id))
  | .forwarded _ _ | .drained _ => .isFalse id

/-- The deadline of an agent. -/
def Db.deadline (db : Db) (agentId : String) : Option Int :=
  (db.agent? agentId).bind Agent.dndUntilTs

namespace System

/-- A drain has read the message, and has not published or not marked it yet. -/
def InHand (s : System) (id : String) : Prop :=
  ∃ a ∈ s.pending, a.publishes id = true ∨ a = .mark id

instance (s : System) (id : String) : Decidable (s.HandedOut id) :=
  inferInstanceAs (Decidable (∃ e ∈ s.log, e.handsOut id))

instance (s : System) (id : String) : Decidable (s.InHand id) :=
  inferInstanceAs (Decidable (∃ a ∈ s.pending, a.publishes id = true ∨ a = .mark id))

/-- The message is handed out once, by a drain, and it has been when the deadline is gone and
nothing is on its way to the agent. -/
structure DrainedOnce (s : System) (agentId id : String) : Prop where
  once : s.log.countP (·.handsOut id) ≤ 1
  byDrain : ∀ e ∈ s.log, e.handsOut id → e.drains agentId id
  settled : s.db.deadline agentId = none → ¬ s.InFlight agentId → s.HandedOut id

/-- A send that leaves the message for later. -/
def Queues (uuids : Uuids) (s : System) (agentId id : String) : Op → Prop
  | .proceed i draw => ∃ fromAgentId content,
    s.tasks[i]?.bind List.head? = some (.agentSend fromAgentId agentId content) ∧
      ∃ ts, (s.db.sendMessage uuids draw.seed fromAgentId agentId content
        (s.clock - draw.lag)).map Prod.fst = .ok ⟨id, .queue ts⟩
  | .tick _ | .registry _ | .call _ | .forward _ | .disconnect _ => False

/-- A drain of the inbox now takes the message, and takes it alone: no more than ten unmarked
messages are as old, and it is in nobody's hand. -/
def InReach (s : System) (agentId id : String) : Prop :=
  (∀ m ∈ s.db.undelivered (agentThread agentId), m.id = id →
    (s.db.undelivered (agentThread agentId)).countP (fun m' ↦ m'.createdAt ≤ m.createdAt) ≤
      rateLimit) ∧
  ¬ s.InHand id

instance (s : System) (agentId id : String) : Decidable (s.InReach agentId id) :=
  inferInstanceAs (Decidable ((∀ m ∈ s.db.undelivered (agentThread agentId), m.id = id →
    (s.db.undelivered (agentThread agentId)).countP (fun m' ↦ m'.createdAt ≤ m.createdAt) ≤
      rateLimit) ∧ ¬ s.InHand id))

end System

/-- An action that leaves an unmarked message to a drain that takes it: the drains of its inbox
reach it, what they publish reaches a receiver, and no subscription reads the inbox. -/
def Action.Spares (s : System) (draw : Draw) (agentId id : String) : Action → Prop
  | drainAgentInbox target => target = agentId → s.InReach agentId id
  | drainDndTick => agentId ∈ s.db.expiredDnd (s.clock - draw.lag) → s.InReach agentId id
  | publish threadId frame =>
    frame.messageId = id → 1 ≤ s.receivers.countP fun r ↦ r.threadId == threadId
  | drainBacklog _ threadId => threadId ≠ agentThread agentId
  | agentSend _ _ _ | deliverResolved _ _ _ | deliverJob _ _ _ _ _ | collect _ _
  | deliverReminder _ _ | mark _ | setDnd _ _ | listen _ _ => True

/-- A step that takes no other action while the message is unmarked, and leaves the agent its
row. -/
def System.Spares (s : System) (agentId id : String) : Op → Prop
  | .proceed i draw => ¬ s.db.Marked id →
    ∀ action ∈ s.tasks[i]?.bind List.head?, action.Spares s draw agentId id
  | .registry rows => ¬ s.db.Marked id → (rows.get? agentId).isSome = true
  | .tick _ | .call _ | .forward _ | .disconnect _ => True

instance (s : System) (draw : Draw) (agentId id : String) :
    DecidablePred (Action.Spares s draw agentId id)
  | .drainAgentInbox target => inferInstanceAs (Decidable (target = agentId → s.InReach agentId id))
  | .drainDndTick => inferInstanceAs
    (Decidable (agentId ∈ s.db.expiredDnd (s.clock - draw.lag) → s.InReach agentId id))
  | .publish threadId frame => inferInstanceAs (Decidable
    (frame.messageId = id → 1 ≤ s.receivers.countP fun r ↦ r.threadId == threadId))
  | .drainBacklog _ threadId => inferInstanceAs (Decidable (threadId ≠ agentThread agentId))
  | .agentSend _ _ _ | .deliverResolved _ _ _ | .deliverJob _ _ _ _ _ | .collect _ _
  | .deliverReminder _ _ | .mark _ | .setDnd _ _ | .listen _ _ => .isTrue trivial

instance (s : System) (agentId id : String) : DecidablePred (s.Spares agentId id)
  | .proceed i draw => inferInstanceAs (Decidable (¬ s.db.Marked id →
    ∀ action ∈ s.tasks[i]?.bind List.head?, action.Spares s draw agentId id))
  | .registry rows =>
    inferInstanceAs (Decidable (¬ s.db.Marked id → (rows.get? agentId).isSome = true))
  | .tick _ | .call _ | .forward _ | .disconnect _ => .isTrue trivial

/-! ### One action -/

/-- An action that reads an inbox as a drain. -/
def Action.reads (s : System) (draw : Draw) (agentId : String) : Action → Bool
  | drainAgentInbox target => target == agentId
  | drainDndTick => (s.db.expiredDnd (s.clock - draw.lag)).contains agentId
  | agentSend _ _ _ | deliverResolved _ _ _ | deliverJob _ _ _ _ _ | collect _ _
  | deliverReminder _ _ | publish _ _ | mark _ | setDnd _ _ | listen _ _ | drainBacklog _ _ => false

/-- The publications of a message that an action leaves to do, and its hand-outs. -/
def Effect.weight (effect : Effect) (id : String) : Nat :=
  (effect.first ++ effect.last).countP (·.publishes id) + effect.events.countP (·.handsOut id)

namespace System

variable {s : System} {uuids : Uuids} {draw : Draw} {agentId id : String}

/-- A send concerns its own message. -/
theorem weight_store {fromAgentId toAgentId content threadId : String}
    {frames : SendOutcome → List Frame} (hold : s.db.Holds threadId id)
    (hframes : ∀ outcome, ∀ frame ∈ frames outcome, frame.messageId = outcome.messageId) :
    (s.store uuids draw fromAgentId toAgentId content frames).weight id = 0 := by
  rcases s.store_cases uuids draw fromAgentId toAgentId content frames with
    hidle | ⟨outcome, db, hstored, heq⟩
  · rw [hidle]
    rfl
  · have hfirst : ((frames outcome).map (Action.publish (agentThread toAgentId))).countP
        (·.publishes id) = 0 := by
      rw [List.countP_eq_zero]
      intro a ha hpublishes
      obtain ⟨frame, hframe, rfl⟩ := List.mem_map.mp ha
      have hid : frame.messageId = id := by simpa [Action.publishes] using hpublishes
      rw [hframes outcome frame hframe] at hid
      exact hstored.not_holds (hid ▸ hold)
    rw [heq]
    simp [Effect.weight, idle, hfirst]

/-- A drain publishes each message it has read. -/
theorem weight_snapshot {db : Db} {drainable : List DrainableMessage}
    (hnodup : (drainable.map DrainableMessage.id).Nodup) :
    Effect.weight { s.idle with
      db, first := drainable.map DrainableMessage.publication, events := [.drained drainable] } id =
      if id ∈ drainable.map DrainableMessage.id then 1 else 0 := by
  have hcount : (drainable.map DrainableMessage.publication).countP (·.publishes id) =
      (drainable.map DrainableMessage.id).count id := by
    rw [List.countP_map, List.count, List.countP_map]
    rfl
  have hevents : [Event.drained drainable].countP (·.handsOut id) = 0 := rfl
  rw [Effect.weight, show s.idle.last = [] from rfl, List.append_nil, hcount, hevents, Nat.add_zero,
    hnodup.count]

/-- A drain of the inbox within whose reach the message is takes it, unless it is marked. -/
theorem weight_drain {db : Db} {drainable : List DrainableMessage} {reads : Prop} [Decidable reads]
    (hnodup : (drainable.map DrainableMessage.id).Nodup)
    (hold : s.db.Holds (agentThread agentId) id)
    (hmem : id ∈ drainable.map DrainableMessage.id ↔
      reads ∧ id ∈ (s.db.drainAgentInbox agentId rateLimit).map DrainableMessage.id)
    (hreach : ¬ s.db.Marked id → reads → s.InReach agentId id) :
    Effect.weight { s.idle with
      db, first := drainable.map DrainableMessage.publication, events := [.drained drainable] } id =
      if ¬ s.db.Marked id ∧ reads then 1 else 0 := by
  rw [weight_snapshot hnodup]
  congr 1
  rw [hmem, eq_iff_iff]
  constructor
  · rintro ⟨hreads, hid⟩
    exact ⟨fun hmark ↦ Db.not_mem_drainAgentInbox hold (Or.inr hmark) hid, hreads⟩
  · rintro ⟨hmark, hreads⟩
    obtain ⟨m, hm, rfl⟩ := Db.exists_undelivered hold hmark
    exact ⟨hreads, Db.mem_drainAgentInbox_of_countP hm ((hreach hmark hreads).1 m hm rfl)⟩

/-- What is in somebody's hand stays in it until it is handed out, and a drain that reads the
inbox takes one unmarked message into its hand. -/
theorem weight_perform {action : Action} (hold : s.db.Holds (agentThread agentId) id)
    (hspares : ¬ s.db.Marked id → action.Spares s draw agentId id)
    (hpublishes : action.publishes id = true → ¬ s.db.Marked id) :
    (s.perform uuids draw action).weight id = (if action.publishes id = true then 1 else 0) +
      if ¬ s.db.Marked id ∧ action.reads s draw agentId = true then 1 else 0 := by
  have hquiet : action.publishes id = false → action.reads s draw agentId = false →
      (s.perform uuids draw action).weight id = 0 → (s.perform uuids draw action).weight id =
        (if action.publishes id = true then 1 else 0) +
          if ¬ s.db.Marked id ∧ action.reads s draw agentId = true then 1 else 0 := by
    intro hpublish hreads hweight
    simp [hpublish, hreads, hweight]
  cases action with
  | agentSend fromAgentId toAgentId content =>
    apply hquiet rfl rfl
    apply weight_store hold
    intro outcome frame hframe
    split at hframe
    · obtain rfl := List.mem_singleton.mp hframe
      rfl
    · cases hframe
  | deliverResolved | deliverJob | deliverReminder =>
    apply hquiet rfl rfl
    apply weight_store hold
    intro outcome frame hframe
    obtain rfl := List.mem_singleton.mp hframe
    rfl
  | collect r nowSecs =>
    apply hquiet rfl rfl
    simp only [perform]
    split <;> rfl
  | setDnd target dndUntilTs =>
    apply hquiet rfl rfl
    simp only [perform, idle]
    split <;> rfl
  | listen connection threadId => exact hquiet rfl rfl rfl
  | mark messageId => exact hquiet rfl rfl rfl
  | drainAgentInbox target =>
    have hmem : id ∈ (s.db.drainAgentInbox target rateLimit).map DrainableMessage.id ↔
        target = agentId ∧
          id ∈ (s.db.drainAgentInbox agentId rateLimit).map DrainableMessage.id := by
      by_cases htarget : target = agentId
      · subst htarget
        simp
      · exact iff_of_false (Db.not_mem_drainAgentInbox hold (Or.inl htarget)) fun h ↦ htarget h.1
    simp only [perform, Action.publishes, Action.reads, beq_iff_eq]
    rw [weight_drain (s.db.nodup_drainAgentInbox target rateLimit) hold hmem hspares]
    simp
  | drainDndTick =>
    simp only [perform, Action.publishes, Action.reads, List.contains_iff_mem]
    rw [weight_drain (s.db.nodup_drainDndTick _ rateLimit) hold (Db.mem_drainDndTick_iff hold)
      hspares]
    simp
  | publish threadId frame =>
    have hfirst : (s.perform uuids draw (.publish threadId frame)).first.countP
        (·.publishes id) = 0 := by
      simp only [perform]
      split <;> rfl
    by_cases hid : frame.messageId = id
    · -- the receivers are there, so that the publication hands the message out
      have hreached := hspares (hpublishes (by simp [Action.publishes, hid])) hid
      rw [Effect.weight, show (s.perform uuids draw (.publish threadId frame)).last = [] from rfl,
        List.append_nil, hfirst]
      simp [perform, Action.publishes, Action.reads, Event.handsOut, hid, hreached]
    · rw [Effect.weight, show (s.perform uuids draw (.publish threadId frame)).last = [] from rfl,
        List.append_nil, hfirst]
      simp [perform, Action.publishes, Action.reads, Event.handsOut, hid]
  | drainBacklog connection threadId =>
    have htaken : id ∉ (s.db.drainBacklog threadId s.clock).1.map ChatMessage.id := by
      intro hid
      obtain ⟨m, hm, rfl⟩ := List.mem_map.mp hid
      rw [Db.mem_drainBacklog] at hm
      have hmark := Db.not_marked (Db.mem_undelivered.mp hm).1 (Db.mem_undelivered.mp hm).2.2
      exact hspares hmark (Db.thread_of_mem_undelivered hm hold)
    apply hquiet rfl rfl
    have hevents : [Event.backlog connection threadId (s.db.drainBacklog threadId s.clock).1].countP
        (·.handsOut id) = 0 := List.countP_eq_zero.mpr fun e he ↦ by
      obtain rfl := List.mem_singleton.mp he
      simpa [Event.handsOut] using htaken
    exact (Nat.zero_add _).trans hevents

/-- A deadline goes when a drain reads the inbox, or is going to. -/
theorem deadline_perform {action : Action} (hold : s.db.deadline agentId ≠ none)
    (hgone : (s.perform uuids draw action).db.deadline agentId = none) :
    action.reads s draw agentId = true ∨
      .drainAgentInbox agentId ∈ (s.perform uuids draw action).first := by
  have hkept : ∀ {db : Db}, db.agentRegistry = s.db.agentRegistry → db.deadline agentId ≠ none := by
    intro db hdb
    rw [Db.deadline, Db.agent?, hdb]
    exact hold
  cases action with
  | agentSend | deliverResolved | deliverJob | deliverReminder =>
    refine absurd hgone (hkept ?_)
    simp only [perform]
    rcases s.store_cases uuids draw _ _ _ _ with hidle | ⟨outcome, db, hstored, heq⟩
    · rw [hidle]
      rfl
    · rw [heq]
      exact hstored.registry
  | collect r nowSecs =>
    refine absurd hgone (hkept ?_)
    simp only [perform]
    split <;> rfl
  | publish | mark | drainAgentInbox | listen | drainBacklog => exact absurd hgone (hkept rfl)
  | setDnd target dndUntilTs =>
    right
    obtain ⟨ts, hts⟩ := Option.ne_none_iff_exists'.mp hold
    obtain ⟨a, ha, hats⟩ := Option.bind_eq_some_iff.mp hts
    have hnow : (s.db.setDnd target dndUntilTs).2.deadline agentId = none := hgone
    rw [Db.deadline, Db.agent?_setDnd, ha] at hnow
    by_cases htarget : (a.agentId == target && a.isAlive) = true
    · rw [Option.map_some, if_pos htarget, Option.bind_some] at hnow
      obtain rfl : dndUntilTs = none := hnow
      obtain ⟨hrow, hid⟩ := Table.get?_eq_some_iff.mp ha
      have hupdated : (s.db.setDnd target none).1 ≠ 0 :=
        (List.countP_pos_iff.mpr ⟨a, hrow, htarget⟩).ne'
      simp only [Bool.and_eq_true, beq_iff_eq] at htarget
      obtain rfl : target = agentId := htarget.1.symm.trans hid
      simpa [perform] using hupdated
    · rw [Option.map_some, if_neg htarget, Option.bind_some, hats] at hnow
      cases hnow
  | drainDndTick =>
    left
    obtain ⟨ts, hts⟩ := Option.ne_none_iff_exists'.mp hold
    obtain ⟨a, ha, hats⟩ := Option.bind_eq_some_iff.mp hts
    have hnow : (s.db.drainDndTick (s.clock - draw.lag) rateLimit).2.deadline agentId = none :=
      hgone
    rw [Db.deadline, Db.agent?_drainDndTick, ha] at hnow
    by_cases hexpired : (s.db.expiredDnd (s.clock - draw.lag)).contains a.agentId = true
    · rw [(Table.get?_eq_some_iff.mp ha).2] at hexpired
      exact hexpired
    · rw [Option.map_some, if_neg hexpired, Option.bind_some, hats] at hnow
      cases hnow

/-- A drain publishes a message to the inbox it has read it from. -/
theorem isDrained_perform {action : Action} {threadId : String} {frame : Frame}
    (hold : s.db.Holds (agentThread agentId) frame.messageId)
    (h : .publish threadId frame ∈
      (s.perform uuids draw action).first ++ (s.perform uuids draw action).last) :
    threadId = agentThread agentId ∧ frame.isDrained agentId frame.messageId = true := by
  have hstore : ∀ {fromAgentId toAgentId content : String} {frames : SendOutcome → List Frame},
      (∀ outcome, ∀ frame ∈ frames outcome, frame.messageId = outcome.messageId) →
        .publish threadId frame ∉
          (s.store uuids draw fromAgentId toAgentId content frames).first ++
            (s.store uuids draw fromAgentId toAgentId content frames).last := by
    intro fromAgentId toAgentId content frames hframes hmem
    rw [last_store, List.append_nil] at hmem
    rcases s.store_cases uuids draw fromAgentId toAgentId content frames with
      hidle | ⟨outcome, db, hstored, heq⟩
    · rw [hidle] at hmem
      cases hmem
    · rw [heq] at hmem
      obtain ⟨frame', hframe, heq⟩ := List.mem_map.mp hmem
      cases heq
      rw [hframes outcome frame hframe] at hold
      exact hstored.not_holds hold
  have hdrained : ∀ {m : ChatMessage} {target : String}, m ∈ s.db.undelivered (agentThread target) →
      (DrainableMessage.of m).publication = .publish threadId frame →
        threadId = agentThread agentId ∧ frame.isDrained agentId frame.messageId = true := by
    intro m target hm heq
    cases heq
    have hthread : m.threadId = agentThread agentId := by
      rw [← Db.thread_of_mem_undelivered hm hold]
      exact (Db.mem_undelivered.mp hm).2.1
    refine ⟨hthread, ?_⟩
    have hstrip : stripPrefix "agent:" m.threadId = some agentId :=
      stripPrefix_eq_some_iff.mpr hthread
    simp [DrainableMessage.of, Frame.isDrained, Frame.messageId, hstrip]
  cases action with
  | agentSend fromAgentId toAgentId content =>
    refine absurd h (hstore ?_)
    intro outcome frame hframe
    split at hframe
    · obtain rfl := List.mem_singleton.mp hframe
      rfl
    · cases hframe
  | deliverResolved | deliverJob | deliverReminder =>
    refine absurd h (hstore ?_)
    intro outcome frame hframe
    obtain rfl := List.mem_singleton.mp hframe
    rfl
  | collect r nowSecs =>
    simp only [perform] at h
    split at h
    · cases h
    · cases List.mem_singleton.mp h
  | publish threadId' frame' =>
    simp only [perform, idle, List.append_nil] at h
    split at h
    · cases List.mem_singleton.mp h
    · cases h
  | setDnd target dndUntilTs =>
    simp only [perform, idle, List.append_nil] at h
    split at h
    · cases List.mem_singleton.mp h
    · cases h
  | drainAgentInbox target =>
    simp only [perform, idle, List.append_nil] at h
    obtain ⟨d, hd, heq⟩ := List.mem_map.mp h
    obtain ⟨m, hm, rfl⟩ := Db.mem_drainAgentInbox hd
    exact hdrained hm heq
  | drainDndTick =>
    simp only [perform, idle, List.append_nil] at h
    obtain ⟨d, hd, heq⟩ := List.mem_map.mp h
    obtain ⟨target, -, m, hm, rfl⟩ := Db.mem_drainDndTick hd
    exact hdrained hm heq
  | listen connection threadId' => cases List.mem_singleton.mp h
  | mark | drainBacklog => cases h

/-! ### Runs -/

/-- The publications of a message that are left to do, and its hand-outs. -/
def weight (s : System) (id : String) : Nat :=
  s.pending.countP (·.publishes id) + s.log.countP (·.handsOut id)

/-- A step of a task replaces one action. -/
theorem countP_pending_set {p : Action → Bool} {i : Nat} {action : Action}
    {rest first last : List Action} (hi : s.tasks[i]? = some (action :: rest)) :
    (s.tasks.set i (first ++ rest ++ last)).flatten.countP p + (if p action = true then 1 else 0) =
      s.pending.countP p + (first ++ last).countP p := by
  obtain ⟨hlt, hget⟩ := List.getElem?_eq_some_iff.mp hi
  obtain ⟨before, after, htasks, -, hset⟩ := @List.exists_of_set _ i (first ++ rest ++ last) _ hlt
  rw [hset, pending]
  conv_rhs => rw [htasks, hget]
  simp only [List.flatten_append, List.flatten_cons, List.countP_append, List.countP_cons]
  omega

/-- The message is in one hand at most, and while it is in none and was not handed out its agent
has a deadline, or a drain of the inbox is to come. -/
structure Spared (s : System) (agentId id : String) : Prop where
  accounted : s.Accounted
  holds : s.db.Holds (agentThread agentId) id
  once : s.weight id ≤ 1
  due : s.weight id = 0 → s.db.deadline agentId ≠ none ∨ .drainAgentInbox agentId ∈ s.pending
  publishing : ∀ threadId frame, .publish threadId frame ∈ s.pending → frame.messageId = id →
    threadId = agentThread agentId ∧ frame.isDrained agentId id = true
  byDrain : ∀ e ∈ s.log, e.handsOut id → e.drains agentId id

namespace Spared

/-- A marked message was handed out. -/
theorem handsOut_pos (hs : s.Spared agentId id) (hmark : s.db.Marked id) :
    0 < s.log.countP (·.handsOut id) := by
  obtain ⟨e, he, hout⟩ := hs.accounted.marked id hmark
  exact List.countP_pos_iff.mpr ⟨e, he, decide_eq_true hout⟩

/-- What is to be published is not marked. -/
theorem not_marked {action : Action} (hs : s.Spared agentId id) (haction : action ∈ s.pending)
    (hpublishes : action.publishes id = true) : ¬ s.db.Marked id := by
  intro hmark
  have hlog := hs.handsOut_pos hmark
  have hpending : 0 < s.pending.countP (·.publishes id) :=
    List.countP_pos_iff.mpr ⟨action, haction, hpublishes⟩
  have honce := hs.once
  unfold weight at honce
  omega

/-- An unmarked message in nobody's hand was not handed out. -/
theorem weight_eq_zero (hs : s.Spared agentId id) (hmark : ¬ s.db.Marked id)
    (hhand : ¬ s.InHand id) : s.weight id = 0 := by
  have hpending : s.pending.countP (·.publishes id) = 0 :=
    List.countP_eq_zero.mpr fun a ha hpublishes ↦ hhand ⟨a, ha, Or.inl hpublishes⟩
  have hlog : s.log.countP (·.handsOut id) = 0 := by
    refine List.countP_eq_zero.mpr fun e he hout ↦ ?_
    have hout : e.handsOut id := of_decide_eq_true hout
    have hdrains := hs.byDrain e he hout
    cases e with
    | published threadId frame subscribers =>
      obtain ⟨-, hframe, hreached⟩ := hdrains
      obtain ⟨rfl, -⟩ := hout
      have hmarks : frame.marks subscribers = true := by
        cases frame with
        | agentToAgent => simpa [Frame.marks] using hreached
        | callback | pool | reminder => cases hframe
      rcases hs.accounted.recorded threadId frame subscribers he hmarks with hold | hpending
      · exact hmark hold
      · exact hhand ⟨_, hpending, Or.inr rfl⟩
    | forwarded | backlog | drained => cases hdrains
  unfold weight
  omega

/-- What happens beside the tasks' own steps. -/
theorem of_quiet {s' : System} {more : List Action} {es : List Event} (hs : s.Spared agentId id)
    (haccounted : s'.Accounted) (hdb : s'.db.chatMessages = s.db.chatMessages)
    (hdeadline : s.weight id = 0 → s.db.deadline agentId ≠ none → s'.db.deadline agentId ≠ none)
    (hpending : s'.pending = s.pending ++ more) (hmore : ∀ a ∈ more, a.publishes id = false)
    (hlog : s'.log = s.log ++ es) (hes : ∀ e ∈ es, ¬ e.handsOut id) : s'.Spared agentId id := by
  have hweight : s'.weight id = s.weight id := by
    have hpublishing : more.countP (·.publishes id) = 0 :=
      List.countP_eq_zero.mpr fun a ha hpublishes ↦ by simp [hmore a ha] at hpublishes
    have hout : es.countP (·.handsOut id) = 0 :=
      List.countP_eq_zero.mpr fun e he hout ↦ hes e he (of_decide_eq_true hout)
    rw [weight, weight, hpending, hlog, List.countP_append, List.countP_append, hpublishing, hout]
    rfl
  constructor
  case accounted => exact haccounted
  case holds => exact (Db.holds_congr hdb).mpr hs.holds
  case once => exact hweight ▸ hs.once
  case due =>
    intro hzero
    rw [hweight] at hzero
    rw [hpending]
    exact (hs.due hzero).imp (hdeadline hzero) (List.mem_append_left _)
  case publishing =>
    intro threadId frame hmem hid
    rw [hpending] at hmem
    rcases List.mem_append.mp hmem with hmem | hmem
    · exact hs.publishing threadId frame hmem hid
    · simpa [Action.publishes, hid] using hmore _ hmem
  case byDrain =>
    intro e he hout
    rw [hlog] at he
    rcases List.mem_append.mp he with he | he
    · exact hs.byDrain e he hout
    · exact absurd hout (hes e he)

/-- A task takes an action that spares the message. -/
theorem proceed {i : Nat} {action : Action} {rest : List Action} (hs : s.Spared agentId id)
    (hi : s.tasks[i]? = some (action :: rest))
    (hspares : ¬ s.db.Marked id → action.Spares s draw agentId id)
    (haccounted : (s.next uuids (.proceed i draw)).Accounted)
    (hnext : s.next uuids (.proceed i draw) =
      { s with
        db := (s.perform uuids draw action).db
        receivers := (s.perform uuids draw action).receivers
        tasks := s.tasks.set i
          ((s.perform uuids draw action).first ++ rest ++ (s.perform uuids draw action).last)
        log := s.log ++ (s.perform uuids draw action).events }) :
    (s.next uuids (.proceed i draw)).Spared agentId id := by
  have haction := mem_pending_of_head hi
  have heffect := s.perform_accounts uuids draw action
  have hperform :=
    @weight_perform s uuids draw agentId id action hs.holds hspares (hs.not_marked haction)
  have hset := @countP_pending_set s (·.publishes id) i action rest
    (s.perform uuids draw action).first (s.perform uuids draw action).last hi
  -- an action takes the message into its hand only when nobody has it
  have hweight : (s.next uuids (.proceed i draw)).weight id = s.weight id +
      if ¬ s.db.Marked id ∧ action.reads s draw agentId = true then 1 else 0 := by
    rw [hnext]
    unfold Effect.weight at hperform
    unfold weight pending
    dsimp only
    rw [List.countP_append]
    unfold pending at hset
    omega
  have htakes : ¬ s.db.Marked id → action.reads s draw agentId = true → s.weight id = 0 := by
    intro hmark hreads
    apply hs.weight_eq_zero hmark
    cases action with
    | drainAgentInbox target => exact (hspares hmark (by simpa [Action.reads] using hreads)).2
    | drainDndTick => exact (hspares hmark (by simpa [Action.reads] using hreads)).2
    | _ => cases hreads
  constructor
  case accounted => exact haccounted
  case holds =>
    rw [hnext]
    exact heffect.stored _ _ hs.holds
  case once =>
    rw [hweight]
    split
    · next htaken => rw [htakes htaken.1 htaken.2]
    · exact hs.once
  case due =>
    intro hzero
    have hnone : s.weight id = 0 := by omega
    have hreads : action.reads s draw agentId = false := by
      by_contra hreads
      have hmark : ¬ s.db.Marked id := fun hmark ↦ by
        have hpos := hs.handsOut_pos hmark
        unfold weight at hnone
        omega
      rw [hweight, if_pos ⟨hmark, by simpa using hreads⟩] at hzero
      omega
    rw [hnext]
    by_cases hgone : (s.perform uuids draw action).db.deadline agentId = none
    · right
      rcases hs.due hnone with hdeadline | hpending
      · have hdrain := (deadline_perform hdeadline hgone).resolve_left (by simp [hreads])
        exact mem_pending_set_of_first hi hdrain
      · refine (mem_pending_set_of_mem hi hpending).resolve_left ?_
        rintro rfl
        simp [Action.reads] at hreads
    · exact Or.inl hgone
  case publishing =>
    intro threadId frame hmem hid
    rw [hnext] at hmem
    rcases mem_pending_set hi hmem with hmem | hmem
    · exact hs.publishing threadId frame hmem hid
    · subst hid
      exact isDrained_perform hs.holds hmem
  case byDrain =>
    intro e he hout
    rw [hnext] at he
    rcases List.mem_append.mp he with he | he
    · exact hs.byDrain e he hout
    · cases e with
      | published threadId frame subscribers =>
        obtain ⟨rfl, -⟩ := heffect.published _ _ _ he
        obtain ⟨hid, hreached⟩ := hout
        obtain ⟨hthread, hframe⟩ := hs.publishing threadId frame haction hid
        refine ⟨hthread, hframe, hreached.resolve_right fun hreminder ↦ ?_⟩
        cases frame with
        | reminder => cases hframe
        | _ => cases hreminder
      | backlog connection threadId messages =>
        obtain ⟨rfl, rfl⟩ := backlog_of_perform he
        have hpos : 0 < (s.perform uuids draw (.drainBacklog connection threadId)).weight id := by
          have hcount : 0 < (s.perform uuids draw (.drainBacklog connection threadId)).events.countP
              (·.handsOut id) := List.countP_pos_iff.mpr ⟨_, he, decide_eq_true hout⟩
          unfold Effect.weight
          omega
        rw [hperform] at hpos
        simp [Action.publishes, Action.reads] at hpos
      | forwarded | drained => cases hout

end Spared

/-- A step that spares the message. -/
theorem spared_next {op : Op} (hs : s.Spared agentId id) (hspares : s.Spares agentId id op) :
    (s.next uuids op).Spared agentId id := by
  have haccounted := @accounted_next uuids s hs.accounted op
  cases op with
  | tick ms =>
    exact hs.of_quiet haccounted rfl (fun _ h ↦ h) (List.append_nil _).symm (List.forall_mem_nil _) rfl
      (List.forall_mem_nil _)
  | disconnect connection =>
    exact hs.of_quiet haccounted rfl (fun _ h ↦ h) (List.append_nil _).symm (List.forall_mem_nil _) rfl
      (List.forall_mem_nil _)
  | registry rows =>
    refine hs.of_quiet haccounted rfl ?_ (List.append_nil _).symm (List.forall_mem_nil _) rfl
      (List.forall_mem_nil _)
    intro hzero hdeadline
    have hmark : ¬ s.db.Marked id := fun hmark ↦ by
      have hpos := hs.handsOut_pos hmark
      unfold weight at hzero
      omega
    obtain ⟨a, ha⟩ := Option.isSome_iff_exists.mp (hspares hmark)
    show (s.db.registered rows).deadline agentId ≠ none
    rw [Db.deadline, Db.agent?, Db.registered]
    dsimp only
    rw [Table.get?_update, ha, Option.map_some, Option.bind_some, if_pos rfl,
      (Table.get?_eq_some_iff.mp ha).2]
    exact hdeadline
  | call c =>
    have hpending : (s.next uuids (.call c)).pending = s.pending ++ c.actions s.clock := by
      simp [next, step, pending]
    have hlog : (s.next uuids (.call c)).log = s.log ++ [] := rfl
    refine hs.of_quiet haccounted rfl (fun _ h ↦ h) hpending ?_ hlog (List.forall_mem_nil _)
    intro a ha
    cases a with
    | publish threadId frame => exact absurd rfl ((actions_quiet ha).1 threadId frame)
    | _ => rfl
  | forward i =>
    obtain ⟨receivers, hnext, -, hes⟩ := s.forward_cases i
    rw [hnext] at haccounted ⊢
    refine hs.of_quiet haccounted rfl (fun _ h ↦ h) (List.append_nil _).symm
      (List.forall_mem_nil _) rfl ?_
    intro e he hout
    obtain ⟨connection, r, -, frame, -, rfl⟩ := hes e he
    cases hout
  | proceed i draw =>
    rcases s.proceed_cases i draw with ⟨hsame, -⟩ | ⟨action, rest, hi, -, hnext⟩
    · rw [hsame]
      exact hs
    · exact hs.proceed hi (fun hmark ↦ hspares hmark action (by simp [hi])) haccounted hnext

/-- Only stored messages are handed out. -/
def Known (s : System) : Prop :=
  ∀ e ∈ s.log, ∀ id, e.handsOut id → ∃ threadId, s.db.Holds threadId id

theorem known_next {op : Op} (hs : s.Accounted) (hknown : s.Known) : (s.next uuids op).Known := by
  cases op with
  | proceed i draw =>
    rcases s.proceed_cases i draw with ⟨hsame, -⟩ | ⟨action, rest, hi, -, hnext⟩
    · rw [hsame]
      exact hknown
    · have heffect := s.perform_accounts uuids draw action
      rw [hnext]
      intro e he id hout
      rcases List.mem_append.mp he with he | he
      · obtain ⟨threadId, hold⟩ := hknown e he id hout
        exact ⟨threadId, heffect.stored _ _ hold⟩
      · cases e with
        | published threadId frame subscribers =>
          obtain ⟨rfl, -⟩ := heffect.published _ _ _ he
          obtain ⟨rfl, -⟩ := hout
          exact ⟨threadId, heffect.stored _ _ (hs.queued threadId frame (mem_pending_of_head hi))⟩
        | backlog connection threadId messages =>
          obtain ⟨rfl, rfl⟩ := backlog_of_perform he
          obtain ⟨m, hm, rfl⟩ := List.mem_map.mp hout
          have hrow := Db.mem_undelivered.mp (Db.mem_drainBacklog.mp hm)
          exact ⟨threadId, Db.holds_drainBacklog ⟨m, hrow.1, rfl, hrow.2.1⟩⟩
        | forwarded | drained => cases hout
  | forward i =>
    obtain ⟨receivers, hnext, -, hes⟩ := s.forward_cases i
    rw [hnext]
    intro e he id hout
    rcases List.mem_append.mp he with he | he
    · exact hknown e he id hout
    · obtain ⟨connection, r, -, frame, -, rfl⟩ := hes e he
      cases hout
  | _ =>
    intro e he id hout
    exact hknown e ((List.append_nil s.log) ▸ he) id hout

theorem known_run (ops : List Op) : (run (next uuids) fresh ops).Known := by
  have hboth : (run (next uuids) fresh ops).Accounted ∧ (run (next uuids) fresh ops).Known := by
    refine invariant_of_run (I := fun s : System ↦ s.Accounted ∧ s.Known) ?_ ?_
    · exact ⟨accounted_fresh, fun e he ↦ nomatch he⟩
    · intro t ht hbefore
      rw [after_of_mem_trace ht]
      exact ⟨accounted_next hbefore.1 t.op, known_next hbefore.1 hbefore.2⟩
  exact hboth.2

/-- A message that was just queued waits for the deadline of its agent. -/
theorem spared_of_queues {op : Op} (hs : s.Accounted) (hknown : s.Known)
    (hqueues : s.Queues uuids agentId id op) : (s.next uuids op).Spared agentId id := by
  have haccounted := @accounted_next uuids s hs op
  cases op with
  | proceed i draw =>
    obtain ⟨fromAgentId, content, haction, ts, hsent⟩ := hqueues
    obtain ⟨⟨outcome, db⟩, hsent, rfl⟩ := map_eq_ok.mp hsent
    have hstored := Db.sendMessage_ok hsent
    have hperform : s.perform uuids draw (.agentSend fromAgentId agentId content) =
        { s.idle with db } := by
      simp only [perform, store, hsent]
      rfl
    have hnew : ∀ threadId, ¬ s.db.Holds threadId id := fun threadId ↦ hstored.not_holds
    obtain ⟨task, hi, hhead⟩ := Option.bind_eq_some_iff.mp haction
    obtain ⟨rest, rfl⟩ := List.head?_eq_some_iff.mp hhead
    have hnext : s.next uuids (.proceed i draw) =
        { s with db, tasks := s.tasks.set i ([] ++ rest ++ []), log := s.log ++ [] } := by
      simp only [next, step, hi, hperform]
      rfl
    have hpending : ∀ a ∈ (s.next uuids (.proceed i draw)).pending, a ∈ s.pending := by
      intro a ha
      rw [hnext] at ha
      exact (mem_pending_set hi ha).resolve_right List.not_mem_nil
    have hpublishing : ∀ threadId frame,
        .publish threadId frame ∈ (s.next uuids (.proceed i draw)).pending → frame.messageId ≠ id :=
      fun threadId frame hmem hid ↦ hnew threadId (hid ▸ hs.queued threadId frame (hpending _ hmem))
    have hout : ∀ e ∈ (s.next uuids (.proceed i draw)).log, ¬ e.handsOut id := by
      intro e he hout
      rw [hnext] at he
      obtain ⟨threadId, hold⟩ := hknown e (by simpa using he) id hout
      exact hnew threadId hold
    constructor
    case accounted => exact haccounted
    case holds =>
      rw [hnext]
      exact hstored.holds
    case once =>
      have hnone : (s.next uuids (.proceed i draw)).pending.countP (·.publishes id) = 0 := by
        refine List.countP_eq_zero.mpr fun a ha hpublishes ↦ ?_
        cases a with
        | publish threadId frame =>
          exact hpublishing threadId frame ha (by simpa [Action.publishes] using hpublishes)
        | _ => cases hpublishes
      have hlog : (s.next uuids (.proceed i draw)).log.countP (·.handsOut id) = 0 :=
        List.countP_eq_zero.mpr fun e he h ↦ hout e he (of_decide_eq_true h)
      rw [weight, hnone, hlog]
      exact Nat.zero_le 1
    case due =>
      intro _
      left
      obtain ⟨a, ha, hdecision⟩ := hstored.decided
      rw [hnext, Db.deadline, Db.agent?, hstored.registry]
      rw [show s.db.agentRegistry.get? agentId = some a from ha, Option.bind_some]
      intro hnone
      simp [Agent.decision, hnone] at hdecision
    case publishing =>
      exact fun threadId frame hmem hid ↦ absurd hid (hpublishing threadId frame hmem)
    case byDrain => exact fun e he h ↦ absurd h (hout e he)
  | _ => cases hqueues

/-- A message that was spared is handed out once when its deadline has gone. -/
theorem Spared.drainedOnce (hs : s.Spared agentId id) : s.DrainedOnce agentId id where
  once := (Nat.le_add_left _ _).trans hs.once
  byDrain := hs.byDrain
  settled hgone hflight := by
    by_contra hout
    have hlog : s.log.countP (·.handsOut id) = 0 :=
      List.countP_eq_zero.mpr fun e he h ↦ hout ⟨e, he, of_decide_eq_true h⟩
    have hpending : s.pending.countP (·.publishes id) = 0 := by
      refine List.countP_eq_zero.mpr fun a ha hpublishes ↦ hflight ⟨a, ha, ?_⟩
      cases a with
      | publish threadId frame =>
        exact (hs.publishing threadId frame ha (by simpa [Action.publishes] using hpublishes)).1
      | _ => cases hpublishes
    rcases hs.due (by rw [weight, hpending, hlog]) with hdeadline | hdrain
    · exact hdeadline hgone
    · exact hflight ⟨_, hdrain, rfl⟩

end System

/-- In every run in which the drains of an inbox find a queued message among the ten oldest and in
nobody's hand, publish it to a receiver, and no subscription reads the inbox before, the message
is handed out at most once, by a drain, and it has been when the deadline of its agent has gone
and nothing is on its way to it. -/
theorem queued_drained_once (uuids : Uuids) (before after : List Op) (op : Op) (agentId id : String)
    (hqueues : (run (System.next uuids) .fresh before).Queues uuids agentId id op)
    (hspares : ∀ t ∈ trace (System.next uuids) (run (System.next uuids) .fresh (before ++ [op]))
      after, t.before.Spares agentId id t.op) :
    (run (System.next uuids) .fresh (before ++ op :: after)).DrainedOnce agentId id := by
  have hstart : (run (System.next uuids) .fresh (before ++ [op])).Spared agentId id := by
    rw [run_concat]
    exact System.spared_of_queues (System.accounted_run before) (System.known_run before) hqueues
  have hend : (run (System.next uuids) (run (System.next uuids) .fresh (before ++ [op]))
      after).Spared agentId id := by
    refine invariant_of_run (I := fun s : System ↦ s.Spared agentId id) hstart ?_
    intro t ht hbefore
    rw [after_of_mem_trace ht]
    exact System.spared_next hbefore (hspares t ht)
  rw [List.append_cons, run_append]
  exact hend.drainedOnce

/-- The longest of some ids. -/
def longest (taken : List String) : Nat := taken.foldr (fun id n ↦ max id.toList.length n) 0

theorem length_le_longest {taken : List String} {id : String} (h : id ∈ taken) :
    id.toList.length ≤ longest taken := by
  induction taken with
  | nil => cases h
  | cons first rest ih =>
    rcases List.mem_cons.mp h with rfl | h
    · exact Nat.le_max_left _ _
    · exact (ih h).trans (Nat.le_max_right _ _)

/-- Ids longer by a letter than those that are taken. -/
def counted : Uuids where
  new taken _ := String.ofList (List.replicate (longest taken + 1) 'i')
  new_not_mem taken _ h := by
    have hle := length_le_longest h
    rw [String.toList_ofList, List.length_replicate] at hle
    omega
  parses _ := false

/-- A session is subscribed, and its agent is not to be disturbed for a second. -/
def awayRun : List Op :=
  .registry onlineAgent :: subscribed 1 0 ++ [.call (.setDnd "a" (some 1000)), .proceed 1 ⟨0, 0⟩]

/-- `n` messages of another agent, from a task on. -/
def sends (task : Nat) : Nat → List Op
  | 0 => []
  | n + 1 => .call (.agentSend "b" "a" "hello") :: .proceed task ⟨0, 0⟩ :: sends (task + 1) n

/-- The second is over, and a tick goes through with the task that publishes `n` messages. -/
def backRun (task n : Nat) : List Op :=
  .tick 1001 :: .call .dndDrainTick :: List.replicate (2 * n + 1) (.proceed task ⟨0, 0⟩)

/-- The last of three messages. -/
theorem queued_drained_once_three :
    let s := run (System.next counted) .fresh
      ((awayRun ++ sends 2 2 ++ [.call (.agentSend "b" "a" "hello")]) ++
        .proceed 4 ⟨0, 0⟩ :: backRun 5 3)
    s.db.deadline "a" = none ∧ ¬ s.InFlight "a" ∧ s.DrainedOnce "a" "iii" :=
  ⟨by decide +kernel, by decide +kernel,
    queued_drained_once counted (awayRun ++ sends 2 2 ++ [.call (.agentSend "b" "a" "hello")])
      (backRun 5 3) (.proceed 4 ⟨0, 0⟩) "a" "iii"
      ⟨"b", "hello", by decide +kernel, 1000, by decide +kernel⟩ (by decide +kernel)⟩

/-- Two explicit offs, the second before the first one has published what it read. -/
def offTwiceRun (task : Nat) : List Op :=
  [.call (.setDnd "a" none), .call (.setDnd "a" none), .proceed task ⟨0, 0⟩,
    .proceed task ⟨0, 0⟩, .proceed (task + 1) ⟨0, 0⟩, .proceed (task + 1) ⟨0, 0⟩,
    .proceed task ⟨0, 0⟩, .proceed task ⟨0, 0⟩, .proceed (task + 1) ⟨0, 0⟩,
    .proceed (task + 1) ⟨0, 0⟩]

/-- Of eleven messages the tick that clears the deadline leaves the last one, and a message read
by two drains is handed out twice. -/
theorem queued_drained_once_eleven :
    (let first := run (System.next counted) .fresh
        (awayRun ++ sends 2 10 ++ [.call (.agentSend "b" "a" "hello")])
      let s := run (System.next counted) first (.proceed 12 ⟨0, 0⟩ :: backRun 13 10)
      first.Queues counted "a" "iiiiiiiiiii" (.proceed 12 ⟨0, 0⟩) ∧
        s.db.deadline "a" = none ∧ ¬ s.InFlight "a" ∧ ¬ s.HandedOut "iiiiiiiiiii") ∧
    let first := run (System.next counted) .fresh
      (awayRun ++ [.call (.agentSend "b" "a" "hello")])
    first.Queues counted "a" "i" (.proceed 2 ⟨0, 0⟩) ∧
      (run (System.next counted) first (.proceed 2 ⟨0, 0⟩ :: offTwiceRun 3)).log.countP
        (·.handsOut "i") = 2 := by
  refine ⟨⟨⟨"b", "hello", ?_, 1000, ?_⟩, ?_, ?_, ?_⟩, ⟨"b", "hello", ?_, 1000, ?_⟩, ?_⟩
  all_goals decide +kernel

end Claudebase.Inbox
