import Claudebase.Inbox.Once

/-!
# Do not disturb

The deadline of an agent is read where a message is stored, where a reminder looks for its
author, and by the drains. What is on its way to the agent, between that and its publication,
is on its way to an agent that may be disturbed, as long as the senders that do not ask, the
subscriptions and the agent itself leave it so.
-/

namespace Claudebase.Inbox
open Claudebase.Base
open Telegram (ChatMessage Uuids)

/-! ### On its way -/

/-- What reaches an agent: a publication to its inbox, or messages in a backlog of it. -/
def Event.reaches (agentId : String) : Event → Prop
  | published threadId _ _ => threadId = agentThread agentId
  | backlog _ threadId messages => threadId = agentThread agentId ∧ messages ≠ []
  | forwarded _ _ | drained _ => False

/-- What is going to be published to an agent without asking again. -/
def Action.isFor (agentId : String) : Action → Prop
  | publish threadId _ => threadId = agentThread agentId
  | deliverReminder _ target | drainAgentInbox target => target = agentId
  | agentSend _ _ _ | deliverResolved _ _ _ | deliverJob _ _ _ _ _ | collect _ _ | mark _
  | setDnd _ _ | drainDndTick | listen _ _ | drainBacklog _ _ => False

/-- A message is between the decision about it, or its drain, and its publication. -/
def System.InFlight (s : System) (agentId : String) : Prop := ∃ a ∈ s.pending, a.isFor agentId

/-- An action that leaves an agent in peace while its deadline lies ahead: the senders that do
not ask store nothing for it, a subscription finds nothing waiting, and the deadline is not put
ahead while a message is in flight. -/
def Action.Heeds (s : System) : Action → Prop
  | deliverResolved agentId _ _ => ¬ s.db.InDnd agentId s.clock
  | deliverJob _ worker _ _ _ => ¬ s.db.InDnd worker s.clock
  | drainBacklog _ threadId => ∀ a ∈ s.db.agentRegistry.rows, threadId = agentThread a.agentId →
    a.inDnd s.clock = true → s.db.undelivered threadId = []
  | setDnd agentId dndUntilTs => (∃ ts ∈ dndUntilTs, s.clock < ts) → ¬ s.InFlight agentId
  | agentSend _ _ _ | collect _ _ | deliverReminder _ _ | publish _ _ | mark _
  | drainAgentInbox _ | drainDndTick | listen _ _ => True

/-- A step that takes no other action. -/
def System.Heeds (s : System) : Op → Prop
  | .proceed i _ => ∀ action ∈ s.tasks[i]?.bind List.head?, action.Heeds s
  | .tick _ | .registry _ | .call _ | .forward _ | .disconnect _ => True

instance (agentId : String) : DecidablePred (Action.isFor agentId)
  | .publish _ _ | .deliverReminder _ _ | .drainAgentInbox _ => inferInstanceAs (Decidable (_ = _))
  | .agentSend _ _ _ | .deliverResolved _ _ _ | .deliverJob _ _ _ _ _ | .collect _ _ | .mark _
  | .setDnd _ _ | .drainDndTick | .listen _ _ | .drainBacklog _ _ => .isFalse id

instance (s : System) (agentId : String) : Decidable (s.InFlight agentId) :=
  inferInstanceAs (Decidable (∃ a ∈ s.pending, a.isFor agentId))

instance (s : System) : DecidablePred (Action.Heeds s)
  | .deliverResolved agentId _ _ | .deliverJob _ agentId _ _ _ =>
    inferInstanceAs (Decidable (¬ s.db.InDnd agentId s.clock))
  | .drainBacklog _ threadId =>
    inferInstanceAs (Decidable (∀ a ∈ s.db.agentRegistry.rows, threadId = agentThread a.agentId →
      a.inDnd s.clock = true → s.db.undelivered threadId = []))
  | .setDnd agentId dndUntilTs =>
    inferInstanceAs (Decidable ((∃ ts ∈ dndUntilTs, s.clock < ts) → ¬ s.InFlight agentId))
  | .agentSend _ _ _ | .collect _ _ | .deliverReminder _ _ | .publish _ _ | .mark _
  | .drainAgentInbox _ | .drainDndTick | .listen _ _ => .isTrue trivial

instance (s : System) : DecidablePred s.Heeds
  | .proceed i _ =>
    inferInstanceAs (Decidable (∀ action ∈ s.tasks[i]?.bind List.head?, action.Heeds s))
  | .tick _ | .registry _ | .call _ | .forward _ | .disconnect _ => .isTrue trivial

/-! ### One action -/

namespace System

variable {s : System} {uuids : Uuids} {draw : Draw}

/-- A deadline comes to lie ahead only when the agent says so. -/
theorem inDnd_perform {action : Action} {agentId : String}
    (h : (s.perform uuids draw action).db.InDnd agentId s.clock) :
    s.db.InDnd agentId s.clock ∨ ∃ ts, action = .setDnd agentId (some ts) ∧ s.clock < ts := by
  have hstore : ∀ {fromAgentId toAgentId content frames},
      (s.store uuids draw fromAgentId toAgentId content frames).db.InDnd agentId s.clock →
        s.db.InDnd agentId s.clock := by
    intro fromAgentId toAgentId content frames h
    rcases s.store_cases uuids draw fromAgentId toAgentId content frames with
      hidle | ⟨outcome, db, hstored, heq⟩
    · rw [hidle] at h
      exact h
    · rw [heq] at h
      exact (Db.inDnd_congr hstored.registry).mp h
  cases action with
  | agentSend | deliverResolved | deliverJob | deliverReminder => exact Or.inl (hstore h)
  | collect r nowSecs =>
    simp only [perform] at h
    split at h <;> exact Or.inl h
  | setDnd target dndUntilTs =>
    rcases Db.inDnd_setDnd h with hold | ⟨rfl, ts, rfl, hlt⟩
    · exact Or.inl hold
    · exact Or.inr ⟨ts, rfl, hlt⟩
  | drainDndTick =>
    have hticked : (s.db.drainDndTick (s.clock - draw.lag) rateLimit).2.InDnd agentId s.clock := h
    exact Or.inl (Db.inDnd_drainDndTick hticked).1
  | publish | mark | drainAgentInbox | listen | drainBacklog => exact Or.inl h

/-- What is in flight is in flight to agents that may be disturbed. -/
structure Undisturbed (s : System) : Prop where
  collecting : ∀ r nowSecs, .collect r nowSecs ∈ s.pending → nowSecs * 1000 ≤ s.clock
  awake : ∀ agentId, s.InFlight agentId → ¬ s.db.InDnd agentId s.clock

/-- What a send puts in flight goes to its target. -/
theorem isFor_store {fromAgentId toAgentId content agentId : String}
    {frames : SendOutcome → List Frame} {a : Action}
    (h : a ∈ (s.store uuids draw fromAgentId toAgentId content frames).first)
    (hfor : a.isFor agentId) :
    agentId = toAgentId ∧ ∃ outcome db, Db.Stored s.db db toAgentId outcome (s.clock - draw.lag) ∧
      frames outcome ≠ [] := by
  rcases s.store_cases uuids draw fromAgentId toAgentId content frames with
    hidle | ⟨outcome, db, hstored, heq⟩
  · rw [hidle] at h
    cases h
  · rw [heq] at h
    obtain ⟨frame, hframe, rfl⟩ := List.mem_map.mp h
    exact ⟨(agentThread_inj.mp hfor).symm, outcome, db, hstored, List.ne_nil_of_mem hframe⟩

/-- A message read from an inbox is published to its agent. -/
theorem isFor_publication {m : ChatMessage} {agentId target : String}
    (hm : m ∈ s.db.undelivered (agentThread target))
    (hfor : (DrainableMessage.of m).publication.isFor agentId) : agentId = target := by
  have hthread : m.threadId = agentThread agentId := hfor
  rw [(Db.mem_undelivered.mp hm).2.1] at hthread
  exact (agentThread_inj.mp hthread).symm

/-- What an action puts in flight goes to an agent that may be disturbed. -/
theorem awake_perform {action a : Action} {agentId : String} (hs : s.Undisturbed)
    (haction : action ∈ s.pending) (hheeds : action.Heeds s)
    (ha : a ∈ (s.perform uuids draw action).first ++ (s.perform uuids draw action).last)
    (hfor : a.isFor agentId) : ¬ (s.perform uuids draw action).db.InDnd agentId s.clock := by
  intro hdnd
  have hold := inDnd_perform hdnd
  have hlater : s.clock - (draw.lag : Int) ≤ s.clock := by omega
  cases action with
  | agentSend fromAgentId toAgentId content =>
    rw [show (s.perform uuids draw (.agentSend fromAgentId toAgentId content)).last = [] from
      last_store .., List.append_nil] at ha
    obtain ⟨rfl, outcome, db, hstored, hne⟩ := isFor_store ha hfor
    have hdeliver : outcome.decision = .deliver := by
      cases hdecision : outcome.decision with
      | deliver => rfl
      | queue ts => simp [hdecision] at hne
    rcases hold with hold | ⟨ts, heq, -⟩
    · apply hstored.not_inDnd hdeliver
      exact (Db.inDnd_congr hstored.registry).mpr (hold.mono hlater)
    · cases heq
  | deliverResolved target body label =>
    rw [show (s.perform uuids draw (.deliverResolved target body label)).last = [] from
      last_store .., List.append_nil] at ha
    obtain ⟨rfl, -⟩ := isFor_store ha hfor
    exact hheeds (hold.resolve_right (by nofun))
  | deliverJob pool worker reqId callType line =>
    rw [show (s.perform uuids draw (.deliverJob pool worker reqId callType line)).last = [] from
      last_store .., List.append_nil] at ha
    obtain ⟨rfl, -⟩ := isFor_store ha hfor
    exact hheeds (hold.resolve_right (by nofun))
  | deliverReminder r target =>
    rw [show (s.perform uuids draw (.deliverReminder r target)).last = [] from
      last_store .., List.append_nil] at ha
    obtain ⟨rfl, -⟩ := isFor_store ha hfor
    exact hs.awake _ ⟨_, haction, rfl⟩ (hold.resolve_right (by nofun))
  | collect r nowSecs =>
    have hcollecting := hs.collecting r nowSecs haction
    have hdnd' := hold.resolve_right (by nofun)
    simp only [perform] at ha
    split at ha
    · cases ha
    · next target honline =>
      obtain rfl := List.mem_singleton.mp ha
      obtain rfl : target = agentId := hfor
      exact Db.not_inDnd_of_onlineAuthor honline (hdnd'.mono hcollecting)
  | setDnd target dndUntilTs =>
    simp only [perform, idle, List.append_nil] at ha
    split at ha
    · next hoff =>
      obtain rfl := List.mem_singleton.mp ha
      obtain rfl : target = agentId := hfor
      obtain ⟨hupdated, rfl⟩ := hoff
      exact Db.not_inDnd_setDnd hupdated hdnd
    · cases ha
  | drainAgentInbox target =>
    rw [show (s.perform uuids draw (.drainAgentInbox target)).last = [] from rfl,
      List.append_nil] at ha
    obtain ⟨d, hd, rfl⟩ := List.mem_map.mp ha
    obtain ⟨m, hm, rfl⟩ := Db.mem_drainAgentInbox hd
    obtain rfl := isFor_publication hm hfor
    exact hs.awake _ ⟨_, haction, rfl⟩ hdnd
  | drainDndTick =>
    rw [show (s.perform uuids draw .drainDndTick).last = [] from rfl, List.append_nil] at ha
    obtain ⟨d, hd, rfl⟩ := List.mem_map.mp ha
    obtain ⟨target, hexpired, m, hm, rfl⟩ := Db.mem_drainDndTick hd
    obtain rfl := isFor_publication hm hfor
    have hticked : (s.db.drainDndTick (s.clock - draw.lag) rateLimit).2.InDnd agentId s.clock := hdnd
    exact (Db.inDnd_drainDndTick hticked).2 hexpired
  | publish threadId frame =>
    simp only [perform, idle, List.append_nil] at ha
    split at ha
    · obtain rfl := List.mem_singleton.mp ha
      cases hfor
    · cases ha
  | listen connection threadId =>
    obtain rfl := List.mem_singleton.mp ha
    cases hfor
  | mark | drainBacklog => cases ha

/-- Only a reminder tick looks for authors. -/
theorem collect_not_mem_perform {action : Action} {r : DueReminder} {nowSecs : Int} :
    .collect r nowSecs ∉ (s.perform uuids draw action).first ++ (s.perform uuids draw action).last := by
  intro h
  cases action with
  | agentSend | deliverResolved | deliverJob | deliverReminder =>
    simp only [perform, last_store, List.append_nil] at h
    rcases s.store_cases uuids draw _ _ _ _ with hidle | ⟨outcome, db, -, heq⟩
    · rw [hidle] at h
      cases h
    · rw [heq] at h
      obtain ⟨frame, -, hframe⟩ := List.mem_map.mp h
      cases hframe
  | collect r' nowSecs' =>
    simp only [perform] at h
    split at h
    · cases h
    · cases List.mem_singleton.mp h
  | publish threadId frame =>
    simp only [perform, idle, List.append_nil] at h
    split at h
    · cases List.mem_singleton.mp h
    · cases h
  | setDnd target dndUntilTs =>
    simp only [perform, idle, List.append_nil] at h
    split at h
    · cases List.mem_singleton.mp h
    · cases h
  | drainAgentInbox | drainDndTick =>
    simp only [perform, idle, List.append_nil] at h
    obtain ⟨d, -, hd⟩ := List.mem_map.mp h
    cases hd
  | listen connection threadId => cases List.mem_singleton.mp h
  | mark | drainBacklog => cases h

/-- What an action shows reaches no agent whose deadline lies ahead. -/
theorem not_inDnd_of_reaches {action : Action} {agentId : String} {e : Event} (hs : s.Undisturbed)
    (haction : action ∈ s.pending) (hheeds : action.Heeds s)
    (he : e ∈ (s.perform uuids draw action).events) (hreaches : e.reaches agentId) :
    ¬ s.db.InDnd agentId s.clock := by
  cases e with
  | published threadId frame subscribers =>
    obtain ⟨rfl, -⟩ := (s.perform_accounts uuids draw action).published _ _ _ he
    exact hs.awake agentId ⟨_, haction, hreaches⟩
  | backlog connection threadId messages =>
    obtain ⟨rfl, rfl⟩ := backlog_of_perform he
    obtain ⟨hthread, hne⟩ := hreaches
    intro hdnd
    obtain ⟨a, ha, hahead⟩ := hdnd
    obtain ⟨hrow, rfl⟩ := Table.get?_eq_some_iff.mp ha
    have hnone : s.db.undelivered threadId = [] := hheeds a hrow hthread hahead
    apply hne
    rw [List.eq_nil_iff_forall_not_mem]
    intro m hm
    rw [Db.mem_drainBacklog, hnone] at hm
    cases hm
  | forwarded | drained => cases hreaches

/-! ### Runs -/

theorem undisturbed_fresh : fresh.Undisturbed where
  collecting r nowSecs h := nomatch h
  awake agentId h := by
    obtain ⟨a, ha, -⟩ := h
    cases ha

/-- Time that passes and deadlines that do not come to lie ahead disturb nobody. -/
theorem Undisturbed.of_quiet {s' : System} (h : s.Undisturbed) (hclock : s.clock ≤ s'.clock)
    (hdnd : ∀ agentId, s'.db.InDnd agentId s'.clock → s.db.InDnd agentId s'.clock)
    (hcollecting : ∀ r nowSecs, .collect r nowSecs ∈ s'.pending →
      .collect r nowSecs ∈ s.pending ∨ nowSecs * 1000 ≤ s'.clock)
    (hfor : ∀ a ∈ s'.pending, ∀ agentId, a.isFor agentId → a ∈ s.pending) : s'.Undisturbed where
  collecting r nowSecs ha := by
    rcases hcollecting r nowSecs ha with ha | hle
    · exact (h.collecting r nowSecs ha).trans hclock
    · exact hle
  awake agentId := by
    rintro ⟨a, ha, hisFor⟩ hahead
    apply h.awake agentId ⟨a, hfor a ha agentId hisFor, hisFor⟩
    exact (hdnd agentId hahead).mono hclock

/-- A call asks about deadlines in its first statement or later. -/
theorem not_isFor_of_mem_actions {c : Call} {clock : Int} {a : Action} {agentId : String}
    (h : a ∈ c.actions clock) : ¬ a.isFor agentId := by
  intro hfor
  rcases mem_actions h with hopens | ⟨r, rfl⟩
  · cases a with
    | publish | deliverReminder | drainAgentInbox => cases hopens
    | _ => exact hfor
  · cases hfor

/-- The seconds a reminder tick reads are not ahead of the clock. -/
theorem collect_mem_actions {c : Call} {clock nowSecs : Int} {r : DueReminder}
    (h : .collect r nowSecs ∈ c.actions clock) : nowSecs * 1000 ≤ clock := by
  rcases mem_actions h with hopens | ⟨r', heq⟩
  · cases hopens
  · obtain ⟨-, rfl⟩ := (Action.collect.injEq ..).mp heq
    omega

/-- A registry written by others has no deadline it did not have. -/
theorem inDnd_registered {db : Db} {rows : Table Agent.agentId} {agentId : String} {now : Int}
    (h : (db.registered rows).InDnd agentId now) : db.InDnd agentId now := by
  obtain ⟨a', ha', hdnd⟩ := h
  unfold Db.registered Db.agent? at ha'
  dsimp only at ha'
  rw [Table.get?_update] at ha'
  obtain ⟨a, ha, rfl⟩ := Option.map_eq_some_iff.mp ha'
  rw [if_pos rfl] at hdnd
  unfold Agent.inDnd at hdnd
  obtain ⟨ts, hts, hlt⟩ := (Option.any_eq_true _ _).mp hdnd
  obtain ⟨b, hb, hbts⟩ := Option.bind_eq_some_iff.mp hts
  rw [(Table.get?_eq_some_iff.mp ha).2] at hb
  exact ⟨b, hb, (Option.any_eq_true _ _).mpr ⟨ts, hbts, hlt⟩⟩

/-- A step that heeds the deadlines keeps them heeded. -/
theorem undisturbed_next (hs : s.Undisturbed) {op : Op} (hheeds : s.Heeds op) :
    (s.next uuids op).Undisturbed := by
  cases op with
  | tick ms =>
    refine hs.of_quiet ?_ (fun _ h ↦ h) (fun _ _ h ↦ Or.inl h) fun _ h _ _ ↦ h
    show s.clock ≤ s.clock + (ms : Int)
    omega
  | registry rows =>
    exact hs.of_quiet (le_refl s.clock) (fun _ h ↦ inDnd_registered h) (fun _ _ h ↦ Or.inl h)
      fun _ h _ _ ↦ h
  | disconnect connection =>
    exact hs.of_quiet (le_refl s.clock) (fun _ h ↦ h) (fun _ _ h ↦ Or.inl h) fun _ h _ _ ↦ h
  | call c =>
    have hpending : (s.next uuids (.call c)).pending = s.pending ++ c.actions s.clock := by
      simp [next, step, pending]
    refine hs.of_quiet (le_refl s.clock) (fun _ h ↦ h) ?_ ?_
    · intro r nowSecs h
      rw [hpending] at h
      exact (List.mem_append.mp h).imp_right collect_mem_actions
    · intro a h agentId hfor
      rw [hpending] at h
      exact (List.mem_append.mp h).resolve_right fun h ↦ not_isFor_of_mem_actions h hfor
  | forward i =>
    obtain ⟨receivers, hnext, -⟩ := s.forward_cases i
    rw [hnext]
    exact hs.of_quiet (le_refl s.clock) (fun _ h ↦ h) (fun _ _ h ↦ Or.inl h) fun _ h _ _ ↦ h
  | proceed i draw =>
    rcases s.proceed_cases i draw with ⟨hsame, -⟩ | ⟨action, rest, hi, -, hnext⟩
    · rw [hsame]
      exact hs
    · rw [hnext]
      have haction := mem_pending_of_head hi
      have hheeds : action.Heeds s := hheeds action (by simp [hi])
      constructor
      case collecting =>
        intro r nowSecs ha
        rcases mem_pending_set hi ha with ha | ha
        · exact hs.collecting r nowSecs ha
        · exact absurd ha collect_not_mem_perform
      case awake =>
        rintro agentId ⟨a, ha, hfor⟩ hdnd
        rcases mem_pending_set hi ha with ha | ha
        · have hinFlight : s.InFlight agentId := ⟨a, ha, hfor⟩
          rcases inDnd_perform hdnd with hold | ⟨ts, rfl, hlt⟩
          · exact hs.awake agentId hinFlight hold
          · exact hheeds ⟨ts, rfl, hlt⟩ hinFlight
        · exact awake_perform hs haction hheeds ha hfor hdnd

end System

/-- In every run whose steps heed the deadlines nothing is published to an agent, and nothing
returned in a backlog of its inbox, while its deadline lies ahead. -/
theorem dnd_respected (uuids : Uuids) (ops : List Op)
    (hheeds : ∀ t ∈ trace (System.next uuids) .fresh ops, t.before.Heeds t.op) :
    ∀ t ∈ trace (System.next uuids) .fresh ops, ∀ e ∈ t.before.events uuids t.op, ∀ agentId,
      e.reaches agentId → ¬ t.before.db.InDnd agentId t.before.clock := by
  intro t ht e he agentId hreaches
  have hall := invariant_of_trace (I := System.Undisturbed) System.undisturbed_fresh
    fun t ht hbefore ↦ by
      rw [after_of_mem_trace ht]
      exact System.undisturbed_next hbefore (hheeds t ht)
  have hbefore : t.before.Undisturbed := (hall t ht).1
  rcases System.mem_events he with ⟨connection, frame, rfl⟩ | ⟨i, draw, action, rest, hop, hi, he⟩
  · cases hreaches
  · have hheeds := hheeds t ht
    rw [hop] at hheeds
    exact System.not_inDnd_of_reaches hbefore (System.mem_pending_of_head hi)
      (hheeds action (by simp [hi])) he hreaches

/-- A message to an agent that is not to be disturbed for a second waits, and is published once
the second is over. -/
def waitingRun : List Op :=
  .registry onlineAgent :: subscribed 1 0 ++
    [.call (.setDnd "a" (some 1000)), .proceed 1 ⟨0, 0⟩, .call (.agentSend "b" "a" "hello"),
      .proceed 2 ⟨0, 0⟩, .tick 1001, .call .dndDrainTick, .proceed 3 ⟨0, 0⟩, .proceed 3 ⟨0, 0⟩,
      .proceed 3 ⟨0, 0⟩]

theorem dnd_respected_waiting :
    Event.published "agent:a" (.agentToAgent "hello" "b" "a" "i" true) 1 ∈
        (run (System.next .longer) .fresh waitingRun).log ∧
      ∀ t ∈ trace (System.next .longer) .fresh waitingRun, ∀ e ∈ t.before.events .longer t.op,
        ∀ agentId, e.reaches agentId → ¬ t.before.db.InDnd agentId t.before.clock :=
  ⟨by decide, dnd_respected .longer waitingRun (by decide)⟩

/-- A callback to an agent that is not to be disturbed. -/
def callbackInDndRun : List Op :=
  .registry onlineAgent :: subscribed 1 0 ++
    [.call (.setDnd "a" (some 1000)), .proceed 1 ⟨0, 0⟩, .call (.callback "a" "done" none),
      .proceed 2 ⟨0, 0⟩]

/-- A message that waits for such an agent, whose session reconnects. -/
def reconnectInDndRun : List Op :=
  .registry onlineAgent ::
    [.call (.setDnd "a" (some 1000)), .proceed 0 ⟨0, 0⟩, .call (.agentSend "b" "a" "hello"),
      .proceed 1 ⟨0, 0⟩, .call (.subscribe 1 "agent:a"), .proceed 2 ⟨0, 0⟩]

/-- A message stored for an agent that asks not to be disturbed before it is published. -/
def dndDuringSendRun : List Op :=
  .registry onlineAgent :: subscribed 1 0 ++
    [.call (.agentSend "b" "a" "hello"), .proceed 1 ⟨0, 0⟩, .call (.setDnd "a" (some 1000)),
      .proceed 2 ⟨0, 0⟩]

/-- The callback and the message in flight are published and the waiting message is returned,
with the deadline ahead. -/
theorem dnd_respected_disturbed :
    (∃ e, e ∈ (run (System.next .longer) .fresh callbackInDndRun).events .longer (.proceed 2 ⟨0, 0⟩) ∧
      e.reaches "a" ∧ (run (System.next .longer) .fresh callbackInDndRun).db.InDnd "a"
        (run (System.next .longer) .fresh callbackInDndRun).clock) ∧
    (∃ e, e ∈ (run (System.next .longer) .fresh dndDuringSendRun).events .longer (.proceed 1 ⟨0, 0⟩) ∧
      e.reaches "a" ∧ (run (System.next .longer) .fresh dndDuringSendRun).db.InDnd "a"
        (run (System.next .longer) .fresh dndDuringSendRun).clock) ∧
    ∃ e, e ∈ (run (System.next .longer) .fresh reconnectInDndRun).events .longer (.proceed 2 ⟨0, 0⟩) ∧
      e.reaches "a" ∧ (run (System.next .longer) .fresh reconnectInDndRun).db.InDnd "a"
        (run (System.next .longer) .fresh reconnectInDndRun).clock := by
  refine ⟨⟨.published "agent:a" (.callback "done" none "a" "i") 1, by decide, rfl, by decide⟩,
    ⟨.published "agent:a" (.agentToAgent "hello" "b" "a" "i" false) 1, by decide, rfl, by decide⟩,
    .backlog 1 "agent:a" [⟨"i", "agent:a", "b", "hello", none, 0, false, none, none⟩], by decide,
    ⟨rfl, by decide⟩, by decide⟩

end Claudebase.Inbox
