import Claudebase.Telegram.Exchange

/-!
# Who may paste a chat's message

`src/supervisor/mod.rs:671–749`, `src/daemon/agent_registry.rs:845–868`,
`src/daemon/subscribe_client.rs:93–128,270–341,540–553`. Before a session pastes a message of a chat
it asks whether the message is its own: about the chat as a whole, and in a backlog about the topic
too.
-/

namespace Claudebase.Telegram
open Claudebase.Base

/-- `agent_registry_routing_alive_uniq_idx`. -/
def AgentRow.routingKey (r : AgentRow) : Option (Int × Int) :=
  if r.isAlive then r.routingChatId.map fun chatId ↦ (chatId, r.routingThreadId.getD (-1)) else none

theorem AgentRow.routingKey_of_routes {r : AgentRow} {chatId : Int} {topic : Option Int}
    (halive : r.isAlive = true) (h : r.routes chatId topic = true) :
    r.routingKey = some (chatId, topic.getD (-1)) := by
  unfold routes at h
  rw [Bool.and_eq_true, beq_iff_eq, beq_iff_eq] at h
  unfold routingKey
  rw [if_pos halive, h.1, h.2]
  rfl

/-- How a message reaches a session. -/
inductive Arrival where
  | frame | backlog
  deriving DecidableEq, Repr

/-- A chat's thread names the chat. -/
theorem chatOf?_telegramThread {chatId : Int} (hmin : -9223372036854775808 ≤ chatId)
    (hmax : chatId < 9223372036854775808) : chatOf? (telegramThread chatId) = some chatId := by
  have hstrip : stripPrefix "telegram:" (telegramThread chatId) = some (toString chatId) :=
    stripPrefix_eq_some_iff.mpr rfl
  unfold chatOf?
  rw [hstrip]
  exact parseI64_decimal hmin hmax

namespace Db

/-- The check that is made before a message of a chat and topic is pasted. The topic of a frame is
not read. -/
def mayPaste (db : Db) (readable : Option Int → Bool) (agentId : String) (chatId : Int) :
    Arrival → Option Int → Bool
  | .frame, _ => db.owns readable agentId (telegramThread chatId) none
  | .backlog, topic =>
    db.owns readable agentId (telegramThread chatId) none &&
      topic.all fun topic ↦ db.owns readable agentId (telegramThread chatId) (some topic)

/-- Another live session holds the chat and topic. -/
def HeldByOther (db : Db) (agentId : String) (chatId : Int) (topic : Option Int) : Prop :=
  ∃ r ∈ db.agentRegistry.rows, r.isAlive = true ∧ r.routes chatId topic = true ∧ r.agentId ≠ agentId

instance (db : Db) (agentId : String) (chatId : Int) (topic : Option Int) :
    Decidable (db.HeldByOther agentId chatId topic) :=
  inferInstanceAs (Decidable (∃ r ∈ db.agentRegistry.rows, _))

variable {db : Db} {readable : Option Int → Bool} {agentId : String} {chatId : Int}
  {topic : Option Int}

/-- The one that pinged last is one of those that hold the topic. -/
theorem exists_of_topicOwner (h : db.topicOwner chatId topic = some agentId) :
    ∃ r ∈ db.agentRegistry.rows, r.isAlive = true ∧ r.routes chatId topic = true ∧
      r.agentId = agentId := by
  unfold topicOwner at h
  rw [Option.map_eq_some_iff] at h
  obtain ⟨r, hr, hid⟩ := h
  have hmem := (List.perm_insertionSort _ _).mem_iff.mp (List.mem_of_head? hr)
  have hfilter := List.mem_filter.mp hmem
  rw [Bool.and_eq_true] at hfilter
  exact ⟨r, hfilter.1, hfilter.2.1, hfilter.2.2, hid⟩

/-- Nobody else holds what the check about a topic grants. -/
theorem not_heldByOther_of_routingBelongsTo {readable : Bool}
    (hindex : Indexed AgentRow.routingKey db.agentRegistry.rows)
    (h : db.routingBelongsTo readable agentId chatId topic = true) :
    ¬ db.HeldByOther agentId chatId topic := by
  rintro ⟨r', hr', halive', hroutes', hne⟩
  unfold routingBelongsTo at h
  rw [Bool.and_eq_true, beq_iff_eq] at h
  obtain ⟨r, hr, halive, hroutes, hid⟩ := exists_of_topicOwner h.2
  have hsame : r' = r :=
    indexed_iff.mp hindex r' hr' r hr _ (AgentRow.routingKey_of_routes halive' hroutes')
      (AgentRow.routingKey_of_routes halive hroutes)
  exact hne (hsame ▸ hid)

/-- The check about a chat grants it whenever it can be made. -/
theorem owns_thread (hchat : chatOf? (telegramThread chatId) = some chatId) :
    db.owns readable agentId (telegramThread chatId) none = readable none :=
  threadBelongsTo_telegram hchat

theorem owns_topic (hchat : chatOf? (telegramThread chatId) = some chatId) (t : Int) :
    db.owns readable agentId (telegramThread chatId) (some t) =
      db.routingBelongsTo (readable (some t)) agentId chatId (some t) := by
  unfold owns
  dsimp only
  rw [hchat, Option.any_some]

end Db

/-! ### What is pasted has been checked -/

/-! ### What others hold -/

open Db in
/-- A session that is granted a message holds its chat and topic alone, unless somebody else does
and nobody was asked about the topic. -/
theorem mayPaste_sound_iff (db : Db) (hindex : Indexed AgentRow.routingKey db.agentRegistry.rows)
    (readable : Option Int → Bool) (agentId : String) (chatId : Int)
    (hmin : -9223372036854775808 ≤ chatId) (hmax : chatId < 9223372036854775808)
    (arrival : Arrival) (topic : Option Int) :
    (db.mayPaste readable agentId chatId arrival topic = true →
        ¬ db.HeldByOther agentId chatId topic) ↔
      ¬ (readable none = true ∧ (arrival = .frame ∨ topic = none) ∧
        db.HeldByOther agentId chatId topic) := by
  have hchat := chatOf?_telegramThread hmin hmax
  constructor
  · rintro h ⟨hreadable, hasked, hother⟩
    have hgranted : db.mayPaste readable agentId chatId arrival topic = true := by
      unfold mayPaste
      rcases hasked with rfl | rfl
      · exact (owns_thread hchat).trans hreadable
      · cases arrival with
        | frame => exact (owns_thread hchat).trans hreadable
        | backlog => simp [owns_thread hchat, hreadable]
    exact h hgranted hother
  · intro h hgranted hother
    cases arrival with
    | frame =>
      have hreadable : readable none = true := (owns_thread hchat).symm.trans hgranted
      exact h ⟨hreadable, Or.inl rfl, hother⟩
    | backlog =>
      unfold mayPaste at hgranted
      dsimp only at hgranted
      rw [Bool.and_eq_true, owns_thread hchat] at hgranted
      cases topic with
      | none => exact h ⟨hgranted.1, Or.inr rfl, hother⟩
      | some t =>
        have htopic := hgranted.2
        rw [Option.all_some, owns_topic hchat] at htopic
        exact not_heldByOther_of_routingBelongsTo hindex htopic hother

/-- Two sessions, of which the second holds chat 7. -/
def heldChat : Db :=
  let row (agentId : String) (routingChatId : Option Int) : AgentRow :=
    { agentId
      agentName := agentId
      chatThreadId := none
      spawnedAt := 0
      lastPingedAt := 0
      state := .alive
      host := none
      pid := none
      routingChatId
      routingThreadId := none
      lastUserId := none }
  { Db.empty with agentRegistry := ⟨[row "a" none, row "b" (some 7)], by decide⟩ }

/-- The first is granted its messages too. -/
theorem mayPaste_held : ¬ ∀ (db : Db), Indexed AgentRow.routingKey db.agentRegistry.rows →
    ∀ (readable : Option Int → Bool) (agentId : String) (chatId : Int),
      -9223372036854775808 ≤ chatId → chatId < 9223372036854775808 →
      ∀ (arrival : Arrival) (topic : Option Int),
        db.mayPaste readable agentId chatId arrival topic = true →
          ¬ db.HeldByOther agentId chatId topic := by
  intro h
  exact h heldChat (by decide) (fun _ ↦ true) "a" 7 (by decide) (by decide) .backlog none
    (by decide +kernel) (by decide)

/-- The second is granted them alone. -/
theorem mayPaste_holder :
    (heldChat.mayPaste (fun _ ↦ true) "b" 7 .frame none = true →
        ¬ heldChat.HeldByOther "b" 7 none) ↔
      ¬ (true = true ∧ (Arrival.frame = .frame ∨ (none : Option Int) = none) ∧
        heldChat.HeldByOther "b" 7 none) :=
  mayPaste_sound_iff heldChat (by decide) (fun _ ↦ true) "b" 7 (by decide) (by decide) .frame none

end Claudebase.Telegram
