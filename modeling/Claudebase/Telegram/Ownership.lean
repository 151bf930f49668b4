import Claudebase.Telegram.Exchange

/-!
# Messages of other sessions

`src/daemon/chat.rs:1372–1411`, `src/daemon/server.rs:1306–1330`,
`src/daemon/subscribe_client.rs:266–346`. A chat may be shared by several sessions, a topic each. A
subscription marks whatever waits on the thread of the chat, and only when it reads the answer does
the session ask which messages are its own.
-/

namespace Claudebase.Telegram
open Claudebase.Base

/-- A message that a step of a batch has stored. -/
def StoredBy (t : Step Batch Update) (m : ChatMessage) : Prop :=
  ∃ row, t.after.db.chatMessages.rows = t.before.db.chatMessages.rows ++ [row] ∧ SameMessage row m

namespace Exchange

/-- An inbound message waits for a session: it is unmarked, nobody has been handed it, and its chat
and topic are routed to the session. -/
structure Waiting (s : Exchange) (agentId : String) (m : ChatMessage) : Prop where
  stored : m ∈ s.daemon.db.chatMessages.rows
  inbound : ∃ t ∈ s.daemon.log, StoredBy t m
  unmarked : m.deliveredAt = none
  unhanded : ∀ x ∈ s.injected, x.row ≠ some m.id
  routed : ∃ chatId, m.threadId = telegramThread chatId ∧
    s.daemon.db.resolveRouting chatId m.messageThreadId = some agentId

/-- A step leaves other sessions' messages: a subscription does not mark what waits for another
session, and returns what waits for its own. -/
structure LeavesOthers (t : Step Exchange Op) : Prop where
  others : ∀ agentId threadId now, t.op = .drain agentId threadId now →
    ∀ other m, other ≠ agentId → t.before.Waiting other m →
      m ∈ t.after.daemon.db.chatMessages.rows
  own : ∀ agentId threadId now, t.op = .drain agentId threadId now →
    t.before.daemon.running = true → threadId ∈ (t.before.lines agentId).listening →
    ∀ m, t.before.Waiting agentId m → m.threadId = threadId →
      ∃ messages, .backlog threadId messages ∈ (t.after.lines agentId).carried ∧ m ∈ messages

/-- A session subscribes to a thread on which a message waits for another session. -/
def TakesFromOther (t : Step Exchange Op) : Prop :=
  ∃ agentId threadId now, t.op = .drain agentId threadId now ∧ t.before.daemon.running = true ∧
    threadId ∈ (t.before.lines agentId).listening ∧
    ∃ other m, other ≠ agentId ∧ t.before.Waiting other m ∧ m.threadId = threadId

variable {uuids : Uuids} {telegram : Service} {parse : String → Option Json}

/-- A subscription of a session that listens. -/
theorem next_drain {s : Exchange} {agentId threadId : String} (now : Int)
    (hrunning : s.daemon.running = true) (hlistening : threadId ∈ (s.lines agentId).listening) :
    s.next uuids telegram parse (.drain agentId threadId now) =
      { s with
        daemon := { s.daemon with db := (s.daemon.db.drainBacklog threadId now).2 }
        lines := Function.update s.lines agentId
          { s.lines agentId with carried := (s.lines agentId).carried ++
              [.backlog threadId (s.daemon.db.drainBacklog threadId now).1] } } := by
  have hopen : (s.daemon.running && (s.lines agentId).listening.contains threadId) = true := by
    simp [hrunning, hlistening]
  unfold next
  dsimp only
  rw [if_pos hopen]
  rfl

/-- Any other leaves everything. -/
theorem next_drain_closed {s : Exchange} {agentId threadId : String} (now : Int)
    (h : ¬ (s.daemon.running = true ∧ threadId ∈ (s.lines agentId).listening)) :
    s.next uuids telegram parse (.drain agentId threadId now) = s := by
  have hclosed : ¬ (s.daemon.running && (s.lines agentId).listening.contains threadId) = true := by
    simpa using h
  unfold next
  dsimp only
  rw [if_neg hclosed]

/-- An unmarked message of a thread is in its backlog. -/
theorem mem_backlog {db : Db} {threadId : String} {now : Int} {m : ChatMessage} :
    m ∈ (db.drainBacklog threadId now).1 ↔
      m ∈ db.chatMessages.rows ∧ m.threadId = threadId ∧ m.deliveredAt = none := by
  unfold Db.drainBacklog
  dsimp only
  rw [(List.perm_insertionSort _ _).mem_iff, List.mem_filter]
  simp

/-- An unmarked message of another thread is left. -/
theorem mem_drained {db : Db} {threadId : String} {now : Int} {m : ChatMessage}
    (hmark : m.deliveredAt = none) : m ∈ (db.drainBacklog threadId now).2.chatMessages.rows ↔
      m ∈ db.chatMessages.rows ∧ m.threadId ≠ threadId := by
  rw [Db.mem_drainBacklog]
  constructor
  · rintro ⟨m₀, hm₀, rfl⟩
    split at hmark
    · cases hmark
    · next hother =>
      rw [if_neg hother]
      exact ⟨hm₀, fun hthread ↦ hother ⟨hthread, hmark⟩⟩
  · rintro ⟨hm, hother⟩
    exact ⟨m, hm, if_neg fun h ↦ hother h.1⟩

theorem leavesOthers_iff (s : Exchange) (op : Op) :
    LeavesOthers ⟨s, op, s.next uuids telegram parse op⟩ ↔
      ¬ TakesFromOther ⟨s, op, s.next uuids telegram parse op⟩ := by
  constructor
  · rintro h ⟨agentId, threadId, now, hop, hrunning, hlistening, other, m, hne, hwaiting, hthread⟩
    dsimp only at hop hrunning hlistening hwaiting
    subst hop
    have hleft := h.others agentId threadId now rfl other m hne hwaiting
    rw [next_drain now hrunning hlistening] at hleft
    exact ((mem_drained hwaiting.unmarked).mp hleft).2 hthread
  · intro htakes
    constructor
    · intro agentId threadId now hop other m hne hwaiting
      dsimp only at hop hwaiting ⊢
      subst hop
      by_cases hopen : s.daemon.running = true ∧ threadId ∈ (s.lines agentId).listening
      · rw [next_drain now hopen.1 hopen.2]
        apply (mem_drained hwaiting.unmarked).mpr
        refine ⟨hwaiting.stored, fun hthread ↦ htakes ?_⟩
        exact ⟨agentId, threadId, now, rfl, hopen.1, hopen.2, other, m, hne, hwaiting, hthread⟩
      · rw [next_drain_closed now hopen]
        exact hwaiting.stored
    · intro agentId threadId now hop hrunning hlistening m hwaiting hthread
      dsimp only at hop hrunning hlistening hwaiting ⊢
      subst hop
      rw [next_drain now hrunning hlistening]
      dsimp only
      refine ⟨(s.daemon.db.drainBacklog threadId now).1, ?_, ?_⟩
      · rw [Function.update_self]
        exact List.mem_append_right _ List.mem_cons_self
      · exact mem_backlog.mpr ⟨hwaiting.stored, hthread, hwaiting.unmarked⟩

end Exchange

open Exchange in
/-- In every run the sessions leave each other's messages if and only if nobody subscribes to a
thread on which a message waits for somebody else. -/
theorem leaves_others (uuids : Uuids) (telegram : Service) (parse : String → Option Json)
    (ops : List Exchange.Op) :
    (∀ t ∈ trace (Exchange.next uuids telegram parse) .fresh ops, Exchange.LeavesOthers t) ↔
      ∀ t ∈ trace (Exchange.next uuids telegram parse) .fresh ops, ¬ TakesFromOther t := by
  have hstep : ∀ t ∈ trace (Exchange.next uuids telegram parse) .fresh ops,
      Exchange.LeavesOthers t ↔ ¬ TakesFromOther t := by
    intro t ht
    have heq : t = ⟨t.before, t.op, t.before.next uuids telegram parse t.op⟩ := by
      rw [← after_of_mem_trace ht]
    rw [heq]
    exact leavesOthers_iff t.before t.op
  constructor
  · exact fun h t ht ↦ (hstep t ht).mp (h t ht)
  · exact fun h t ht ↦ (hstep t ht).mpr (h t ht)

namespace Exchange

/-- The operator writes in the fourth topic of a chat. -/
def topicUpdate : Update :=
  ⟨1, some ⟨10, some ⟨7, some "operator"⟩, 7, 0, some "hello", none, some 4⟩, none, Or.inr rfl⟩

/-- The sessions `a` and `b` hold the third and the fourth topic. -/
def topicRegistry : Table AgentRow.agentId :=
  (Table.insertOrReplace .empty
    ⟨"a", "a", none, 0, 0, .alive, none, none, some 7, some 3, none⟩).insertOrReplace
    ⟨"b", "b", none, 0, 0, .alive, none, none, some 7, some 4, none⟩

/-- The message is stored while no session is connected. -/
def topicRun : List Op :=
  [.daemon (.start 0), .daemon (.others .empty topicRegistry .empty),
    .daemon (.poll 1 Daemon.operatorAccess Link.tickEnv .complete), .publish]

/-- A run with that server. -/
def topicNext : Exchange → Op → Exchange := next .longer (onlyUpdate topicUpdate) fun _ ↦ none

/-- The message waits for the session of its topic when the other one subscribes. -/
theorem waiting_topic : (run topicNext .fresh (topicRun ++ [.listen "a" "telegram:7"])).Waiting "b"
    ⟨"i", "telegram:7", "telegram:operator", "hello", none, 1, false, some 4, none⟩ := by
  have hrows : (run topicNext .fresh
      (topicRun ++ [.listen "a" "telegram:7"])).daemon.db.chatMessages.rows =
        [⟨"i", "telegram:7", "telegram:operator", "hello", none, 1, false, some 4, none⟩] := by
    decide
  constructor
  · rw [hrows]
    exact List.mem_cons_self
  · exact ⟨_, List.mem_cons_self, _, rfl, rfl⟩
  · rfl
  · decide
  · exact ⟨7, by decide, by decide⟩

end Exchange

open Exchange in
/-- When the first session has subscribed the message of the second is gone. -/
theorem leaves_others_forum :
    (∃ t ∈ trace topicNext .fresh (topicRun ++ subscribing "a"), ¬ Exchange.LeavesOthers t) ∧
      (run topicNext .fresh (topicRun ++ subscribing "b")).injected =
        [⟨"b", some "i", .telegram, "hello"⟩] ∧
      (run topicNext .fresh (topicRun ++ subscribing "a" ++ subscribing "b")).injected = [] := by
  refine ⟨⟨_, mem_trace_append (topicRun ++ [.listen "a" "telegram:7"]) (.drain "a" "telegram:7" 1)
    [.read "a" 0 (fun _ ↦ true) 1], fun h ↦ ?_⟩, by decide +kernel, by decide +kernel⟩
  refine (leavesOthers_iff _ _).mp h ⟨"a", "telegram:7", 1, rfl, ?_, ?_, "b", _, ?_, waiting_topic, rfl⟩
  · rfl
  · decide
  · decide

end Claudebase.Telegram
