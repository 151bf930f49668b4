import Claudebase.Supervisor.Classify
import Claudebase.Telegram.Session

/-!
# Several sessions on the threads of the bridge

`src/daemon/server.rs:1290–1396`, `src/daemon/subscribe_client.rs:95–141,270–590`,
`src/supervisor/mod.rs:680–749`, `src/daemon/agent_registry.rs:843–868`. Each session listens on
threads of its own choice and asks the database what is its own when it reads; a backlog is marked
for everybody when it is handed out to one of them.
-/

namespace Claudebase.Telegram
open Claudebase.Base
open Supervisor (Source splitAgentPreamble)

/-! ### Whose a message is -/

namespace Db

/-- `topic_owner`: of those that hold the topic, the one that pinged last. -/
def topicOwner (db : Db) (chatId : Int) (topic : Option Int) : Option String :=
  (latestFirst (db.listRoutingsFor chatId topic)).head?.map AgentRow.agentId

/-- `chat_bound_to`: the session, when it is alive and holds a topic of the chat. -/
def chatBoundTo (db : Db) (chatId : Int) (agentId : String) : Option String :=
  (db.agentRegistry.rows.find? fun r ↦
    r.routingChatId == some chatId && r.isAlive && r.agentId == agentId).map AgentRow.agentId

/-- `thread_belongs_to`; a database that cannot be read withholds. -/
def threadBelongsTo (db : Db) (readable : Bool) (agentId threadId : String) : Bool :=
  match chatOf? threadId with
  | none => true
  | some chatId => readable && (db.chatBoundTo chatId agentId).all fun owner ↦ owner == agentId

/-- `routing_belongs_to`. -/
def routingBelongsTo (db : Db) (readable : Bool) (agentId : String) (chatId : Int)
    (topic : Option Int) : Bool :=
  readable && db.topicOwner chatId topic == some agentId

/-- What the checks answer for a thread and for a topic of it. -/
def owns (db : Db) (readable : Option Int → Bool) (agentId threadId : String) :
    Option Int → Bool
  | none => db.threadBelongsTo (readable none) agentId threadId
  | some topic => (chatOf? threadId).any fun chatId ↦
      db.routingBelongsTo (readable (some topic)) agentId chatId (some topic)

/-- Every session may read the thread of a chat, unless the database cannot be read. -/
theorem threadBelongsTo_telegram {db : Db} {readable : Bool} {agentId threadId : String}
    {chatId : Int} (h : chatOf? threadId = some chatId) :
    db.threadBelongsTo readable agentId threadId = readable := by
  have howner : (db.chatBoundTo chatId agentId).all fun owner ↦ owner == agentId := by
    unfold chatBoundTo
    cases hfind : db.agentRegistry.rows.find? fun r ↦
        r.routingChatId == some chatId && r.isAlive && r.agentId == agentId with
    | none => rfl
    | some r =>
      have hr := List.find?_some hfind
      simp only [Bool.and_eq_true] at hr
      exact hr.2
  unfold threadBelongsTo
  rw [h]
  dsimp only
  rw [howner, Bool.and_true]

end Db

/-! ### What a session injects -/

/-- What is pasted into a session: where it came from, its text, and the row it is stored in. -/
structure Injected where
  agentId : String
  row : Option String
  source : Source
  content : String
  deriving DecidableEq, Repr

/-- The thread of what arrives. -/
def Carried.threadId : Carried → String
  | .frame b => b.threadId
  | .backlog threadId _ => threadId

/-- The messages of a backlog that a session takes. -/
def ownBacklog (owns : Option Int → Bool) (now : Int) (threadId : String)
    (messages : List ChatMessage) : List ChatMessage :=
  if owns none then
    (boundBacklog (messages.filter fun m ↦ m.content != "") now).filter fun m ↦
      match chatOf? threadId, m.messageThreadId with
      | some _, some topic => owns (some topic)
      | _, _ => true
  else []

/-- What a row is labelled in the backlog of a thread. -/
def backlogSource (threadId : String) (m : ChatMessage) : Source :=
  if m.isVoice then .telegramVoice
  else if threadId.startsWith "telegram:" then .telegram else .agent "peer"

/-- What `pump` and `deliver_backlog` make of what arrives. -/
def inject (parse : String → Option Json) (agentId : String) (owns : Option Int → Bool)
    (now : Int) :
    Carried → List Injected
  | .frame b =>
    if b.frame.isFor agentId && owns none then
      [⟨agentId, b.row, if b.frame.voice then .telegramVoice else .telegram,
        (splitAgentPreamble parse b.frame.content).1⟩]
    else []
  | .backlog threadId messages =>
    (ownBacklog owns now threadId messages).map fun m ↦
      ⟨agentId, some m.id, backlogSource threadId m, m.content⟩

/-! ### The system -/

/-- The connection of a session: the threads it listens on, and what is on its way. -/
structure Line where
  listening : List String
  carried : List Carried

/-- The daemon, the notifications still to be published, the line of each session, and what has been
pasted, by whomever. -/
structure Exchange where
  daemon : Daemon
  awaiting : List Broadcast
  lines : String → Line
  injected : List Injected

namespace Exchange

/-- Before anything happens. -/
def fresh : Exchange := ⟨.fresh, [], fun _ ↦ ⟨[], []⟩, []⟩

/-- The daemon's side, with nobody connected. -/
def bus (s : Exchange) : Link := ⟨s.daemon, s.awaiting, [], [], []⟩

/-- What happens: something at the daemon, a publication, the two halves of a session's
`chat_subscribe`, a session reading what has arrived, a frame overwritten before a slow session got
it, a connection lost. `readable` says which of the checks could read the database. -/
inductive Op where
  | daemon (op : Daemon.Op)
  | publish
  | listen (agentId threadId : String)
  | drain (agentId threadId : String) (now : Int)
  | read (agentId : String) (i : Nat) (readable : Option Int → Bool) (now : Int)
  | lag (agentId : String) (i : Nat)
  | disconnect (agentId : String)

/-- The line of a session changes. -/
def onLine (s : Exchange) (agentId : String) (f : Line → Line) : Exchange :=
  { s with lines := Function.update s.lines agentId (f (s.lines agentId)) }

/-- A frame goes to everybody who listens. -/
def hear (b : Broadcast) (l : Line) : Line :=
  { l with carried := l.carried ++
      (l.listening.filter fun threadId ↦ threadId == b.threadId).map fun _ ↦ .frame b }

variable (uuids : Uuids) (telegram : Service) (parse : String → Option Json)

/-- One step. Subscriptions are those of sessions. -/
def next (s : Exchange) (op : Op) : Exchange :=
  match op with
  | .daemon (.subscribe _ _) => s
  | .daemon op =>
    let daemon := s.daemon.next uuids telegram op
    { s with
      daemon
      awaiting := s.bus.toPublish uuids telegram op
      lines := if daemon.running then s.lines else fun id ↦ { s.lines id with listening := [] } }
  | .publish =>
    match s.awaiting with
    | [] => s
    | b :: rest => { s with awaiting := rest, lines := fun id ↦ hear b (s.lines id) }
  | .listen agentId threadId =>
    if s.daemon.running then
      s.onLine agentId fun l ↦ { l with listening := l.listening ++ [threadId] }
    else s
  | .drain agentId threadId now =>
    if s.daemon.running && (s.lines agentId).listening.contains threadId then
      let drained := s.daemon.db.drainBacklog threadId now
      { s with daemon := { s.daemon with db := drained.2 } }.onLine agentId fun l ↦
        { l with carried := l.carried ++ [Carried.backlog threadId drained.1] }
    else s
  | .read agentId i readable now =>
    match (s.lines agentId).carried[i]? with
    | none => s
    | some c =>
      let owns := s.daemon.db.owns readable agentId c.threadId
      { s with injected := s.injected ++ inject parse agentId owns now c }.onLine agentId fun l ↦
        { l with carried := l.carried.eraseIdx i }
  | .lag agentId i =>
    match (s.lines agentId).carried[i]? with
    | some (.frame _) => s.onLine agentId fun l ↦ { l with carried := l.carried.eraseIdx i }
    | _ => s
  | .disconnect agentId => s.onLine agentId fun _ ↦ ⟨[], []⟩

/-! ### What a step does -/

variable {uuids telegram parse}

theorem lines_onLine (s : Exchange) (agentId : String) (f : Line → Line) (id : String) :
    (s.onLine agentId f).lines id = if id = agentId then f (s.lines agentId) else s.lines id := by
  unfold onLine
  dsimp only
  rw [Function.update_apply]

/-- The daemon stays, takes a step of its own, or hands out a backlog. -/
inductive DaemonStep (s : Exchange) (op : Op) (daemon : Daemon) : Prop
  | stays (hdaemon : daemon = s.daemon)
  | own (o : Daemon.Op) (hop : op = .daemon o) (hdaemon : daemon = s.daemon.next uuids telegram o)
  | drained (agentId threadId : String) (now : Int) (hop : op = .drain agentId threadId now)
      (hdaemon : daemon = { s.daemon with db := (s.daemon.db.drainBacklog threadId now).2 })

theorem daemonStep_next (s : Exchange) (op : Op) :
    @DaemonStep uuids telegram s op (s.next uuids telegram parse op).daemon := by
  unfold next
  split
  · exact .stays rfl
  · next o _ => exact .own o rfl rfl
  · split
    · exact .stays rfl
    · exact .stays rfl
  · split
    · exact .stays rfl
    · exact .stays rfl
  · next agentId threadId now =>
    split
    · exact .drained agentId threadId now rfl rfl
    · exact .stays rfl
  · split
    · exact .stays rfl
    · exact .stays rfl
  · split
    · exact .stays rfl
    · exact .stays rfl
  · exact .stays rfl

/-- The log of every run is genuine. -/
theorem genuine_next {s : Exchange} (h : ∀ t ∈ s.daemon.log, Daemon.Genuine uuids s.daemon t)
    (op : Op) : ∀ t ∈ (s.next uuids telegram parse op).daemon.log,
      Daemon.Genuine uuids (s.next uuids telegram parse op).daemon t := by
  cases @daemonStep_next uuids telegram parse s op with
  | stays hdaemon =>
    rw [hdaemon]
    exact h
  | own o hop hdaemon =>
    rw [hdaemon]
    exact Daemon.genuine_next h o
  | drained agentId threadId now hop hdaemon =>
    rw [hdaemon]
    exact fun t ht ↦ (h t ht).mono (grows_drainBacklog s.daemon.db threadId now)

/-- What is on its way to a session was before, has been published, or is its backlog. -/
inductive Comes (s : Exchange) (op : Op) (id : String) : Carried → Prop
  | before {c : Carried} (hc : c ∈ (s.lines id).carried) : Comes s op id c
  | published (b : Broadcast) (hop : op = .publish) (hb : b ∈ s.awaiting) : Comes s op id (.frame b)
  | drained (threadId : String) (now : Int) (hop : op = .drain id threadId now)
      (hrunning : s.daemon.running = true) (hlistening : threadId ∈ (s.lines id).listening) :
      Comes s op id (.backlog threadId (s.daemon.db.drainBacklog threadId now).1)

theorem comes_next {s : Exchange} {op : Op} {id : String} {c : Carried}
    (h : c ∈ ((s.next uuids telegram parse op).lines id).carried) : Comes s op id c := by
  unfold next at h
  split at h
  · exact .before h
  · dsimp only at h
    split at h
    · exact .before h
    · exact .before h
  · split at h
    · exact .before h
    · next b rest hawaiting =>
      rcases List.mem_append.mp h with h | h
      · exact .before h
      · obtain ⟨_, -, rfl⟩ := List.mem_map.mp h
        exact .published b rfl (hawaiting ▸ List.mem_cons_self)
  · split at h
    · rw [lines_onLine] at h
      split at h
      · next hid =>
        subst hid
        exact .before h
      · exact .before h
    · exact .before h
  · next agentId threadId now =>
    split at h
    · next hopen =>
      rw [lines_onLine] at h
      split at h
      · next hid =>
        subst hid
        obtain ⟨hrunning, hlistening⟩ := Bool.and_eq_true_iff.mp hopen
        rcases List.mem_append.mp h with h | h
        · exact .before h
        · rw [List.mem_singleton.mp h]
          exact .drained threadId now rfl hrunning (List.contains_iff_mem.mp hlistening)
      · exact .before h
    · exact .before h
  · split at h
    · exact .before h
    · rw [lines_onLine] at h
      split at h
      · next hid =>
        subst hid
        exact .before (List.mem_of_mem_eraseIdx h)
      · exact .before h
  · split at h
    · rw [lines_onLine] at h
      split at h
      · next hid =>
        subst hid
        exact .before (List.mem_of_mem_eraseIdx h)
      · exact .before h
    · exact .before h
  · rw [lines_onLine] at h
    split at h
    · cases h
    · exact .before h

/-- What is to be published was before, or comes from a step of a batch. -/
theorem mem_awaiting_next {s : Exchange} {op : Op} {b : Broadcast}
    (h : b ∈ (s.next uuids telegram parse op).awaiting) : b ∈ s.awaiting ∨
      ∃ t ∈ (s.next uuids telegram parse op).daemon.log, b ∈ broadcastsOf t := by
  unfold next at h ⊢
  split at h
  · exact Or.inl h
  · next o _ =>
    unfold Link.toPublish at h
    split at h
    · rcases List.mem_append.mp h with h | h
      · exact Or.inl h
      · obtain ⟨t, ht, hb⟩ := List.mem_flatMap.mp h
        exact Or.inr ⟨t, List.mem_of_mem_drop ht, hb⟩
    · cases h
    · exact Or.inl h
  · split at h
    · exact Or.inl h
    · next hawaiting => exact Or.inl (hawaiting ▸ List.mem_cons_of_mem _ h)
  · split at h
    · exact Or.inl h
    · exact Or.inl h
  · split at h
    · exact Or.inl h
    · exact Or.inl h
  · split at h
    · exact Or.inl h
    · exact Or.inl h
  · split at h
    · exact Or.inl h
    · exact Or.inl h
  · exact Or.inl h

/-- What has been pasted was before, or is read now. -/
theorem mem_injected_next {s : Exchange} {op : Op} {x : Injected}
    (h : x ∈ (s.next uuids telegram parse op).injected) : x ∈ s.injected ∨
      ∃ agentId i readable now c, op = .read agentId i readable now ∧
        (s.lines agentId).carried[i]? = some c ∧
        x ∈ inject parse agentId (s.daemon.db.owns readable agentId c.threadId) now c := by
  unfold next at h
  split at h
  · exact Or.inl h
  · exact Or.inl h
  · split at h
    · exact Or.inl h
    · exact Or.inl h
  · split at h
    · exact Or.inl h
    · exact Or.inl h
  · split at h
    · exact Or.inl h
    · exact Or.inl h
  · next agentId i readable now =>
    split at h
    · exact Or.inl h
    · next c hc =>
      rcases List.mem_append.mp h with h | h
      · exact Or.inl h
      · exact Or.inr ⟨agentId, i, readable, now, c, rfl, hc, h⟩
  · split at h
    · exact Or.inl h
    · exact Or.inl h
  · exact Or.inl h

/-- A session takes nothing of a backlog that is not in it. -/
theorem mem_of_mem_ownBacklog {owns : Option Int → Bool} {now : Int} {threadId : String}
    {messages : List ChatMessage} {m : ChatMessage} (h : m ∈ ownBacklog owns now threadId messages) :
    m ∈ messages := by
  unfold ownBacklog at h
  split at h
  · have hbounded := List.mem_of_mem_drop (List.mem_filter.mp h).1
    exact (List.mem_filter.mp (List.mem_filter.mp hbounded).1).1
  · cases h

/-- A server that holds one update. -/
def onlyUpdate (u : Update) : Service where
  update id := if id = u.updateId then some u else none
  updateId_eq id v h := by
    split at h
    · next hid => rw [← Option.some.inj h, hid]
    · cases h

/-- A session subscribes to a chat and reads the answer. -/
def subscribing (agentId : String) : List Op :=
  [.listen agentId "telegram:7", .drain agentId "telegram:7" 1,
    .read agentId 0 (fun _ ↦ true) 1]

end Exchange

end Claudebase.Telegram
