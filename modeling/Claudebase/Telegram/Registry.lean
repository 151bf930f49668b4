import Claudebase.Telegram.Db

/-!
# Sessions and the chats bound to them

`src/daemon/agent_registry.rs:396–411,529–600,1394–1634` and the bot commands of
`src/daemon/telegram.rs:436–698`. A chat, or a topic of it, is routed to one live session;
`/switch` moves it to another on behalf of the last user who wrote through it. The commands
read the registry and write nothing but bindings.
-/

namespace Claudebase.Telegram
open Claudebase.Base

/-- The machine the daemon runs on: its name, and whether a process still exists. -/
structure Host where
  name : String
  processExists : Int → Bool

/-- `process_is_live`: a process of another machine, or none recorded, counts as live. -/
def Host.processIsLive (host : Host) (r : AgentRow) : Bool :=
  match r.host, r.pid with
  | some h, some pid => h != host.name || host.processExists pid
  | _, _ => true

/-- Whether a session is alive. -/
def AgentRow.isAlive (r : AgentRow) : Bool := r.state == .alive

/-- Whether a session holds the routing key of a chat and topic. -/
def AgentRow.routes (r : AgentRow) (chatId : Int) (threadId : Option Int) : Bool :=
  r.routingChatId == some chatId && r.routingThreadId.getD (-1) == threadId.getD (-1)

namespace Db

/-- Sessions in the order of their last ping, latest first. -/
def latestFirst (rows : List AgentRow) : List AgentRow :=
  rows.insertionSort fun a b ↦ b.lastPingedAt ≤ a.lastPingedAt

/-- `list_online`: alive, and the process is still there. -/
def listOnline (db : Db) (host : Host) : List AgentRow :=
  (latestFirst (db.agentRegistry.rows.filter AgentRow.isAlive)).filter host.processIsLive

/-- `list_alive`, of one thread or of all; at most 1000. -/
def listAlive (db : Db) (thread : Option String) : List AgentRow :=
  (latestFirst (db.agentRegistry.rows.filter fun r ↦
    r.isAlive && (thread.isNone || r.chatThreadId == thread))).take 1000

/-- `list_routings_for`. -/
def listRoutingsFor (db : Db) (chatId : Int) (threadId : Option Int) : List AgentRow :=
  db.agentRegistry.rows.filter fun r ↦ r.isAlive && r.routes chatId threadId

/-- `resolve_routing`. -/
def resolveRouting (db : Db) (chatId : Int) (threadId : Option Int) : Option String :=
  (db.listRoutingsFor chatId threadId).head?.map AgentRow.agentId

/-- Whether the session of a question is alive. -/
def aliveOf (db : Db) (agentId : String) : Bool :=
  (db.agentRegistry.get? agentId).any AgentRow.isAlive

/-- `stamp_last_user_id`. -/
def stampLastUserId (db : Db) (agentId : String) (userId : Int) : Db :=
  let agentRegistry := db.agentRegistry.update (fun r ↦ r.agentId == agentId && r.isAlive)
    (fun r ↦ { r with lastUserId := some userId }) (fun _ ↦ rfl)
  { db with agentRegistry }

/-- `bind_routing_key_in_tx`: other sessions lose the key, then the session gets it. -/
def bindRoutingKey (db : Db) (agentId : String) (chatId : Int) (threadId : Option Int) : Db :=
  let cleared := db.agentRegistry.update
    (fun r ↦ r.isAlive && r.routes chatId threadId && r.agentId != agentId)
    (fun r ↦ { r with routingChatId := none, routingThreadId := none }) (fun _ ↦ rfl)
  let agentRegistry := cleared.update (fun r ↦ r.agentId == agentId && r.isAlive)
    (fun r ↦ { r with routingChatId := some chatId, routingThreadId := threadId }) (fun _ ↦ rfl)
  { db with agentRegistry }

/-- `bind_chat_to_name`. -/
def bindChatToName (db : Db) (chatId : Int) (threadId : Option Int) (agentName : String)
    (now : Int) : Db :=
  { db with chatBindings :=
      db.chatBindings.insertOrReplace ⟨chatId, threadId.getD (-1), agentName, now⟩ }

end Db

/-- The session of a name, `max_by_key` on `spawned_at`: the youngest, of equals the last. -/
def youngestNamed (rows : List AgentRow) (name : String) : Option AgentRow :=
  (rows.filter fun r ↦ r.agentName.toLower == name.toLower).foldl
    (fun best r ↦
      match best with
      | none => some r
      | some b => if b.spawnedAt ≤ r.spawnedAt then some r else some b) none

/-! ### Commands -/

/-- `BotCommand`. -/
inductive BotCommand where
  | whoami
  | agents
  | switch (name : String)
  | start
  deriving DecidableEq, Repr

/-- `parse_bot_command`: a slash, the command up to an `@`, and for `/switch` a name. -/
def parseBotCommand (text : String) : Option BotCommand :=
  match trim text.toList with
  | '/' :: rest =>
    match splitWhitespace rest with
    | [] => none
    | word :: args =>
      match String.ofList (word.takeWhile (· ≠ '@')) with
      | "whoami" => some .whoami
      | "agents" => some .agents
      | "switch" => args.head?.map fun name ↦ .switch (String.ofList name)
      | "start" => some .start
      | _ => none
  | _ => none

/-- `handle_whoami`. -/
def handleWhoami (db : Db) (chatId : Int) (threadId : Option Int) : String :=
  match db.listRoutingsFor chatId threadId with
  | [] => "No CLI is bound to this chat/topic. Use /switch <name> to bind one."
  | agent :: _ =>
    "Bound CLI: " ++ agent.agentName ++ " (agent_id=" ++ agent.agentId ++ ", last_pinged_at=" ++
      toString agent.lastPingedAt ++ ")"

/-- `handle_agents`. -/
def handleAgents (db : Db) (host : Host) (chatId : Int) (threadId : Option Int) : String :=
  let alive := db.listOnline host
  if alive.isEmpty then "No CLI sessions are online. Start one with `claudebase run`."
  else
    let bound := db.resolveRouting chatId threadId
    "\n".intercalate ("Online CLI sessions:" :: alive.map fun r ↦
      "- " ++ r.agentName ++ " (agent_id=" ++ r.agentId ++ ", last_pinged_at=" ++
        toString r.lastPingedAt ++ ")" ++ (if bound == some r.agentId then " (current)" else ""))

/-- `handle_switch`: the reply, and the database with the chat bound to the session. A chat
another session holds is only given up by its last user. -/
def handleSwitch (db : Db) (host : Host) (chatId : Int) (threadId : Option Int) (sender : Int)
    (name : String) (now : Int) : String × Db :=
  match youngestNamed (db.listOnline host) name with
  | none =>
    ("CLI '" ++ name ++ "' not found among alive CLIs. Use /agents to list bound CLIs in this " ++
      "chat/topic.", db)
  | some target =>
    let bind :=
      ("Switched: this chat/topic is now bound to " ++ target.agentName ++ " (agent_id=" ++
        target.agentId ++ "). Subsequent inbound messages route to that CLI.",
        (db.bindRoutingKey target.agentId chatId threadId).bindChatToName chatId threadId
          target.agentName now)
    match db.listRoutingsFor chatId threadId with
    | [] => bind
    | current :: _ =>
      if current.agentId = target.agentId then
        ("Already bound to " ++ target.agentName ++ " — no change.", db)
      else if current.lastUserId = some sender then bind
      else
        ("Denied: only the user who last messaged this chat/topic via the bound CLI (" ++
          current.agentName ++ ") may /switch. Have them rebind, or wait for chat-admin " ++
          "fallback (deferred sub-slice).", db)

/-! ### Mentions -/

/-- A character a session name is made of. -/
def isNameChar (c : Char) : Bool := c.isAlphanum || c == '_' || c == '-'

/-- The first mention in a text, after the character `prev`. -/
def mentionFrom (prev : Option Char) : List Char → Option (List Char)
  | [] => none
  | c :: cs =>
    let name := cs.takeWhile isNameChar
    if c == '@' && !prev.any isNameChar && !name.isEmpty then some name
    else mentionFrom (some c) cs

/-- `extract_first_mention`: an `@` that no name character precedes, and the name after it. -/
def extractFirstMention (text : String) : Option String :=
  (mentionFrom none text.toList).map String.ofList

/-! ### What the commands leave alone -/

/-- The messages, the parked notes and the offset are the same. -/
structure SameInbox (db db' : Db) : Prop where
  chatMessages : db'.chatMessages = db.chatMessages
  pendingVoice : db'.pendingVoice = db.pendingVoice
  lastUpdateId : db'.lastUpdateId = db.lastUpdateId

theorem SameInbox.refl (db : Db) : SameInbox db db := ⟨rfl, rfl, rfl⟩

theorem sameInbox_stampLastUserId (db : Db) (agentId : String) (userId : Int) :
    SameInbox db (db.stampLastUserId agentId userId) := ⟨rfl, rfl, rfl⟩

/-- A switch changes no message and no note. -/
theorem sameInbox_handleSwitch (db : Db) (host : Host) (chatId : Int) (threadId : Option Int)
    (sender : Int) (name : String) (now : Int) :
    SameInbox db (handleSwitch db host chatId threadId sender name now).2 := by
  unfold handleSwitch
  split
  · exact .refl db
  · extract_lets bind
    have hbind : SameInbox db bind.2 := ⟨rfl, rfl, rfl⟩
    split
    · exact hbind
    · split
      · exact .refl db
      · split
        · exact hbind
        · exact .refl db

end Claudebase.Telegram
