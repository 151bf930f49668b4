import Claudebase.Registry.Ops

/-!
# Names, one statement at a time

`src/daemon/agent_registry.rs:434–460,474–496,649–657,695–735,789–823,980–1015`,
`src/daemon/server.rs:1595–1605,1761–1960`. A registration is one transaction; what follows it,
a rename and the binding of a conversation are sequences of statements, and the statements of
other calls run between them.
-/

namespace Claudebase.Registry
open Claudebase.Base

namespace Db

/-- `resolve_target`: an exact id of a live session wins, then the one live session of that
name. -/
def resolveTarget (db : Db) (needle : String) : Except String String :=
  match db.agentRegistry.rows.find? fun r ↦ r.agentId == needle && r.isAlive with
  | some r => .ok r.agentId
  | none =>
    let found := (db.agentRegistry.rows.filter fun r ↦ r.agentName == needle && r.isAlive).mergeSort
      fun r r' ↦ decide (r'.lastPingedAt ≤ r.lastPingedAt)
    let listed := "\n  ".intercalate (found.map AgentRow.agentId)
    match found with
    | [] => .error s!"no alive agent matches `{needle}` — check `claudebase agent list-alive`"
    | [r] => .ok r.agentId
    | rs => .error
        s!"`{needle}` matches {rs.length} alive agents; pass --agent-id with one of:\n  {listed}"

/-- `nick_is_taken`: the first live session of that name beside `exceptAgentId`, when its
process runs. -/
def nickIsTaken (db : Db) (isLive : String → Bool) (nick exceptAgentId : String) : Bool :=
  (db.agentRegistry.rows.find? fun r ↦
    r.agentName == nick && r.isAlive && r.agentId != exceptAgentId).any fun r ↦ isLive r.agentId

/-- The rows after the `UPDATE` of a rename. -/
def renamed (db : Db) (agentId newName : String) : Table AgentRow.agentId :=
  db.agentRegistry.updateKey agentId (fun r ↦ { r with agentName := newName })
    (AgentRow.agentId_renamed newName)

/-- The rows after the `INSERT` of a registration. -/
def registered (db : Db) (agentId agentName connectionId : String)
    (chatThreadId metadata : Option String) (now : Int) : Table AgentRow.agentId :=
  upsert (db.sweep agentId connectionId chatThreadId) agentId agentName connectionId chatThreadId
    metadata now

/-- The name a registration leaves on its row: a row that exists keeps its own. -/
def effectiveName (db : Db) (agentId agentName : String) : String :=
  ((db.agentRegistry.get? agentId).map AgentRow.agentName).getD agentName

/-- The constraints admit the rows. -/
def Admits (db : Db) (rows : Table AgentRow.agentId) : Prop := ∃ db', db.write rows = .ok db'

end Db

/-! ### Calls that have begun -/

/-- The next statement of a call that has begun, with what it read so far. -/
inductive Task where
  /-- `restore_bindings_for`: the bindings of the name, then for each of them the clear of the
  others and the key of the session. -/
  | restore (agentId agentName : String)
  | clear (agentId : String) (chatId : Int) (threadId : Option Int) (chats : List (Int × Option Int))
  | claim (agentId : String) (chatId : Int) (threadId : Option Int) (chats : List (Int × Option Int))
  /-- `rename_in_place`: the old name, the check and the write of `rename`, the bindings, and the
  conversation. -/
  | rename (agentId newName : String)
  | check (agentId newName : String) (oldName : Option String)
  | write (agentId newName : String) (oldName : Option String)
  | migrate (agentId oldName newName : String) (hne : oldName ≠ newName)
  | remember (agentId newName : String)
  /-- `handle_agent_bind_session`. -/
  | capture (agentId sessionId : String)
  | current (agentId sessionId : String)
  | recall (agentId sessionId current : String)
  | taken (agentId nick : String)
  | pin (sessionId current : String)
  deriving DecidableEq

/-- The registry, the conversation of each session, the name of each conversation, and the calls
that have begun. -/
structure Names where
  db : Db
  claudeSession : String → Option String
  conversationNick : String → Option String
  tasks : List Task

/-- Nobody has registered. -/
def Names.start : Names := ⟨.empty, fun _ ↦ none, fun _ ↦ none, []⟩

/-- The next binding that is restored. -/
def Task.restoring (agentId : String) : List (Int × Option Int) → Option Task
  | [] => none
  | (chatId, threadId) :: chats => some (.clear agentId chatId threadId chats)

/-- What follows the write of a rename. -/
def Task.renamed (agentId newName : String) : Option String → Task
  | some oldName =>
    if hne : oldName ≠ newName then .migrate agentId oldName newName hne
    else .remember agentId newName
  | none => .remember agentId newName

/-- The name of a row. -/
def Db.nameOf? (db : Db) (agentId : String) : Option String :=
  (db.agentRegistry.get? agentId).map AgentRow.agentName

/-- One statement of a call, and what is left of the call. -/
def Names.statement (s : Names) (isLive : String → Bool) : Task → Option Task × Names
  | .restore agentId agentName => (Task.restoring agentId (s.db.chatsBoundToName agentName), s)
  | .clear agentId chatId threadId chats =>
    (some (.claim agentId chatId threadId chats),
      { s with db := s.db.clearKey agentId chatId threadId })
  | .claim agentId chatId threadId chats =>
    match s.db.write (s.db.agentRegistry.updateKey agentId (AgentRow.routed · chatId threadId)
        (AgentRow.agentId_routed chatId threadId)) with
    | .error _ => (none, s)
    | .ok db => (Task.restoring agentId chats, { s with db })
  | .rename agentId newName => (some (.check agentId newName (s.db.nameOf? agentId)), s)
  | .check agentId newName oldName =>
    if ValidName newName ∧ ¬ ∃ r ∈ s.db.agentRegistry.rows, r.agentName = newName ∧
        r.agentId ≠ agentId ∧ r.isAlive = true then (some (.write agentId newName oldName), s)
    else (none, s)
  | .write agentId newName oldName =>
    match s.db.write (s.db.renamed agentId newName) with
    | .error _ => (none, s)
    | .ok db =>
      if (s.db.agentRegistry.get? agentId).isSome then
        (some (.renamed agentId newName oldName), { s with db })
      else (none, { s with db })
  | .migrate agentId oldName newName _ =>
    (some (.remember agentId newName), { s with db := s.db.migrateBindings oldName newName })
  | .remember agentId newName =>
    match s.claudeSession agentId with
    | none => (none, s)
    | some sessionId =>
      (none, { s with
        conversationNick := Function.update s.conversationNick sessionId (some newName) })
  | .capture agentId sessionId =>
    (some (.current agentId sessionId),
      { s with claudeSession := Function.update s.claudeSession agentId (some sessionId) })
  | .current agentId sessionId =>
    (some (.recall agentId sessionId ((s.db.nameOf? agentId).getD "")), s)
  | .recall agentId sessionId current =>
    match s.conversationNick sessionId with
    | none => (some (.pin sessionId current), s)
    | some nick => (if nick = current then none else some (.taken agentId nick), s)
  | .taken agentId nick =>
    (if s.db.nickIsTaken isLive nick agentId then none else some (.rename agentId nick), s)
  | .pin sessionId current =>
    (none, { s with
      conversationNick := Function.update s.conversationNick sessionId (some current) })

/-- A call to the registry that is one statement, or one transaction, and gives nobody a name. -/
def Op.isSingle : Op → Bool
  | .unregister _ | .markConnectionOrphaned _ | .reapOnBoot | .reap _ | .bindRoutingKey _ _ _
  | .unbindRoutingKey _ | .bindChatToName _ _ _ _ => true
  | _ => false

/-- What can happen next: a call that is over at once, one that begins, the next statement of
one that has begun. -/
inductive NameAct where
  | call (op : Op) (hop : op.isSingle = true)
  | register (agentId agentName connectionId : String) (chatThreadId metadata : Option String)
      (now : Int)
  | rename (agentId newName : String)
  | bindSession (agentId sessionId : String)
  | advance (i : Nat) (isLive : String → Bool)

/-- A list with one element rewritten, or taken out. -/
def putTask (tasks : List Task) (i : Nat) : Option Task → List Task
  | some task => tasks.set i task
  | none => tasks.eraseIdx i

/-- One event. A rename and the binding of a conversation are for live sessions:
`resolve_session_token`. -/
def Names.next (s : Names) : NameAct → Names
  | .call op _ => { s with db := Registry.next s.db op }
  | .register agentId agentName connectionId chatThreadId metadata now =>
    match s.db.register agentId agentName connectionId chatThreadId metadata now with
    | .error _ => s
    | .ok (outcome, db) =>
      { s with db, tasks := s.tasks ++ [.restore agentId outcome.effectiveName] }
  | .rename agentId newName =>
    if s.db.aliveOf agentId then { s with tasks := s.tasks ++ [.rename agentId newName] } else s
  | .bindSession agentId sessionId =>
    if s.db.aliveOf agentId then { s with tasks := s.tasks ++ [.capture agentId sessionId] } else s
  | .advance i isLive =>
    match s.tasks[i]? with
    | none => s
    | some task =>
      { (s.statement isLive task).2 with tasks := putTask s.tasks i (s.statement isLive task).1 }

/-! ### What names promise -/

/-- No two live sessions have one name. -/
def Db.UniqueNames (db : Db) : Prop :=
  ∀ r ∈ db.agentRegistry.rows, ∀ r' ∈ db.agentRegistry.rows,
    r.isAlive = true → r'.isAlive = true → r.agentName = r'.agentName → r = r'

/-- The name of a live session resolves. -/
def Db.NamesResolve (db : Db) : Prop :=
  ∀ r ∈ db.agentRegistry.rows, r.isAlive = true → ∃ agentId, db.resolveTarget r.agentName = .ok agentId

/-- Another live session than `agentId` loses its routing key, or a chat bound to its name. -/
def TakesChat (db db' : Db) (agentId : String) : Prop :=
  ∃ r ∈ db.agentRegistry.rows, r.isAlive = true ∧ r.agentId ≠ agentId ∧
    (r.routingChatId ≠ none ∧
        (∃ r' ∈ db'.agentRegistry.rows, r'.agentId = r.agentId ∧ r'.routingChatId = none) ∨
      ∃ b ∈ db.chatBindings.rows, b.agentName = r.agentName ∧
        ∃ b' ∈ db'.chatBindings.rows, b'.key = b.key ∧ b'.agentName ≠ r.agentName)

/-- The session a statement is run for. -/
def Task.agentId? : Task → Option String
  | .restore agentId _ | .clear agentId _ _ _ | .claim agentId _ _ _ | .rename agentId _
  | .check agentId _ _ | .write agentId _ _ | .migrate agentId _ _ _ | .remember agentId _
  | .capture agentId _ | .current agentId _ | .recall agentId _ _ | .taken agentId _ => some agentId
  | .pin _ _ => none

/-- No statement of a call takes a chat from another live session than the one it is run for. -/
def KeepsChats (t : Step Names NameAct) : Prop :=
  ∀ i isLive task agentId, t.op = .advance i isLive → t.before.tasks[i]? = some task →
    task.agentId? = some agentId → ¬ TakesChat t.before.db t.after.db agentId

/-! ### When they are kept -/

/-- A live session beside `agentId`, that `buried` does not spare, has the name. -/
def Db.HeldBeside (db : Db) (agentId name : String) (buried : AgentRow → Bool) : Prop :=
  ∃ r ∈ db.agentRegistry.rows, r.isAlive = true ∧ r.agentId ≠ agentId ∧ buried r = false ∧
    r.agentName = name

/-- What a statement needs: a name that is written on the row of a live session is held by no
other, bindings move away from a name that no other live session has, and a chat that is
restored is held by no other. -/
def Task.Free (db : Db) : Task → Prop
  | .write agentId newName _ =>
    db.aliveOf agentId = true → db.Admits (db.renamed agentId newName) →
      ¬ db.HeldBeside agentId newName fun _ ↦ false
  | .migrate agentId oldName _ _ =>
    (∃ b ∈ db.chatBindings.rows, b.agentName = oldName) →
      ¬ db.HeldBeside agentId oldName fun _ ↦ false
  | .clear agentId chatId threadId _ =>
    ∀ r ∈ db.agentRegistry.rows, r.isAlive = true → r.agentId ≠ agentId →
      r.routes chatId threadId = false
  | _ => True

/-- The name a registration leaves on its row is held by no live session it does not bury, and
so with the statements of the other calls. -/
def NamesFree (t : Step Names NameAct) : Prop :=
  match t.op with
  | .register agentId agentName connectionId chatThreadId metadata now =>
    ValidName agentName →
      t.before.db.Admits
        (t.before.db.registered agentId agentName connectionId chatThreadId metadata now) →
      ¬ t.before.db.HeldBeside agentId (t.before.db.effectiveName agentId agentName)
        (Db.sweeps agentId connectionId chatThreadId)
  | .advance i _ => ∀ task, t.before.tasks[i]? = some task → task.Free t.before.db
  | _ => True

end Claudebase.Registry
