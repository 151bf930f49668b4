import Claudebase.Pool.Ops
import Claudebase.Registry.Names

/-!
# The tools that name a session

`src/daemon/server.rs:1486–1660,1685–1960,1962–2032,2072–2136,2216–2245,2402–2430,2476–2501`,
`src/daemon/agent_registry.rs:297–330,348–388,500–560,579–636,932–972,1013–1120,1234–1247`. Each tool
call comes over a connection. Some tools take the session they act for from the connection, some
from an id and a token, and some from an argument.
-/

namespace Claudebase.Registry
open Claudebase.Base

/-! ### What is known of a session -/

/-- Where a session runs, as it says. -/
structure Process where
  host : Option String
  pid : Option Int
  cwd : Option String
  deriving DecidableEq, Repr

/-- The machine of the daemon: its name, and the processes that run on it. -/
structure Machine where
  thisHost : String
  running : Int → Bool

/-- `process_is_live`: a process of another machine, or an unknown one, counts as running. -/
def processIsLive (machine : Machine) (p : Process) : Bool :=
  match p.host, p.pid with
  | some host, some pid => if host ≠ machine.thisHost then true else machine.running pid
  | _, _ => true

/-- A message that `agent_send` stored. -/
structure SentMessage where
  threadId : String
  fromAgent : String
  content : String
  createdAt : Int
  deriving DecidableEq, Repr

/-- A registration that went through. -/
structure Registration where
  agentId : String
  connectionId : String
  sessionToken : Option String
  deriving DecidableEq, Repr

/-- The registry with the columns of a session that no index reads, what is remembered of its
conversation and its pool, the messages stored by `agent_send`, and the registrations so far. -/
structure Roster where
  db : Db
  sessionToken : String → Option String
  featureDescription : String → Option String
  dndUntilTs : String → Option Int
  process : String → Process
  claudeSession : String → Option String
  conversationNick : String → Option String
  poolOf : String → Option String
  messages : List SentMessage
  registrations : List Registration

/-- Nobody has registered. -/
def Roster.empty : Roster where
  db := .empty
  sessionToken _ := none
  featureDescription _ := none
  dndUntilTs _ := none
  process _ := ⟨none, none, none⟩
  claudeSession _ := none
  conversationNick _ := none
  poolOf _ := none
  messages := []
  registrations := []

namespace Roster

/-! ### Who calls -/

/-- `resolve_session_token`. -/
def resolveSessionToken (s : Roster) (agentId token : String) : Bool :=
  if token = "" then false
  else s.db.aliveOf agentId && s.sessionToken agentId == some token

/-- `lookup_agent_id_by_connection`: the live session of the connection that was seen last. -/
def lookupAgentIdByConnection (s : Roster) (connectionId : String) : Option String :=
  (((s.db.agentRegistry.rows.filter fun r ↦ r.connectionId == connectionId && r.isAlive).mergeSort
    fun r r' ↦ decide (r'.lastPingedAt ≤ r.lastPingedAt)).head?).map AgentRow.agentId

/-- The session a call speaks for: the one of its connection, else the one whose token it
shows. -/
def resolveSender (s : Roster) (connectionId : String) (fromAgentId sessionToken : Option String) :
    Except String String :=
  match s.lookupAgentIdByConnection connectionId with
  | some agentId => .ok agentId
  | none =>
    match fromAgentId with
    | none => .error ("no alive agent on this connection — call agent_register first, " ++
        "or pass from_agent_id + session_token")
    | some claimed =>
      if s.resolveSessionToken claimed (sessionToken.getD "") then .ok claimed
      else .error "session_token does not match an alive agent"

/-! ### Registering -/

/-- `capture_process`: what is not said stays. -/
def captureProcess (s : Roster) (agentId : String) (said : Process) : Roster :=
  let known := s.process agentId
  { s with
    process := Function.update s.process agentId
      ⟨said.host.or known.host, said.pid.or known.pid, said.cwd.or known.cwd⟩ }

/-- A row of `supersede_stale_slots`: another session of that name and directory that was not
given up, and whose process is gone. -/
def isStaleSlot (s : Roster) (machine : Machine) (agentId agentName cwd : String) (r : AgentRow) :
    Bool :=
  r.agentName == agentName && (s.process r.agentId).cwd == some cwd && r.agentId != agentId &&
    r.state != .dead && !processIsLive machine (s.process r.agentId)

/-- `supersede_stale_slots`. -/
def supersedeStaleSlots (s : Roster) (machine : Machine) (agentId agentName : String)
    (cwd : Option String) : Roster :=
  match cwd with
  | none => s
  | some cwd =>
    let agentRegistry := s.db.agentRegistry.update (s.isStaleSlot machine agentId agentName cwd)
      (fun r ↦ { r with state := .dead }) AgentRow.agentId_dead
    { s with db := { s.db with agentRegistry } }

/-- `handle_agent_register`, once the row is written. -/
def afterRegister (s : Roster) (machine : Machine) (agentId agentName : String)
    (sessionToken : Option String) (said : Process) (pool : Option String) : Roster :=
  let s := match sessionToken with
    | some token =>
      { s with sessionToken := Function.update s.sessionToken agentId (some token) }
    | none => s
  let s := s.captureProcess agentId said
  let s := { s with db := (s.db.restoreBindingsFor agentId agentName).2 }
  let s := s.supersedeStaleSlots machine agentId agentName said.cwd
  match pool.filter fun pool ↦ (Pool.checkPool pool).isOk with
  | some pool => { s with poolOf := Function.update s.poolOf agentId (some pool) }
  | none => s

/-! ### Renaming -/

/-- `rename_in_place`. -/
def renameInPlace (s : Roster) (agentId newName : String) : Except String Roster := do
  let oldName := s.db.nameOf? agentId
  let db ← s.db.rename agentId newName
  require oldName.isSome "no registry row for this session"
  let db := match oldName.filter fun old ↦ old != newName with
    | some old => db.migrateBindings old newName
    | none => db
  match s.claudeSession agentId with
  | none => return { s with db }
  | some sessionId => return { s with
      db, conversationNick := Function.update s.conversationNick sessionId (some newName) }

/-- What a pool worker that asks for another nick is told. -/
def workerKeepsNick (pool : String) : String :=
  s!"a worker of pool `{pool}` keeps the nick `claudebase run --pool` gave it; " ++
    "to choose one, start the worker with --nick"

/-- `handle_agent_bind_session`, for a session that has shown its token; when the rename fails
the conversation stays bound. -/
def bindSession (s : Roster) (machine : Machine) (agentId sessionId : String) : Roster :=
  let s := { s with claudeSession := Function.update s.claudeSession agentId (some sessionId) }
  let current := (s.db.nameOf? agentId).getD ""
  match s.conversationNick sessionId with
  | some remembered =>
    if remembered = current then s
    else if s.db.nickIsTaken (fun id ↦ processIsLive machine (s.process id)) remembered agentId then
      s
    else ((s.renameInPlace agentId remembered).toOption).getD s
  | none =>
    { s with conversationNick := Function.update s.conversationNick sessionId (some current) }

end Roster

/-! ### Calls -/

/-- A tool call. Its deadline is what `parse_dnd_state` reads off the text. -/
inductive Call where
  | agentRegister (agentId name : String) (thread metadata sessionToken : Option String)
      (said : Process) (pool : Option String) (now : Int)
  | agentRename (fromAgentId name sessionToken : String)
  | agentBindSession (fromAgentId sessionId sessionToken : String)
  | agentDescribe (description : String) (fromAgentId sessionToken : Option String)
  | agentSend (toAgentId content : String) (fromAgentId sessionToken : Option String) (now : Int)
  | agentSetDnd (dndUntilTs : Option Int)
  | agentUnregister (agentId : String)
  | agentReap (cutoff : Int)

/-- The token a call shows. -/
def Call.sessionToken? : Call → Option String
  | .agentRegister _ _ _ _ sessionToken _ _ _ => sessionToken
  | .agentRename _ _ sessionToken | .agentBindSession _ _ sessionToken => some sessionToken
  | .agentDescribe _ _ sessionToken | .agentSend _ _ _ sessionToken _ => sessionToken
  | .agentSetDnd _ | .agentUnregister _ | .agentReap _ => none

namespace Roster

/-- What a call over `connectionId` leaves, when it goes through. -/
def call (s : Roster) (machine : Machine) (connectionId : String) : Call → Except String Roster
  | .agentRegister agentId name thread metadata sessionToken said pool now => do
    let (outcome, db) ← s.db.register agentId name connectionId thread metadata now
    let s := { s with
      db, registrations := ⟨agentId, connectionId, sessionToken⟩ :: s.registrations }
    return s.afterRegister machine agentId outcome.effectiveName sessionToken said pool
  | .agentRename fromAgentId name sessionToken => do
    require (s.resolveSessionToken fromAgentId sessionToken = true)
      "session_token does not match an alive agent"
    match s.poolOf fromAgentId with
    | some pool => throw (workerKeepsNick pool)
    | none => s.renameInPlace fromAgentId name
  | .agentBindSession fromAgentId sessionId sessionToken => do
    require (s.resolveSessionToken fromAgentId sessionToken = true)
      "session_token does not match an alive agent"
    return s.bindSession machine fromAgentId sessionId
  | .agentDescribe description fromAgentId sessionToken => do
    let agentId ← s.resolveSender connectionId fromAgentId sessionToken
    require (s.db.agentRegistry.get? agentId).isSome
      s!"agent_registry row missing for resolved agent_id {agentId}"
    return { s with
      featureDescription := Function.update s.featureDescription agentId (some description) }
  | .agentSend toAgentId content fromAgentId sessionToken now => do
    let agentId ← s.resolveSender connectionId fromAgentId sessionToken
    require (s.db.aliveOf toAgentId = true) s!"agent not found or not alive: {toAgentId}"
    return { s with
      messages := ⟨"agent:" ++ toAgentId, agentId, content, now⟩ :: s.messages }
  | .agentSetDnd dndUntilTs => do
    let agentId ← okOr (s.lookupAgentIdByConnection connectionId)
      "no alive agent on this connection — call agent_register first"
    return { s with dndUntilTs := Function.update s.dndUntilTs agentId dndUntilTs }
  | .agentUnregister agentId => return { s with db := (s.db.unregister agentId).2 }
  | .agentReap cutoff => return { s with db := s.db.reap cutoff }

end Roster

/-- What can happen next: a party calls a tool, with the tokens it holds beside the one it may
show; a connection ends; the daemon starts again. -/
inductive RosterAct where
  | call (machine : Machine) (connectionId : String) (tokens : List String) (call : Call)
  | close (connectionId : String)
  | reboot

/-- One event. A call that fails changes nothing. -/
def Roster.next (s : Roster) : RosterAct → Roster
  | .call machine connectionId _ call => ((s.call machine connectionId call).toOption).getD s
  | .close connectionId => { s with db := s.db.markConnectionOrphaned connectionId }
  | .reboot => { s with db := s.db.reapOnBoot }

/-! ### Acting as another -/

/-- What others see of a session. -/
structure Face where
  connectionId : String
  agentName : String
  alive : Bool
  sessionToken : Option String
  featureDescription : Option String
  dndUntilTs : Option Int
  deriving DecidableEq, Repr

/-- The face of a session that has registered. -/
def Roster.face (s : Roster) (agentId : String) : Option Face :=
  (s.db.agentRegistry.get? agentId).map fun r ↦
    ⟨r.connectionId, r.agentName, r.isAlive, s.sessionToken agentId, s.featureDescription agentId,
      s.dndUntilTs agentId⟩

/-- A party holds the connection of a session, or its token. -/
def Roster.Holds (s : Roster) (connectionId : String) (tokens : List String) (call : Call)
    (agentId : String) : Prop :=
  (∃ r, s.db.agentRegistry.get? agentId = some r ∧ r.connectionId = connectionId) ∨
    ∃ token, s.sessionToken agentId = some token ∧
      (token ∈ tokens ∨ call.sessionToken? = some token)

/-- The last registration of a session. -/
def Roster.lastRegistration (s : Roster) (agentId : String) : Option Registration :=
  s.registrations.find? fun x ↦ x.agentId == agentId

/-- A message is stored for the session that last registered on the connection it came over, or
that registered with the token the call showed. -/
def SentByAuthor (t : Step Roster RosterAct) : Prop :=
  ∀ machine connectionId tokens call, t.op = .call machine connectionId tokens call →
    ∀ m ∈ t.after.messages, m ∈ t.before.messages ∨
      (∃ x, t.before.lastRegistration m.fromAgent = some x ∧ x.connectionId = connectionId) ∨
      ∃ x ∈ t.before.registrations, x.agentId = m.fromAgent ∧
        ∃ token, call.sessionToken? = some token ∧ x.sessionToken = some token

/-- A call leaves the faces of the sessions of other parties. -/
def Roster.Leaves (s s' : Roster) (connectionId : String) (tokens : List String) (call : Call) :
    Prop :=
  ∀ agentId f, s.face agentId = some f → ¬ s.Holds connectionId tokens call agentId →
    s'.face agentId = some f

/-- The same of a step. -/
def LeavesOthers (t : Step Roster RosterAct) : Prop :=
  ∀ machine connectionId tokens call, t.op = .call machine connectionId tokens call →
    t.before.Leaves t.after connectionId tokens call

/-- A registration that goes through comes from a party of the session, when it has registered
before, and of every live one whose slot it takes; a live session is taken off the registry by a
party of it. -/
def Roster.Admitted (s : Roster) (machine : Machine) (connectionId : String)
    (tokens : List String) :
    Call → Prop
  | .agentRegister agentId name thread metadata sessionToken said pool now =>
    let call := .agentRegister agentId name thread metadata sessionToken said pool now
    ValidName name → s.db.Admits (s.db.registered agentId name connectionId thread metadata now) →
      ((s.db.agentRegistry.get? agentId).isSome → s.Holds connectionId tokens call agentId) ∧
      ∀ cwd, said.cwd = some cwd → ∀ r ∈ s.db.agentRegistry.rows, r.isAlive = true →
        s.isStaleSlot machine agentId (s.db.effectiveName agentId name) cwd r = true →
        s.Holds connectionId tokens call r.agentId
  | .agentUnregister agentId =>
    s.db.aliveOf agentId = true → s.Holds connectionId tokens (.agentUnregister agentId) agentId
  | .agentRename _ _ _ | .agentBindSession _ _ _ | .agentDescribe _ _ _ | .agentSend _ _ _ _ _
  | .agentSetDnd _ | .agentReap _ => True

/-- The same of a step. -/
def Authorised (t : Step Roster RosterAct) : Prop :=
  ∀ machine connectionId tokens call, t.op = .call machine connectionId tokens call →
    t.before.Admitted machine connectionId tokens call

end Claudebase.Registry
