import Claudebase.Registry.Db

/-!
# Registering, binding and leaving

`src/daemon/agent_registry.rs:129–141,202–322,381–460,471–496,1467–1660`. Each function that
is one transaction commits or changes nothing; restoring the bindings of a name runs statement
by statement and keeps what it has done when one fails.
-/

namespace Claudebase.Registry
open Claudebase.Base
open Pool (AgentState)

/-- `validate_agent_name`. -/
def ValidName (name : String) : Prop :=
  name ≠ "" ∧ byteLength name ≤ 64 ∧
    name.toList.all (fun c ↦ c.isAlphanum || c == '_' || c == '-') = true

instance (name : String) : Decidable (ValidName name) :=
  inferInstanceAs (Decidable (name ≠ "" ∧ byteLength name ≤ 64 ∧
    name.toList.all (fun c ↦ c.isAlphanum || c == '_' || c == '-') = true))

/-- What `validate_agent_name` says of any other name. -/
def invalidName : String := "agent_name must be 1-64 chars of [a-zA-Z0-9_-]"

/-- `RegisterOutcome`. -/
structure RegisterOutcome where
  spawnedAt : Int
  effectiveName : String
  deriving DecidableEq, Repr

namespace Db

/-! ### Coming and going -/

/-- The sessions a registration buries: live ones of its connection and thread under another
id. -/
def sweeps (agentId connectionId : String) (chatThreadId : Option String) (r : AgentRow) : Bool :=
  r.connectionId == connectionId && r.agentId != agentId && r.isAlive && r.chatThreadId == chatThreadId

/-- The rows after the sweep of a registration. -/
def sweep (db : Db) (agentId connectionId : String) (chatThreadId : Option String) :
    Table AgentRow.agentId :=
  db.agentRegistry.update (sweeps agentId connectionId chatThreadId)
    (fun r ↦ { r with state := .dead }) (fun _ ↦ rfl)

/-- `INSERT … ON CONFLICT(agent_id) DO UPDATE`: a row that exists keeps its name. -/
def upsert (rows : Table AgentRow.agentId) (agentId agentName connectionId : String)
    (chatThreadId metadata : Option String) (now : Int) : Table AgentRow.agentId :=
  match rows.get? agentId with
  | some _ =>
    rows.updateKey agentId (fun r ↦ { r with
      connectionId, chatThreadId, lastPingedAt := now, state := .alive, metadata }) (fun _ ↦ rfl)
  | none =>
    rows.insertOrIgnore ⟨agentId, agentName, connectionId, chatThreadId, now, now, .alive, metadata,
      none, none⟩

/-- `register`. -/
def register (db : Db) (agentId agentName connectionId : String)
    (chatThreadId metadata : Option String) (now : Int) : Except String (RegisterOutcome × Db) := do
  require (ValidName agentName) ("agent_register: validate name: " ++ invalidName)
  let rows := upsert (db.sweep agentId connectionId chatThreadId) agentId agentName connectionId
    chatThreadId metadata now
  match db.write rows with
  | .error .unique =>
    throw "agent_name already alive in thread; unregister first or use different name"
  | .error .check => throw Violation.check.message
  | .ok db =>
    let r ← okOr (db.agentRegistry.get? agentId) "Query returned no rows"
    return (⟨now, r.agentName⟩, db)

/-- `unregister`. Returns the previous state. -/
def unregister (db : Db) (agentId : String) : String × Db :=
  match db.agentRegistry.get? agentId with
  | none => ("absent", db)
  | some r =>
    let agentRegistry := db.agentRegistry.updateKey agentId (fun r ↦ { r with state := .dead })
      (fun _ ↦ rfl)
    (stateName r.state, { db with agentRegistry })

/-- `rename`. -/
def rename (db : Db) (agentId newName : String) : Except String Db := do
  require (ValidName newName) ("agent rename: validate name: " ++ invalidName)
  require (¬ ∃ r ∈ db.agentRegistry.rows, r.agentName = newName ∧ r.agentId ≠ agentId ∧
      r.isAlive = true)
    s!"`{newName}` is already taken by another live session — nicks are how /switch addresses a window, so two windows may not share one"
  match db.write (db.agentRegistry.updateKey agentId (fun r ↦ { r with agentName := newName })
      (fun _ ↦ rfl)) with
  | .error v => throw v.message
  | .ok db => return db

/-- `mark_connection_orphaned`: the connection is gone. -/
def markConnectionOrphaned (db : Db) (connectionId : String) : Db :=
  let agentRegistry := db.agentRegistry.update
    (fun r ↦ r.connectionId == connectionId && r.isAlive) (fun r ↦ { r with state := .orphaned })
    (fun _ ↦ rfl)
  { db with agentRegistry }

/-- `reap_on_boot`: every connection is gone. -/
def reapOnBoot (db : Db) : Db :=
  let agentRegistry := db.agentRegistry.update AgentRow.isAlive
    (fun r ↦ { r with state := .orphaned }) (fun _ ↦ rfl)
  { db with agentRegistry }

/-- `reap`: orphans that were last seen before `cutoff` are given up. -/
def reap (db : Db) (cutoff : Int) : Db :=
  let agentRegistry := db.agentRegistry.update
    (fun r ↦ r.state == .orphaned && decide (r.lastPingedAt < cutoff))
    (fun r ↦ { r with state := .dead }) (fun _ ↦ rfl)
  { db with agentRegistry }

/-! ### Routing keys -/

/-- `bind_routing_key`: other live sessions lose the key, then the session gets it if it is
alive. -/
def bindRoutingKey (db : Db) (agentId : String) (chatId : Int) (threadId : Option Int) :
    Except Violation Db :=
  let cleared := db.agentRegistry.update
    (fun r ↦ r.isAlive && r.routes chatId threadId && r.agentId != agentId) AgentRow.unrouted
    AgentRow.agentId_unrouted
  db.write (cleared.update (fun r ↦ r.agentId == agentId && r.isAlive)
    (AgentRow.routed · chatId threadId) (AgentRow.agentId_routed chatId threadId))

/-- `unbind_routing_key`. -/
def unbindRoutingKey (db : Db) (agentId : String) : Db :=
  let agentRegistry := db.agentRegistry.updateKey agentId AgentRow.unrouted
    AgentRow.agentId_unrouted
  { db with agentRegistry }

/-- `resolve_routing`: the first row the query finds. -/
def resolveRouting (db : Db) (chatId : Int) (threadId : Option Int) : Option String :=
  (db.agentRegistry.rows.find? fun r ↦ r.routes chatId threadId && r.isAlive).map AgentRow.agentId

/-- `bind_chat_to_name`. -/
def bindChatToName (db : Db) (chatId : Int) (threadId : Option Int) (agentName : String)
    (now : Int) : Db :=
  let b : ChatBinding := ⟨chatId, threadId.getD (-1), agentName, now⟩
  let chatBindings := match db.chatBindings.get? b.key with
    | some _ =>
      db.chatBindings.updateKey b.key (fun x ↦ { x with agentName, boundAt := now }) (fun _ ↦ rfl)
    | none => db.chatBindings.insertOrIgnore b
  { db with chatBindings }

/-- `migrate_bindings`. -/
def migrateBindings (db : Db) (oldNick newNick : String) : Db :=
  let chatBindings := db.chatBindings.update (fun b ↦ b.agentName == oldNick)
    (fun b ↦ { b with agentName := newNick }) (fun _ ↦ rfl)
  { db with chatBindings }

/-- `chats_bound_to_name`. -/
def chatsBoundToName (db : Db) (agentName : String) : List (Int × Option Int) :=
  (db.chatBindings.rows.filter fun b ↦ b.agentName == agentName).map fun b ↦
    (b.chatId, if b.threadId < 0 then none else some b.threadId)

/-- Every other session loses a key, alive or not. -/
def clearKey (db : Db) (agentId : String) (chatId : Int) (threadId : Option Int) : Db :=
  let agentRegistry := db.agentRegistry.update
    (fun r ↦ r.routes chatId threadId && r.agentId != agentId) AgentRow.unrouted
    AgentRow.agentId_unrouted
  { db with agentRegistry }

/-- The statements of `restore_bindings_for`: for each chat, the others lose the key and the
session gets it. -/
def restoreLoop (agentId : String) : List (Int × Option Int) → Nat → Db → Except Violation Nat × Db
  | [], restored, db => (.ok restored, db)
  | (chatId, threadId) :: chats, restored, db =>
    let db := db.clearKey agentId chatId threadId
    match db.write (db.agentRegistry.updateKey agentId (AgentRow.routed · chatId threadId)
        (AgentRow.agentId_routed chatId threadId)) with
    | .error v => (.error v, db)
    | .ok db => restoreLoop agentId chats (restored + 1) db

/-- `restore_bindings_for`. -/
def restoreBindingsFor (db : Db) (agentId agentName : String) : Except Violation Nat × Db :=
  restoreLoop agentId (db.chatsBoundToName agentName) 0 db

end Db

/-! ### Runs -/

/-- A call to the registry. -/
inductive Op where
  | register (agentId agentName connectionId : String) (chatThreadId metadata : Option String)
      (now : Int)
  | unregister (agentId : String)
  | rename (agentId newName : String)
  | markConnectionOrphaned (connectionId : String)
  | reapOnBoot
  | reap (cutoff : Int)
  | bindRoutingKey (agentId : String) (chatId : Int) (threadId : Option Int)
  | unbindRoutingKey (agentId : String)
  | bindChatToName (chatId : Int) (threadId : Option Int) (agentName : String) (now : Int)
  | migrateBindings (oldNick newNick : String)
  | restoreBindingsFor (agentId agentName : String)
  deriving DecidableEq, Repr

/-- What a call leaves: a transaction that fails leaves everything as it was. -/
def next (db : Db) : Op → Db
  | .register agentId agentName connectionId chatThreadId metadata now =>
    (transact db (db.register agentId agentName connectionId chatThreadId metadata now)).2
  | .unregister agentId => (db.unregister agentId).2
  | .rename agentId newName => ((db.rename agentId newName).toOption).getD db
  | .markConnectionOrphaned connectionId => db.markConnectionOrphaned connectionId
  | .reapOnBoot => db.reapOnBoot
  | .reap cutoff => db.reap cutoff
  | .bindRoutingKey agentId chatId threadId =>
    ((db.bindRoutingKey agentId chatId threadId).toOption).getD db
  | .unbindRoutingKey agentId => db.unbindRoutingKey agentId
  | .bindChatToName chatId threadId agentName now => db.bindChatToName chatId threadId agentName now
  | .migrateBindings oldNick newNick => db.migrateBindings oldNick newNick
  | .restoreBindingsFor agentId agentName => (db.restoreBindingsFor agentId agentName).2

/-! ### The constraints hold in every run -/

namespace Db

/-- A statement that takes rows out of the indexes, or leaves their place, and keeps every
topic. -/
theorem Sound.update {db : Db} (h : db.Sound) {p : AgentRow → Bool} {f : AgentRow → AgentRow}
    (hf : ∀ r, (f r).agentId = r.agentId)
    (hname : ∀ r, p r = true → (f r).nameKey = none ∨ (f r).nameKey = r.nameKey)
    (hrouting : ∀ r, p r = true → (f r).routingKey = none ∨ (f r).routingKey = r.routingKey)
    (htopic : ∀ r, r.topicOk = true → (f r).topicOk = true) :
    Sound ⟨db.agentRegistry.update p f hf, db.chatBindings⟩ where
  topic r hr := by
    obtain ⟨y, hy, rfl⟩ := (Table.mem_update hf).mp hr
    by_cases hp : p y = true
    · rw [if_pos hp]
      exact htopic y (h.topic y hy)
    · rw [if_neg hp]
      exact h.topic y hy
  name := indexed_update hf (fun r _ ↦ hname r) h.name
  routing := indexed_update hf (fun r _ ↦ hrouting r) h.routing

/-- A session that is not alive is in no index. -/
theorem Sound.retire {db : Db} (h : db.Sound) {p : AgentRow → Bool} {f : AgentRow → AgentRow}
    (hf : ∀ r, (f r).agentId = r.agentId) (hgone : ∀ r, (f r).isAlive = false)
    (htopic : ∀ r, (f r).topicOk = r.topicOk) :
    Sound ⟨db.agentRegistry.update p f hf, db.chatBindings⟩ := by
  apply h.update
  · intro r _
    simp [AgentRow.nameKey, hgone r]
  · intro r _
    simp [AgentRow.routingKey, hgone r]
  · exact fun r hr ↦ (htopic r).trans hr

/-- A session that loses its key is not in its index. -/
theorem Sound.unroute {db : Db} (h : db.Sound) {p : AgentRow → Bool} :
    Sound ⟨db.agentRegistry.update p AgentRow.unrouted AgentRow.agentId_unrouted, db.chatBindings⟩ := by
  apply h.update
  · exact fun r _ ↦ Or.inr rfl
  · intro r _
    apply Or.inl
    unfold AgentRow.routingKey
    split
    · rfl
    · rfl
  · exact fun r _ ↦ rfl

theorem register_eq_ok {db db' : Db} {agentId agentName connectionId : String}
    {chatThreadId metadata : Option String} {now : Int} {outcome : RegisterOutcome} :
    db.register agentId agentName connectionId chatThreadId metadata now = .ok (outcome, db') ↔
      ValidName agentName ∧
      db.write (upsert (db.sweep agentId connectionId chatThreadId) agentId agentName connectionId
        chatThreadId metadata now) = .ok db' ∧
      ∃ r, db'.agentRegistry.get? agentId = some r ∧ outcome = ⟨now, r.agentName⟩ := by
  unfold register
  rw [bind_eq_ok]
  simp only [require_eq_ok]
  constructor
  · rintro ⟨-, hvalid, h⟩
    split at h
    · cases h
    · cases h
    · next db₁ hwrite =>
      obtain ⟨r, hr, h⟩ := bind_eq_ok.mp h
      cases h
      exact ⟨hvalid, hwrite, r, okOr_eq_ok.mp hr, rfl⟩
  · rintro ⟨hvalid, hwrite, r, hr, rfl⟩
    refine ⟨(), hvalid, ?_⟩
    rw [hwrite]
    simp [hr, okOr, bind, Except.bind, pure, Except.pure]

theorem sound_restoreLoop {agentId : String} {chats : List (Int × Option Int)} {restored : Nat}
    {db : Db} (h : db.Sound) : (restoreLoop agentId chats restored db).2.Sound := by
  induction chats generalizing restored db with
  | nil => exact h
  | cons chat chats ih =>
    rw [restoreLoop]
    split
    · exact h.unroute
    · next db' hwrite => exact ih (write_eq_ok.mp hwrite).2

theorem sound_rename {db db' : Db} {agentId newName : String}
    (h : db.rename agentId newName = .ok db') : db'.Sound := by
  unfold rename at h
  obtain ⟨-, -, h⟩ := bind_eq_ok.mp h
  obtain ⟨-, -, h⟩ := bind_eq_ok.mp h
  split at h
  · cases h
  · next db₁ hwrite =>
    cases h
    exact (write_eq_ok.mp hwrite).2

end Db

/-- One call. -/
theorem sound_next {db : Db} (h : db.Sound) (op : Op) : (next db op).Sound := by
  cases op with
  | register agentId agentName connectionId chatThreadId metadata now =>
    rcases transact_cases db (db.register agentId agentName connectionId chatThreadId metadata now)
      with hsame | ⟨outcome, hok⟩
    · rw [next, hsame]
      exact h
    · exact (Db.write_eq_ok.mp (Db.register_eq_ok.mp hok).2.1).2
  | unregister agentId =>
    simp only [next, Db.unregister]
    split
    · exact h
    · exact h.retire _ (fun _ ↦ rfl) (fun _ ↦ rfl)
  | rename agentId newName =>
    cases hok : db.rename agentId newName with
    | error e =>
      rw [next, hok]
      exact h
    | ok db' =>
      rw [next, hok]
      exact Db.sound_rename hok
  | markConnectionOrphaned connectionId => exact h.retire _ (fun _ ↦ rfl) (fun _ ↦ rfl)
  | reapOnBoot => exact h.retire _ (fun _ ↦ rfl) (fun _ ↦ rfl)
  | reap cutoff => exact h.retire _ (fun _ ↦ rfl) (fun _ ↦ rfl)
  | bindRoutingKey agentId chatId threadId =>
    cases hok : db.bindRoutingKey agentId chatId threadId with
    | error e =>
      rw [next, hok]
      exact h
    | ok db' =>
      rw [next, hok]
      exact (Db.write_eq_ok.mp hok).2
  | unbindRoutingKey agentId => exact h.unroute
  | bindChatToName chatId threadId agentName now => exact ⟨h.topic, h.name, h.routing⟩
  | migrateBindings oldNick newNick => exact ⟨h.topic, h.name, h.routing⟩
  | restoreBindingsFor agentId agentName => exact Db.sound_restoreLoop h

/-- Every run. -/
theorem sound_run (ops : List Op) : (run next .empty ops).Sound :=
  invariant_of_run Db.sound_empty fun t ht hbefore ↦ by
    rw [after_of_mem_trace ht]
    exact sound_next hbefore t.op

end Claudebase.Registry
