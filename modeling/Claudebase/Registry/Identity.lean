import Claudebase.Registry.Roster
import Claudebase.Registry.Unique

/-!
# Who acts for a session

`src/daemon/server.rs:1486–1660,2034–2136,2402–2430`, `src/daemon/agent_registry.rs:202–330,927–972`.
The author of a message comes from the connection or from a token, and so does the session that
is renamed, described or silenced. `agent_register` and `agent_unregister` take an id from their
arguments: they are what lets one session act on another.
-/

namespace Claudebase.Registry
open Claudebase.Base

/-! ### Parts of a row -/

/-- What others see of a row. -/
def AgentRow.seen (r : AgentRow) : String × String × Bool :=
  (r.connectionId, r.agentName, r.isAlive)

namespace Db

variable {β : Type} {g : AgentRow → β} {db db' : Db} {a agentId agentName connectionId : String}
  {chatThreadId metadata : Option String} {now : Int}

/-- Part of the row of a session. -/
def look (g : AgentRow → β) (db : Db) (agentId : String) : Option β :=
  (db.agentRegistry.get? agentId).map g

theorem look_of_eq (h : db'.agentRegistry = db.agentRegistry) : db'.look g a = db.look g a :=
  congrArg (fun t ↦ (t.get? a).map g) h

/-- An update that leaves the part. -/
theorem look_update {p : AgentRow → Bool} {f : AgentRow → AgentRow}
    {hf : ∀ r, (f r).agentId = r.agentId} {chatBindings : Table ChatBinding.key}
    (h : ∀ r, db.agentRegistry.get? a = some r → p r = true → g (f r) = g r) :
    look g ⟨db.agentRegistry.update p f hf, chatBindings⟩ a = db.look g a := by
  unfold look
  rw [Table.get?_update hf]
  cases hget : db.agentRegistry.get? a with
  | none => rfl
  | some r =>
    rw [Option.map_some, Option.map_some, Option.map_some]
    split
    · next hp => rw [h r hget hp]
    · rfl

/-- Restoring bindings leaves what does not depend on the routing key. -/
theorem look_restoreLoop (hclear : ∀ r : AgentRow, g r.unrouted = g r)
    (hroute : ∀ (r : AgentRow) chatId threadId, g (r.routed chatId threadId) = g r)
    (chats : List (Int × Option Int)) (restored : Nat) :
    (restoreLoop agentId chats restored db).2.look g a = db.look g a := by
  induction chats generalizing restored db with
  | nil => rfl
  | cons chat chats ih =>
    have hcleared : (db.clearKey agentId chat.1 chat.2).look g a = db.look g a :=
      look_update fun r _ _ ↦ hclear r
    rw [restoreLoop]
    split
    · exact hcleared
    · next db' hwrite =>
      obtain ⟨rfl, -⟩ := write_eq_ok.mp hwrite
      rw [ih]
      exact (look_update fun r _ _ ↦ hroute r _ _).trans hcleared

theorem look_restoreBindingsFor (hclear : ∀ r : AgentRow, g r.unrouted = g r)
    (hroute : ∀ (r : AgentRow) chatId threadId, g (r.routed chatId threadId) = g r) :
    (db.restoreBindingsFor agentId agentName).2.look g a = db.look g a :=
  look_restoreLoop hclear hroute _ _

/-- A registration leaves the rows of the others but for those it buries. -/
theorem look_registered_of_ne (ha : a ≠ agentId)
    (hkept : ∀ r, db.agentRegistry.get? a = some r →
      sweeps agentId connectionId chatThreadId r = true → g { r with state := .dead } = g r)
    (h : db.write (db.registered agentId agentName connectionId chatThreadId metadata now) =
      .ok db') : db'.look g a = db.look g a := by
  obtain ⟨rfl, -⟩ := write_eq_ok.mp h
  have hupsert : (db.registered agentId agentName connectionId chatThreadId metadata now).get? a =
      (db.sweep agentId connectionId chatThreadId).get? a := by
    unfold registered upsert
    split
    · exact Table.get?_updateKey_of_ne _ ha
    · exact Table.get?_insertOrIgnore_of_ne ha
  have hsweep : look g ⟨db.sweep agentId connectionId chatThreadId, db.chatBindings⟩ a =
      db.look g a := look_update hkept
  exact (congrArg (Option.map g) hupsert).trans hsweep

/-- Its own row has its connection. -/
theorem connectionId_registered
    (h : db.write (db.registered agentId agentName connectionId chatThreadId metadata now) =
      .ok db') : db'.look AgentRow.connectionId agentId = some connectionId := by
  obtain ⟨rfl, -⟩ := write_eq_ok.mp h
  show ((db.registered agentId agentName connectionId chatThreadId metadata now).get? agentId).map
    AgentRow.connectionId = _
  unfold registered upsert
  cases hget : (db.sweep agentId connectionId chatThreadId).get? agentId with
  | some r =>
    dsimp only
    rw [Table.get?_updateKey_self, hget]
    rfl
  | none =>
    dsimp only
    rw [Table.get?_insertOrIgnore_self hget]
    rfl

theorem effectiveName_of_register {outcome : RegisterOutcome}
    (h : db.register agentId agentName connectionId chatThreadId metadata now =
      .ok (outcome, db')) : outcome.effectiveName = db.effectiveName agentId agentName := by
  obtain ⟨-, hwrite, r, hr, rfl⟩ := register_eq_ok.mp h
  obtain ⟨x, hx, -, hid, hname⟩ := (gives_registered hwrite).self
  obtain ⟨hrmem, hrid⟩ := Table.get?_eq_some_iff.mp hr
  rw [← hname, db'.agentRegistry.eq_of_key_eq hrmem hx (hrid.trans hid.symm)]

theorem rename_eq_ok {newName : String} (h : db.rename agentId newName = .ok db') :
    db'.agentRegistry = db.renamed agentId newName := by
  unfold rename at h
  obtain ⟨-, -, h⟩ := bind_eq_ok.mp h
  obtain ⟨-, -, h⟩ := bind_eq_ok.mp h
  split at h
  · cases h
  · next db₁ hwrite =>
    cases h
    obtain ⟨rfl, -⟩ := write_eq_ok.mp hwrite
    rfl

theorem look_renamed {newName : String} (h : db'.agentRegistry = db.renamed agentId newName)
    (hg : ∀ r : AgentRow, g { r with agentName := newName } = g r) :
    db'.look g a = db.look g a := by
  have hrow : look g ⟨db.renamed agentId newName, db.chatBindings⟩ a = db.look g a := by
    unfold renamed Table.updateKey
    exact look_update fun r _ _ ↦ hg r
  exact (look_of_eq h).trans hrow

theorem look_renamed_of_ne {newName : String} (ha : a ≠ agentId)
    (h : db'.agentRegistry = db.renamed agentId newName) : db'.look g a = db.look g a := by
  unfold look
  rw [h]
  exact congrArg (Option.map g) (Table.get?_updateKey_of_ne _ ha)

end Db

/-! ### Who is resolved -/

namespace Roster

variable {s s' : Roster} {machine : Machine} {connectionId a agentId : String}
  {tokens : List String} {call : Call}

/-- The session of a connection is one that registered on it. -/
theorem lookup_eq_some (h : s.lookupAgentIdByConnection connectionId = some agentId) :
    ∃ r, s.db.agentRegistry.get? agentId = some r ∧ r.connectionId = connectionId := by
  unfold lookupAgentIdByConnection at h
  obtain ⟨r, hr, rfl⟩ := Option.map_eq_some_iff.mp h
  have hmem := List.mem_mergeSort.mp (List.mem_of_mem_head? hr)
  obtain ⟨hrow, hp⟩ := List.mem_filter.mp hmem
  simp only [Bool.and_eq_true, beq_iff_eq] at hp
  exact ⟨r, Table.get?_eq_some_iff.mpr ⟨hrow, rfl⟩, hp.1⟩

theorem resolveSessionToken_eq_true {token : String}
    (h : s.resolveSessionToken agentId token = true) : s.sessionToken agentId = some token := by
  unfold resolveSessionToken at h
  split at h
  · cases h
  · simp only [Bool.and_eq_true, beq_iff_eq] at h
    exact h.2

/-- The session a call speaks for is that of its connection, or one whose token it shows. -/
theorem resolveSender_eq_ok {fromAgentId sessionToken : Option String}
    (h : s.resolveSender connectionId fromAgentId sessionToken = .ok agentId) :
    (∃ r, s.db.agentRegistry.get? agentId = some r ∧ r.connectionId = connectionId) ∨
      ∃ token, sessionToken = some token ∧ s.sessionToken agentId = some token := by
  unfold resolveSender at h
  split at h
  · next id hlookup =>
    cases h
    exact Or.inl (lookup_eq_some hlookup)
  · split at h
    · cases h
    · split at h
      · next htoken =>
        cases h
        refine Or.inr ?_
        cases sessionToken with
        | none => cases htoken
        | some token => exact ⟨token, rfl, resolveSessionToken_eq_true htoken⟩
      · cases h

/-- It is one the party holds. -/
theorem holds_of_resolveSender {fromAgentId : Option String}
    (h : s.resolveSender connectionId fromAgentId call.sessionToken? = .ok agentId) :
    s.Holds connectionId tokens call agentId := by
  rcases resolveSender_eq_ok h with hconnection | ⟨token, hshown, htoken⟩
  · exact Or.inl hconnection
  · exact Or.inr ⟨token, htoken, Or.inr hshown⟩

theorem holds_of_resolveSessionToken {token : String} (hcall : call.sessionToken? = some token)
    (h : s.resolveSessionToken agentId token = true) : s.Holds connectionId tokens call agentId :=
  Or.inr ⟨token, resolveSessionToken_eq_true h, Or.inr hcall⟩

/-! ### Faces -/

/-- The face of a session from its row and its columns. -/
theorem face_congr (hrow : s'.db.look AgentRow.seen a = s.db.look AgentRow.seen a)
    (htoken : s'.sessionToken a = s.sessionToken a)
    (hdescription : s'.featureDescription a = s.featureDescription a)
    (hdnd : s'.dndUntilTs a = s.dndUntilTs a) : s'.face a = s.face a := by
  have hface : ∀ s : Roster, s.face a = (s.db.look AgentRow.seen a).map fun p ↦
      ⟨p.1, p.2.1, p.2.2, s.sessionToken a, s.featureDescription a, s.dndUntilTs a⟩ := by
    intro s
    unfold face Db.look
    rw [Option.map_map]
    rfl
  rw [hface, hface, hrow, htoken, hdescription, hdnd]

/-- A session given up is seen as it was when it was not alive. -/
theorem seen_dead {r : AgentRow} (h : r.isAlive = false) :
    ({ r with state := .dead } : AgentRow).seen = r.seen := by
  unfold AgentRow.seen
  rw [h]
  rfl

/-- What a step leaves beside the rows of the registry: the columns that are seen, the stored
messages, and the registrations. -/
structure SameColumns (s s' : Roster) : Prop where
  sessionToken : s'.sessionToken = s.sessionToken
  featureDescription : s'.featureDescription = s.featureDescription
  dndUntilTs : s'.dndUntilTs = s.dndUntilTs
  messages : s'.messages = s.messages
  registrations : s'.registrations = s.registrations

theorem SameColumns.face (h : SameColumns s s')
    (hrow : s'.db.look AgentRow.seen a = s.db.look AgentRow.seen a) : s'.face a = s.face a :=
  face_congr hrow (congrFun h.sessionToken a) (congrFun h.featureDescription a)
    (congrFun h.dndUntilTs a)

/-- A rename writes one row. -/
theorem renameInPlace_eq_ok {newName : String} (h : s.renameInPlace agentId newName = .ok s') :
    s'.db.agentRegistry = s.db.renamed agentId newName ∧ SameColumns s s' := by
  unfold renameInPlace at h
  obtain ⟨db, hdb, h⟩ := bind_eq_ok.mp h
  obtain ⟨-, -, h⟩ := bind_eq_ok.mp h
  have hrow := Db.rename_eq_ok hdb
  split at h
  · split at h
    · cases h
      exact ⟨hrow, rfl, rfl, rfl, rfl, rfl⟩
    · cases h
      exact ⟨hrow, rfl, rfl, rfl, rfl, rfl⟩
  · split at h
    · cases h
      exact ⟨hrow, rfl, rfl, rfl, rfl, rfl⟩
    · cases h
      exact ⟨hrow, rfl, rfl, rfl, rfl, rfl⟩

/-- Binding a conversation writes no row, or it renames the session. -/
theorem bindSession_cases (s : Roster) (machine : Machine) (agentId sessionId : String) :
    SameColumns s (s.bindSession machine agentId sessionId) ∧
      ((s.bindSession machine agentId sessionId).db = s.db ∨
        ∃ newName, (s.bindSession machine agentId sessionId).db.agentRegistry =
          s.db.renamed agentId newName) := by
  unfold bindSession
  extract_lets s₁ current
  have hsame : SameColumns s s₁ := ⟨rfl, rfl, rfl, rfl, rfl⟩
  split
  · next remembered _ =>
    split
    · exact ⟨hsame, Or.inl rfl⟩
    · split
      · exact ⟨hsame, Or.inl rfl⟩
      · cases hrename : s₁.renameInPlace agentId remembered with
        | error e => exact ⟨hsame, Or.inl rfl⟩
        | ok s₂ =>
          obtain ⟨hrow, hcolumns⟩ := renameInPlace_eq_ok hrename
          refine ⟨⟨?_, ?_, ?_, ?_, ?_⟩, Or.inr ⟨remembered, hrow⟩⟩
          · exact hcolumns.sessionToken
          · exact hcolumns.featureDescription
          · exact hcolumns.dndUntilTs
          · exact hcolumns.messages
          · exact hcolumns.registrations
  · exact ⟨⟨rfl, rfl, rfl, rfl, rfl⟩, Or.inl rfl⟩

/-! ### What follows a registration -/

section Register

variable {agentName : String} {sessionToken pool : Option String} {said : Process}

/-- The columns after a registration: only its own token is written. -/
structure Registered (s s' : Roster) (agentId : String) (sessionToken : Option String) : Prop where
  own : s'.sessionToken agentId = sessionToken.or (s.sessionToken agentId)
  token : ∀ a, a ≠ agentId → s'.sessionToken a = s.sessionToken a
  featureDescription : s'.featureDescription = s.featureDescription
  dndUntilTs : s'.dndUntilTs = s.dndUntilTs
  messages : s'.messages = s.messages
  registrations : s'.registrations = s.registrations

/-- The rows after a registration are the restored ones, less the slots it takes. -/
theorem afterRegister_spec (s : Roster) (machine : Machine) (agentId agentName : String)
    (sessionToken : Option String) (said : Process) (pool : Option String) :
    Registered s (s.afterRegister machine agentId agentName sessionToken said pool) agentId
        sessionToken ∧
      ∃ s₁ : Roster, (∀ a, a ≠ agentId → s₁.process a = s.process a) ∧
        s₁.db = (s.db.restoreBindingsFor agentId agentName).2 ∧
        (s.afterRegister machine agentId agentName sessionToken said pool).db =
          (s₁.supersedeStaleSlots machine agentId agentName said.cwd).db := by
  unfold afterRegister
  extract_lets s₁ s₂ s₃ s₄
  have hown : s₁.sessionToken agentId = sessionToken.or (s.sessionToken agentId) := by
    cases sessionToken with
    | none => rfl
    | some token => exact Function.update_self agentId (some token) s.sessionToken
  have hother : ∀ a, a ≠ agentId → s₁.sessionToken a = s.sessionToken a := by
    intro a ha
    cases sessionToken with
    | none => rfl
    | some token => exact Function.update_of_ne ha (some token) s.sessionToken
  have hrest : s₁.featureDescription = s.featureDescription ∧ s₁.dndUntilTs = s.dndUntilTs ∧
      s₁.messages = s.messages ∧ s₁.registrations = s.registrations ∧ s₁.process = s.process ∧
      s₁.db = s.db := by
    cases sessionToken with
    | none => exact ⟨rfl, rfl, rfl, rfl, rfl, rfl⟩
    | some token => exact ⟨rfl, rfl, rfl, rfl, rfl, rfl⟩
  obtain ⟨hdescription, hdnd, hmessages, hregistrations, hprocess, hdb⟩ := hrest
  have hslots : Registered s s₄ agentId sessionToken := by
    unfold s₄ supersedeStaleSlots
    split
    · exact ⟨hown, hother, hdescription, hdnd, hmessages, hregistrations⟩
    · exact ⟨hown, hother, hdescription, hdnd, hmessages, hregistrations⟩
  have hprocess₃ : ∀ a, a ≠ agentId → s₃.process a = s.process a := by
    intro a ha
    show Function.update s₁.process agentId _ a = _
    rw [Function.update_of_ne ha, hprocess]
  have hdb₃ : s₃.db = (s.db.restoreBindingsFor agentId agentName).2 := by
    show (s₁.db.restoreBindingsFor agentId agentName).2 = _
    rw [hdb]
  refine ⟨?_, s₃, hprocess₃, hdb₃, ?_⟩
  · split
    · exact ⟨hslots.own, hslots.token, hslots.featureDescription, hslots.dndUntilTs,
        hslots.messages, hslots.registrations⟩
    · exact hslots
  · split
    · rfl
    · rfl

/-- Taking over slots leaves what a session that is given up keeps. -/
theorem look_supersedeStaleSlots {β : Type} {g : AgentRow → β} {cwd : Option String}
    (h : ∀ r, s.db.agentRegistry.get? a = some r → ∀ d, cwd = some d →
      s.isStaleSlot machine agentId agentName d r = true → g { r with state := .dead } = g r) :
    (s.supersedeStaleSlots machine agentId agentName cwd).db.look g a = s.db.look g a := by
  unfold supersedeStaleSlots
  split
  · rfl
  · next d => exact Db.look_update fun r hr hp ↦ h r hr d rfl hp

/-- A slot is taken over by what its session is seen as. -/
theorem isStaleSlot_congr {r r₁ : AgentRow} {cwd : String} (hid : r₁.agentId = r.agentId)
    (hseen : r₁.seen = r.seen) (halive : r.isAlive = true)
    (hprocess : s'.process r.agentId = s.process r.agentId) :
    s'.isStaleSlot machine agentId agentName cwd r₁ =
      s.isStaleSlot machine agentId agentName cwd r := by
  unfold AgentRow.seen at hseen
  simp only [Prod.mk.injEq] at hseen
  have hstate : r.state = .alive := by simpa [AgentRow.isAlive] using halive
  have hstate₁ : r₁.state = .alive := by
    have halive₁ : r₁.isAlive = true := hseen.2.2.trans halive
    simpa [AgentRow.isAlive] using halive₁
  unfold isStaleSlot
  rw [hid, hseen.2.1, hstate, hstate₁, hprocess]

variable {name : String} {thread metadata : Option String} {now : Int} {db : Db}

/-- A registration goes through when the name is valid and the constraints admit the row. -/
theorem call_agentRegister
    (hvalid : ValidName name)
    (hwrite : s.db.write (s.db.registered agentId name connectionId thread metadata now) = .ok db) :
    s.call machine connectionId
        (.agentRegister agentId name thread metadata sessionToken said pool now) =
      .ok (afterRegister
        { s with db, registrations := ⟨agentId, connectionId, sessionToken⟩ :: s.registrations }
        machine agentId (s.db.effectiveName agentId name) sessionToken said pool) := by
  obtain ⟨r, hr, -, hid, -⟩ := (Db.gives_registered hwrite).self
  have hget : db.agentRegistry.get? agentId = some r := Table.get?_eq_some_iff.mpr ⟨hr, hid⟩
  have hok : s.db.register agentId name connectionId thread metadata now =
      .ok (⟨now, r.agentName⟩, db) := Db.register_eq_ok.mpr ⟨hvalid, hwrite, r, hget, rfl⟩
  rw [← Db.effectiveName_of_register hok]
  unfold call
  dsimp only
  rw [hok]
  rfl

theorem call_agentRegister_eq_ok
    (h : s.call machine connectionId
      (.agentRegister agentId name thread metadata sessionToken said pool now) = .ok s') :
    ValidName name ∧ ∃ db,
      s.db.write (s.db.registered agentId name connectionId thread metadata now) = .ok db := by
  obtain ⟨⟨outcome, db⟩, hok, -⟩ := bind_eq_ok.mp h
  obtain ⟨hvalid, hwrite, -⟩ := Db.register_eq_ok.mp hok
  exact ⟨hvalid, db, hwrite⟩

/-- The row of another session before the slots are taken over. -/
theorem look_restored_of_ne {β : Type} {g : AgentRow → β} (ha : a ≠ agentId)
    (hclear : ∀ r : AgentRow, g r.unrouted = g r)
    (hroute : ∀ (r : AgentRow) chatId threadId, g (r.routed chatId threadId) = g r)
    (hkept : ∀ r, s.db.agentRegistry.get? a = some r →
      Db.sweeps agentId connectionId thread r = true → g { r with state := .dead } = g r)
    (hwrite : s.db.write (s.db.registered agentId name connectionId thread metadata now) = .ok db) :
    (db.restoreBindingsFor agentId agentName).2.look g a = s.db.look g a :=
  (Db.look_restoreBindingsFor hclear hroute).trans (Db.look_registered_of_ne ha hkept hwrite)

/-- A session of another party is not buried by a registration. -/
theorem not_sweeps_of_not_holds {r : AgentRow} (hr : s.db.agentRegistry.get? a = some r)
    (hno : ¬ s.Holds connectionId tokens call a) :
    Db.sweeps agentId connectionId thread r = false := by
  by_contra hswept
  have hp : Db.sweeps agentId connectionId thread r = true := Bool.not_eq_false _ ▸ hswept
  unfold Db.sweeps at hp
  simp only [Bool.and_eq_true, beq_iff_eq] at hp
  exact hno (Or.inl ⟨r, hr, hp.1.1.1⟩)

/-- The face of another party's session after a registration whose slots are its own. -/
theorem face_agentRegister {f : Face} (hf : s.face a = some f)
    (hno : ¬ s.Holds connectionId tokens call a) (ha : a ≠ agentId)
    (hslots : ∀ cwd, said.cwd = some cwd → ∀ r ∈ s.db.agentRegistry.rows, r.isAlive = true →
      s.isStaleSlot machine agentId (s.db.effectiveName agentId name) cwd r = true →
      s.Holds connectionId tokens call r.agentId)
    (hwrite : s.db.write (s.db.registered agentId name connectionId thread metadata now) = .ok db)
    (h : s.call machine connectionId
      (.agentRegister agentId name thread metadata sessionToken said pool now) = .ok s') :
    s'.face a = some f := by
  have hvalid := (call_agentRegister_eq_ok h).1
  rw [call_agentRegister hvalid hwrite] at h
  cases h
  obtain ⟨hcolumns, s₁, hprocess, hdb, hafter⟩ := afterRegister_spec
    { s with db, registrations := ⟨agentId, connectionId, sessionToken⟩ :: s.registrations }
    machine agentId (s.db.effectiveName agentId name) sessionToken said pool
  rw [← hf]
  refine face_congr ?_ (hcolumns.token a ha) (congrFun hcolumns.featureDescription a)
    (congrFun hcolumns.dndUntilTs a)
  have hrestored : s₁.db.look AgentRow.seen a = s.db.look AgentRow.seen a := by
    rw [hdb]
    refine look_restored_of_ne ha (fun _ ↦ rfl) (fun _ _ _ ↦ rfl) ?_ hwrite
    intro r hr hswept
    rw [not_sweeps_of_not_holds hr hno] at hswept
    cases hswept
  rw [hafter, look_supersedeStaleSlots, hrestored]
  intro r₁ hr₁ cwd hcwd hstale
  cases halive₁ : r₁.isAlive with
  | false => exact seen_dead halive₁
  | true =>
    obtain ⟨r, hr, hseen⟩ : ∃ r, s.db.agentRegistry.get? a = some r ∧ r.seen = r₁.seen := by
      unfold Db.look at hrestored
      rw [hr₁] at hrestored
      exact Option.map_eq_some_iff.mp hrestored.symm
    have hid : r.agentId = a := (Table.get?_eq_some_iff.mp hr).2
    have hid₁ : r₁.agentId = a := (Table.get?_eq_some_iff.mp hr₁).2
    have halive : r.isAlive = true :=
      (congrArg (fun p : String × String × Bool ↦ p.2.2) hseen).trans halive₁
    have hprocess' : s₁.process r.agentId = s.process r.agentId := by
      rw [hid]
      exact hprocess a ha
    rw [isStaleSlot_congr (hid₁.trans hid.symm) hseen.symm halive hprocess'] at hstale
    have hholds := hslots cwd hcwd r (Table.get?_eq_some_iff.mp hr).1 halive hstale
    rw [hid] at hholds
    exact absurd hholds hno

/-- The row of a session that registers has its connection. -/
theorem look_agentRegister_self
    (hwrite : s.db.write (s.db.registered agentId name connectionId thread metadata now) = .ok db) :
    (afterRegister
        { s with db, registrations := ⟨agentId, connectionId, sessionToken⟩ :: s.registrations }
        machine agentId agentName sessionToken said pool).db.look AgentRow.connectionId agentId =
      some connectionId := by
  obtain ⟨-, s₁, -, hdb, hafter⟩ := afterRegister_spec
    { s with db, registrations := ⟨agentId, connectionId, sessionToken⟩ :: s.registrations }
    machine agentId agentName sessionToken said pool
  rw [hafter, look_supersedeStaleSlots fun _ _ _ _ _ ↦ rfl, hdb]
  exact (Db.look_restoreBindingsFor (fun _ ↦ rfl) fun _ _ _ ↦ rfl).trans
    (Db.connectionId_registered hwrite)

/-- A slot that is taken over is not alive afterwards. -/
theorem look_isAlive_of_stale {r : AgentRow} {cwd : String} (hcwd : said.cwd = some cwd)
    (hr : s.db.agentRegistry.get? a = some r) (halive : r.isAlive = true) (ha : a ≠ agentId)
    (hkept : Db.sweeps agentId connectionId thread r = false)
    (hstale : s.isStaleSlot machine agentId agentName cwd r = true)
    (hwrite : s.db.write (s.db.registered agentId name connectionId thread metadata now) = .ok db) :
    (afterRegister
        { s with db, registrations := ⟨agentId, connectionId, sessionToken⟩ :: s.registrations }
        machine agentId agentName sessionToken said pool).db.look AgentRow.isAlive a =
      some false := by
  obtain ⟨-, s₁, hprocess, hdb, hafter⟩ := afterRegister_spec
    { s with db, registrations := ⟨agentId, connectionId, sessionToken⟩ :: s.registrations }
    machine agentId agentName sessionToken said pool
  have hrestored : s₁.db.look AgentRow.seen a = s.db.look AgentRow.seen a := by
    rw [hdb]
    refine look_restored_of_ne ha (fun _ ↦ rfl) (fun _ _ _ ↦ rfl) ?_ hwrite
    intro x hx hswept
    cases hr.symm.trans hx
    rw [hkept] at hswept
    cases hswept
  obtain ⟨r₁, hr₁, hseen⟩ : ∃ r₁, s₁.db.agentRegistry.get? a = some r₁ ∧ r₁.seen = r.seen := by
    unfold Db.look at hrestored
    rw [hr] at hrestored
    exact Option.map_eq_some_iff.mp hrestored
  have hid : r.agentId = a := (Table.get?_eq_some_iff.mp hr).2
  have hid₁ : r₁.agentId = a := (Table.get?_eq_some_iff.mp hr₁).2
  have hprocess' : s₁.process r.agentId = s.process r.agentId := by
    rw [hid]
    exact hprocess a ha
  rw [← isStaleSlot_congr (hid₁.trans hid.symm) hseen halive hprocess'] at hstale
  have hget : (s₁.supersedeStaleSlots machine agentId agentName (some cwd)).db.agentRegistry.get? a =
      (s₁.db.agentRegistry.get? a).map fun r ↦
        if s₁.isStaleSlot machine agentId agentName cwd r then { r with state := .dead } else r := by
    refine Table.get?_update ?_
    intro r
    rfl
  rw [hafter, hcwd]
  unfold Db.look
  rw [hget, hr₁, Option.map_some, if_pos hstale]
  rfl

end Register

/-! ### One call -/

/-- The face of a session that is not alive any more, or has another connection, is another. -/
theorem look_connectionId_of_face {f : Face} (h : s.face a = some f) :
    s.db.look AgentRow.connectionId a = some f.connectionId := by
  unfold face at h
  obtain ⟨r, hr, rfl⟩ := Option.map_eq_some_iff.mp h
  unfold Db.look
  rw [hr]
  rfl

theorem look_isAlive_of_face {f : Face} (h : s.face a = some f) :
    s.db.look AgentRow.isAlive a = some f.alive := by
  unfold face at h
  obtain ⟨r, hr, rfl⟩ := Option.map_eq_some_iff.mp h
  unfold Db.look
  rw [hr]
  rfl

/-- A call that no party but that of the session it resolves is let make leaves the faces of the
others. -/
theorem face_call {f : Face} (hf : s.face a = some f) (hno : ¬ s.Holds connectionId tokens call a)
    (hregister : ∀ agentId name thread metadata sessionToken said pool now,
      call ≠ .agentRegister agentId name thread metadata sessionToken said pool now)
    (hunregister : ∀ agentId, call = .agentUnregister agentId → agentId = a → f.alive = false)
    (h : s.call machine connectionId call = .ok s') : s'.face a = some f := by
  rw [← hf]
  cases call with
  | agentRegister agentId name thread metadata sessionToken said pool now =>
    exact absurd rfl (hregister agentId name thread metadata sessionToken said pool now)
  | agentRename fromAgentId name sessionToken =>
    obtain ⟨_, htoken, h⟩ := bind_eq_ok.mp h
    have ha : a ≠ fromAgentId := by
      rintro rfl
      exact hno (holds_of_resolveSessionToken rfl (require_eq_ok.mp htoken))
    split at h
    · cases h
    · obtain ⟨hrow, hcolumns⟩ := renameInPlace_eq_ok h
      exact hcolumns.face (Db.look_renamed_of_ne ha hrow)
  | agentBindSession fromAgentId sessionId sessionToken =>
    obtain ⟨_, htoken, h⟩ := bind_eq_ok.mp h
    cases pure_eq_ok.mp h
    have ha : a ≠ fromAgentId := by
      rintro rfl
      exact hno (holds_of_resolveSessionToken rfl (require_eq_ok.mp htoken))
    obtain ⟨hcolumns, hrow⟩ := bindSession_cases s machine fromAgentId sessionId
    rcases hrow with hsame | ⟨newName, hrow⟩
    · exact hcolumns.face (congrArg (Db.look AgentRow.seen · a) hsame)
    · exact hcolumns.face (Db.look_renamed_of_ne ha hrow)
  | agentDescribe description fromAgentId sessionToken =>
    obtain ⟨agentId, hsender, h⟩ := bind_eq_ok.mp h
    obtain ⟨-, -, h⟩ := bind_eq_ok.mp h
    cases pure_eq_ok.mp h
    have ha : a ≠ agentId := by
      rintro rfl
      exact hno (holds_of_resolveSender hsender)
    exact face_congr rfl rfl (Function.update_of_ne ha _ _) rfl
  | agentSend toAgentId content fromAgentId sessionToken now =>
    obtain ⟨agentId, -, h⟩ := bind_eq_ok.mp h
    obtain ⟨-, -, h⟩ := bind_eq_ok.mp h
    cases pure_eq_ok.mp h
    exact face_congr rfl rfl rfl rfl
  | agentSetDnd dndUntilTs =>
    obtain ⟨agentId, hlookup, h⟩ := bind_eq_ok.mp h
    cases pure_eq_ok.mp h
    have ha : a ≠ agentId := by
      rintro rfl
      exact hno (Or.inl (lookup_eq_some (okOr_eq_ok.mp hlookup)))
    exact face_congr rfl rfl rfl (Function.update_of_ne ha _ _)
  | agentUnregister agentId =>
    cases pure_eq_ok.mp h
    refine face_congr ?_ rfl rfl rfl
    show (s.db.unregister agentId).2.look AgentRow.seen a = _
    unfold Db.unregister
    split
    · rfl
    · refine Db.look_update fun r hr hp ↦ seen_dead ?_
      have hid : r.agentId = agentId := by simpa using hp
      have hdead := hunregister agentId rfl (hid.symm.trans (Table.get?_eq_some_iff.mp hr).2)
      have hlook := look_isAlive_of_face hf
      unfold Db.look at hlook
      rw [hr, hdead] at hlook
      simpa using hlook
  | agentReap cutoff =>
    cases pure_eq_ok.mp h
    refine face_congr (Db.look_update fun r hr hp ↦ seen_dead ?_) rfl rfl rfl
    simp only [Bool.and_eq_true, beq_iff_eq] at hp
    simp [AgentRow.isAlive, hp.1]

/-- A session taken off the registry is not alive. -/
theorem look_isAlive_unregister {db : Db} {r : AgentRow} (h : db.agentRegistry.get? a = some r) :
    (db.unregister a).2.look AgentRow.isAlive a = some false := by
  unfold Db.unregister
  rw [h]
  have hget : (db.agentRegistry.updateKey a (fun r ↦ { r with state := .dead }) fun _ ↦ rfl).get? a =
      (db.agentRegistry.get? a).map fun r ↦ { r with state := .dead } :=
    Table.get?_updateKey_self _
  rw [h] at hget
  exact congrArg (Option.map AgentRow.isAlive) hget

/-! ### The sessions of other parties -/

theorem leaves_refl : s.Leaves s connectionId tokens call := fun _ _ hf _ ↦ hf

/-- A registration leaves the sessions of others when it is by a party of all that it writes. -/
theorem leaves_register_iff {agentId name : String}
    {thread metadata sessionToken pool : Option String}
    {said : Process} {now : Int} {db : Db}
    (hwrite : s.db.write (s.db.registered agentId name connectionId thread metadata now) = .ok db)
    (h : s.call machine connectionId
      (.agentRegister agentId name thread metadata sessionToken said pool now) = .ok s') :
    s.Leaves s' connectionId tokens call ↔
      ((s.db.agentRegistry.get? agentId).isSome → s.Holds connectionId tokens call agentId) ∧
        ∀ cwd, said.cwd = some cwd → ∀ r ∈ s.db.agentRegistry.rows, r.isAlive = true →
          s.isStaleSlot machine agentId (s.db.effectiveName agentId name) cwd r = true →
          s.Holds connectionId tokens call r.agentId := by
  constructor
  · intro hleaves
    have hafter := h
    rw [call_agentRegister (call_agentRegister_eq_ok h).1 hwrite] at hafter
    cases hafter
    constructor
    · intro hsome
      by_contra hno
      obtain ⟨r, hr⟩ := Option.isSome_iff_exists.mp hsome
      have hf := hleaves agentId _ (congrArg (Option.map _) hr) hno
      have hown := look_connectionId_of_face hf
      rw [look_agentRegister_self hwrite] at hown
      exact hno (Or.inl ⟨r, hr, (Option.some.inj hown).symm⟩)
    · intro cwd hcwd r hr halive hstale
      by_contra hno
      have hget : s.db.agentRegistry.get? r.agentId = some r :=
        Table.get?_eq_some_iff.mpr ⟨hr, rfl⟩
      have ha : r.agentId ≠ agentId := by
        unfold isStaleSlot at hstale
        simp only [Bool.and_eq_true, bne_iff_ne] at hstale
        exact hstale.1.1.2
      have hf := hleaves r.agentId _ (congrArg (Option.map _) hget) hno
      have hown := look_isAlive_of_face hf
      rw [look_isAlive_of_stale hcwd hget halive ha (not_sweeps_of_not_holds hget hno) hstale
        hwrite] at hown
      cases halive.symm.trans (Option.some.inj hown).symm
  · rintro ⟨hown, hslots⟩ a f hf hno
    refine face_agentRegister hf hno ?_ hslots hwrite h
    rintro rfl
    refine hno (hown ?_)
    unfold face at hf
    obtain ⟨r, hr, -⟩ := Option.map_eq_some_iff.mp hf
    exact Option.isSome_iff_exists.mpr ⟨r, hr⟩

/-- A session is taken off the registry without a change of others when it was not live, or by a
party of it. -/
theorem leaves_unregister_iff {agentId : String}
    (h : s.call machine connectionId (.agentUnregister agentId) = .ok s') :
    s.Leaves s' connectionId tokens (.agentUnregister agentId) ↔
      (s.db.aliveOf agentId = true → s.Holds connectionId tokens (.agentUnregister agentId) agentId) :=
    by
  constructor
  · intro hleaves halive
    by_contra hno
    obtain ⟨r, hr, hlive⟩ := (Option.any_eq_true _ _).mp halive
    have hf := hleaves agentId _ (congrArg (Option.map _) hr) hno
    have hown := look_isAlive_of_face hf
    cases pure_eq_ok.mp h
    have hdead := look_isAlive_unregister hr
    cases hlive.symm.trans (Option.some.inj (hdead.symm.trans hown)).symm
  · intro hparty a f hf hno
    refine face_call hf hno ?_ ?_ h
    · intro _ _ _ _ _ _ _ _ hcall
      cases hcall
    · rintro agentId' hcall rfl
      cases hcall
      cases halive : f.alive with
      | false => rfl
      | true =>
        refine absurd (hparty ?_) hno
        unfold face at hf
        obtain ⟨r, hr, rfl⟩ := Option.map_eq_some_iff.mp hf
        exact (Option.any_eq_true _ _).mpr ⟨r, hr, halive⟩

/-- A call leaves the sessions of others if and only if it is admitted. -/
theorem leaves_iff :
    s.Leaves (s.next (.call machine connectionId tokens call)) connectionId tokens call ↔
      s.Admitted machine connectionId tokens call := by
  unfold next
  dsimp only
  cases h : s.call machine connectionId call with
  | error e =>
    refine iff_of_true leaves_refl ?_
    cases call with
    | agentRegister agentId name thread metadata sessionToken said pool now =>
      rintro hvalid ⟨db, hwrite⟩
      rw [call_agentRegister hvalid hwrite] at h
      cases h
    | agentUnregister agentId => cases h
    | _ => trivial
  | ok s' =>
    cases call with
    | agentRegister agentId name thread metadata sessionToken said pool now =>
      obtain ⟨hvalid, db, hwrite⟩ := call_agentRegister_eq_ok h
      refine (leaves_register_iff hwrite h).trans ?_
      exact ⟨fun hparty _ _ ↦ hparty, fun hparty ↦ hparty hvalid ⟨db, hwrite⟩⟩
    | agentUnregister agentId => exact leaves_unregister_iff h
    | _ =>
      refine iff_of_true (fun a f hf hno ↦ face_call hf hno ?_ ?_ h) trivial
      · intro _ _ _ _ _ _ _ _ hcall
        cases hcall
      · intro _ hcall
        cases hcall

theorem leavesOthers_iff {t : Step Roster RosterAct} (h : t.after = t.before.next t.op) :
    LeavesOthers t ↔ Authorised t := by
  refine forall_congr' fun machine ↦ forall_congr' fun connectionId ↦ forall_congr' fun tokens ↦
    forall_congr' fun call ↦ imp_congr_right fun hop ↦ ?_
  rw [h, hop]
  exact leaves_iff

/-! ### Who sent a message -/

/-- A message stored by a call is that of the session the call speaks for. -/
theorem messages_call (h : s.call machine connectionId call = .ok s') :
    ∀ m ∈ s'.messages, m ∈ s.messages ∨
      ∃ fromAgentId, s.resolveSender connectionId fromAgentId call.sessionToken? =
        .ok m.fromAgent := by
  cases call with
  | agentSend toAgentId content fromAgentId sessionToken now =>
    obtain ⟨agentId, hsender, h⟩ := bind_eq_ok.mp h
    obtain ⟨_, -, h⟩ := bind_eq_ok.mp h
    cases pure_eq_ok.mp h
    intro m hm
    rcases List.mem_cons.mp hm with rfl | hm
    · exact Or.inr ⟨fromAgentId, hsender⟩
    · exact Or.inl hm
  | agentRegister agentId name thread metadata sessionToken said pool now =>
    obtain ⟨hvalid, db, hwrite⟩ := call_agentRegister_eq_ok h
    rw [call_agentRegister hvalid hwrite] at h
    cases h
    intro m hm
    rw [(afterRegister_spec _ _ _ _ _ _ _).1.messages] at hm
    exact Or.inl hm
  | agentRename fromAgentId name sessionToken =>
    obtain ⟨_, -, h⟩ := bind_eq_ok.mp h
    split at h
    · cases h
    · rw [(renameInPlace_eq_ok h).2.messages]
      exact fun m ↦ Or.inl
  | agentBindSession fromAgentId sessionId sessionToken =>
    obtain ⟨_, -, h⟩ := bind_eq_ok.mp h
    cases pure_eq_ok.mp h
    rw [(bindSession_cases s machine fromAgentId sessionId).1.messages]
    exact fun m ↦ Or.inl
  | agentDescribe description fromAgentId sessionToken =>
    obtain ⟨_, -, h⟩ := bind_eq_ok.mp h
    obtain ⟨_, -, h⟩ := bind_eq_ok.mp h
    cases pure_eq_ok.mp h
    exact fun m ↦ Or.inl
  | agentSetDnd dndUntilTs =>
    obtain ⟨_, -, h⟩ := bind_eq_ok.mp h
    cases pure_eq_ok.mp h
    exact fun m ↦ Or.inl
  | agentUnregister agentId =>
    cases pure_eq_ok.mp h
    exact fun m ↦ Or.inl
  | agentReap cutoff =>
    cases pure_eq_ok.mp h
    exact fun m ↦ Or.inl

/-- The connection of a session is that of its last registration, and its token that of one. -/
structure Recorded (s : Roster) : Prop where
  connection : ∀ a c, s.db.look AgentRow.connectionId a = some c →
    ∃ x, s.lastRegistration a = some x ∧ x.connectionId = c
  token : ∀ a token, s.sessionToken a = some token →
    ∃ x ∈ s.registrations, x.agentId = a ∧ x.sessionToken = some token

theorem Recorded.of_same (hs : s.Recorded)
    (hlook : ∀ a, s'.db.look AgentRow.connectionId a = s.db.look AgentRow.connectionId a)
    (htoken : s'.sessionToken = s.sessionToken) (hsame : s'.registrations = s.registrations) :
    s'.Recorded := by
  constructor
  · intro a c hc
    unfold lastRegistration
    rw [hsame]
    rw [hlook] at hc
    exact hs.connection a c hc
  · intro a token ht
    rw [hsame]
    rw [htoken] at ht
    exact hs.token a token ht

theorem recorded_empty : Roster.empty.Recorded := ⟨nofun, nofun⟩

/-- A registration is recorded with the connection and the token it gives. -/
theorem recorded_register {agentId name : String}
    {thread metadata sessionToken pool : Option String}
    {said : Process} {now : Int} (hs : s.Recorded)
    (h : s.call machine connectionId
      (.agentRegister agentId name thread metadata sessionToken said pool now) = .ok s') :
    s'.Recorded := by
  obtain ⟨hvalid, db, hwrite⟩ := call_agentRegister_eq_ok h
  rw [call_agentRegister hvalid hwrite] at h
  cases h
  obtain ⟨hcolumns, s₁, -, hdb, hafter⟩ := afterRegister_spec
    { s with db, registrations := ⟨agentId, connectionId, sessionToken⟩ :: s.registrations }
    machine agentId (s.db.effectiveName agentId name) sessionToken said pool
  constructor
  · intro a c hc
    unfold lastRegistration
    rw [hcolumns.registrations]
    by_cases ha : a = agentId
    · subst ha
      rw [look_agentRegister_self hwrite] at hc
      exact ⟨_, List.find?_cons_of_pos (beq_self_eq_true a), Option.some.inj hc⟩
    · rw [hafter, look_supersedeStaleSlots fun _ _ _ _ _ ↦ rfl, hdb,
        look_restored_of_ne ha (fun _ ↦ rfl) (fun _ _ _ ↦ rfl) (fun _ _ _ ↦ rfl) hwrite] at hc
      obtain ⟨x, hx, hreg⟩ := hs.connection a c hc
      have hother : ¬ (agentId == a) = true := fun h ↦ ha (beq_iff_eq.mp h).symm
      refine ⟨x, ?_, hreg⟩
      rw [List.find?_cons_of_neg]
      · exact hx
      · exact hother
  · intro a token ht
    rw [hcolumns.registrations]
    by_cases ha : a = agentId
    · subst ha
      rw [hcolumns.own] at ht
      cases sessionToken with
      | some shown => exact ⟨_, List.mem_cons_self, rfl, ht⟩
      | none =>
        obtain ⟨x, hx, hreg⟩ := hs.token a token ht
        exact ⟨x, List.mem_cons_of_mem _ hx, hreg⟩
    · rw [hcolumns.token a ha] at ht
      obtain ⟨x, hx, hreg⟩ := hs.token a token ht
      exact ⟨x, List.mem_cons_of_mem _ hx, hreg⟩

/-- Every other call leaves connections and tokens. -/
theorem recorded_call (hs : s.Recorded) (h : s.call machine connectionId call = .ok s') :
    s'.Recorded := by
  cases call with
  | agentRegister agentId name thread metadata sessionToken said pool now =>
    exact recorded_register hs h
  | agentRename fromAgentId name sessionToken =>
    obtain ⟨_, -, h⟩ := bind_eq_ok.mp h
    split at h
    · cases h
    · obtain ⟨hrow, hcolumns⟩ := renameInPlace_eq_ok h
      exact hs.of_same (fun _ ↦ Db.look_renamed hrow fun _ ↦ rfl) hcolumns.sessionToken
        hcolumns.registrations
  | agentBindSession fromAgentId sessionId sessionToken =>
    obtain ⟨_, -, h⟩ := bind_eq_ok.mp h
    cases pure_eq_ok.mp h
    obtain ⟨hcolumns, hrow⟩ := bindSession_cases s machine fromAgentId sessionId
    refine hs.of_same ?_ hcolumns.sessionToken hcolumns.registrations
    intro a
    rcases hrow with hsame | ⟨newName, hrow⟩
    · exact congrArg (Db.look AgentRow.connectionId · a) hsame
    · exact Db.look_renamed hrow fun _ ↦ rfl
  | agentDescribe description fromAgentId sessionToken =>
    obtain ⟨_, -, h⟩ := bind_eq_ok.mp h
    obtain ⟨_, -, h⟩ := bind_eq_ok.mp h
    cases pure_eq_ok.mp h
    exact hs.of_same (fun _ ↦ rfl) rfl rfl
  | agentSend toAgentId content fromAgentId sessionToken now =>
    obtain ⟨_, -, h⟩ := bind_eq_ok.mp h
    obtain ⟨_, -, h⟩ := bind_eq_ok.mp h
    cases pure_eq_ok.mp h
    exact hs.of_same (fun _ ↦ rfl) rfl rfl
  | agentSetDnd dndUntilTs =>
    obtain ⟨_, -, h⟩ := bind_eq_ok.mp h
    cases pure_eq_ok.mp h
    exact hs.of_same (fun _ ↦ rfl) rfl rfl
  | agentUnregister agentId =>
    cases pure_eq_ok.mp h
    refine hs.of_same (fun a ↦ ?_) rfl rfl
    show (s.db.unregister agentId).2.look AgentRow.connectionId a = _
    unfold Db.unregister
    split
    · rfl
    · exact Db.look_update fun r hr hp ↦ rfl
  | agentReap cutoff =>
    cases pure_eq_ok.mp h
    exact hs.of_same (fun a ↦ Db.look_update fun r hr hp ↦ rfl) rfl rfl

theorem recorded_next {op : RosterAct} (hs : s.Recorded) : (s.next op).Recorded := by
  cases op with
  | call machine connectionId tokens call =>
    unfold next
    dsimp only
    cases h : s.call machine connectionId call with
    | error e => exact hs
    | ok s' => exact recorded_call hs h
  | close connectionId => exact hs.of_same (fun a ↦ Db.look_update fun r hr hp ↦ rfl) rfl rfl
  | reboot => exact hs.of_same (fun a ↦ Db.look_update fun r hr hp ↦ rfl) rfl rfl

/-- A message is stored for its author. -/
theorem sentByAuthor {t : Step Roster RosterAct} (hs : t.before.Recorded)
    (h : t.after = t.before.next t.op) : SentByAuthor t := by
  intro machine connectionId tokens call hop m hm
  rw [h, hop] at hm
  unfold next at hm
  dsimp only at hm
  cases hcall : t.before.call machine connectionId call with
  | error e =>
    rw [hcall] at hm
    exact Or.inl hm
  | ok s' =>
    rw [hcall] at hm
    rcases messages_call hcall m hm with hold | ⟨fromAgentId, hsender⟩
    · exact Or.inl hold
    · refine Or.inr ?_
      rcases resolveSender_eq_ok hsender with ⟨r, hr, rfl⟩ | ⟨token, hshown, htoken⟩
      · exact Or.inl (hs.connection m.fromAgent r.connectionId (congrArg (Option.map _) hr))
      · obtain ⟨x, hx, hid, hgiven⟩ := hs.token m.fromAgent token htoken
        exact Or.inr ⟨x, hx, hid, token, hshown, hgiven⟩

end Roster

/-- In every run a message is stored for its author, and a call leaves the sessions of other
parties if and only if it is authorised. -/
theorem acts_for_itself (acts : List RosterAct) :
    ∀ t ∈ trace Roster.next .empty acts, SentByAuthor t ∧ (LeavesOthers t ↔ Authorised t) := by
  intro t ht
  have hrecorded := invariant_of_trace (I := fun s ↦ s.Recorded) Roster.recorded_empty
    (fun t ht hs ↦ after_of_mem_trace ht ▸ Roster.recorded_next hs) t ht
  constructor
  · exact Roster.sentByAuthor hrecorded.1 (after_of_mem_trace ht)
  · exact Roster.leavesOthers_iff (after_of_mem_trace ht)

/-- A session registers, and registers again on its own connection. -/
def returnRun : List RosterAct :=
  [.call ⟨"host", fun _ ↦ true⟩ "c1" [] (.agentRegister "mira" "mira" none none (some "secret")
      ⟨none, none, none⟩ none 0),
    .call ⟨"host", fun _ ↦ true⟩ "c1" [] (.agentRegister "mira" "mira" none none none
      ⟨none, none, none⟩ none 1)]

/-- The second registration of the run is authorised, and leaves the others. -/
theorem acts_for_itself_return : ∃ t ∈ trace Roster.next .empty returnRun,
    t.before.db.aliveOf "mira" = true ∧ SentByAuthor t ∧ LeavesOthers t := by
  have hsecond : ∃ t ∈ trace Roster.next .empty returnRun,
      t.before = run Roster.next .empty (returnRun.take 1) ∧
        t.op = .call ⟨"host", fun _ ↦ true⟩ "c1" [] (.agentRegister "mira" "mira" none none none
          ⟨none, none, none⟩ none 1) :=
    ⟨_, List.mem_of_getElem? (i := 1) rfl, rfl, rfl⟩
  obtain ⟨t, ht, hbefore, hop⟩ := hsecond
  have hauthorised : Authorised t := by
    intro machine connectionId tokens call hcall
    cases hop.symm.trans hcall
    rw [hbefore]
    intro _ _
    refine ⟨fun _ ↦ Or.inl ⟨_, rfl, rfl⟩, fun cwd hcwd ↦ ?_⟩
    cases hcwd
  obtain ⟨hauthor, hleaves⟩ := acts_for_itself returnRun t ht
  refine ⟨t, ht, ?_, hauthor, hleaves.mpr hauthorised⟩
  rw [hbefore]
  decide

/-- A session registers, and then another party under its id. -/
def hijackRun : List RosterAct :=
  [.call ⟨"host", fun _ ↦ true⟩ "c1" [] (.agentRegister "mira" "mira" none none (some "secret")
      ⟨none, none, none⟩ none 0),
    .call ⟨"host", fun _ ↦ true⟩ "c2" [] (.agentRegister "mira" "mira" none none none
      ⟨none, none, none⟩ none 1)]

theorem acts_for_itself_hijack :
    ¬ ∀ acts, ∀ t ∈ trace Roster.next .empty acts, SentByAuthor t ∧ LeavesOthers t := by
  intro hclaim
  have hlast : ∃ t ∈ trace Roster.next .empty hijackRun,
      t.before = run Roster.next .empty (hijackRun.take 1) ∧
        t.op = .call ⟨"host", fun _ ↦ true⟩ "c2" [] (.agentRegister "mira" "mira" none none none
          ⟨none, none, none⟩ none 1) ∧
        t.after = run Roster.next .empty hijackRun :=
    ⟨_, List.mem_of_getElem? (i := 1) rfl, rfl, rfl, rfl⟩
  obtain ⟨t, ht, hbefore, hop, hafter⟩ := hlast
  have hrow : (run Roster.next .empty (hijackRun.take 1)).db.agentRegistry.get? "mira" =
      some ⟨"mira", "mira", "c1", none, 0, 0, .alive, none, none, none⟩ := by decide
  have hsecret : (run Roster.next .empty (hijackRun.take 1)).sessionToken "mira" =
      some "secret" := rfl
  have hleaves := (hclaim hijackRun t ht).2 _ _ _ _ hop "mira"
    ⟨"c1", "mira", true, some "secret", none, none⟩
  rw [hbefore, hafter] at hleaves
  have hface := hleaves (by decide) ?_
  · exact absurd hface (by decide)
  · rintro (⟨r, hr, hconnection⟩ | ⟨token, htoken, hheld⟩)
    · cases hr.symm.trans hrow
      exact absurd hconnection (by decide)
    · cases htoken.symm.trans hsecret
      rcases hheld with hheld | hshown
      · cases hheld
      · cases hshown

end Claudebase.Registry
