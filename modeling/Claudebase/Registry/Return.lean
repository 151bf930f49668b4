import Claudebase.Registry.Ops

/-!
# Coming back

`src/daemon/agent_registry.rs:202–290,1641–1660`. A session whose connection is gone keeps its
name and its routing key outside the indexes. Registering again puts the row back in both, so it
goes through when no live session that stays has taken the key since, or has the name in the
thread the session comes back to.
-/

namespace Claudebase.Registry
open Claudebase.Base

/-- The row of a session that registers again. -/
def AgentRow.back (r : AgentRow) (connectionId : String) (chatThreadId metadata : Option String)
    (now : Int) : AgentRow :=
  { r with connectionId, chatThreadId, lastPingedAt := now, state := .alive, metadata }

theorem AgentRow.agentId_back {connectionId : String} {chatThreadId metadata : Option String}
    {now : Int} (r : AgentRow) :
    (r.back connectionId chatThreadId metadata now).agentId = r.agentId := rfl

/-- A live session that a registration of `r` does not bury, and that has its key, or its name in
the thread. -/
def AgentRow.Blocks (r' r : AgentRow) (connectionId : String) (chatThreadId : Option String) :
    Prop :=
  r'.isAlive = true ∧ Db.sweeps r.agentId connectionId chatThreadId r' = false ∧
    ((∃ chatId, r.routingChatId = some chatId ∧ r'.routes chatId r.routingThreadId = true) ∨
      ∃ thread, chatThreadId = some thread ∧ r'.chatThreadId = some thread ∧
        r'.agentName = r.agentName)

instance (r' r : AgentRow) (connectionId : String) (chatThreadId : Option String) :
    Decidable (r'.Blocks r connectionId chatThreadId) :=
  decidable_of_iff (r'.isAlive = true ∧ Db.sweeps r.agentId connectionId chatThreadId r' = false ∧
      ((r.routingChatId.any fun chatId ↦ r'.routes chatId r.routingThreadId) = true ∨
        (chatThreadId.any fun thread ↦
          r'.chatThreadId = some thread ∧ r'.agentName = r.agentName) = true))
    (by simp [AgentRow.Blocks, Option.any_eq_true])

namespace Db

section

variable {db : Db} {r : AgentRow} {connectionId : String} {chatThreadId metadata : Option String}
  {agentName : String} {now : Int}

/-- A session that is not alive is not swept. -/
theorem mem_sweep_of_not_alive (hr : r ∈ db.agentRegistry.rows) (halive : r.isAlive = false)
    {agentId : String} : r ∈ (db.sweep agentId connectionId chatThreadId).rows := by
  refine (Table.mem_update _).mpr ⟨r, hr, ?_⟩
  simp [sweeps, halive]

/-- The rows after the registration of a session that is not alive. -/
theorem upsert_sweep (hr : r ∈ db.agentRegistry.rows) (halive : r.isAlive = false) :
    upsert (db.sweep r.agentId connectionId chatThreadId) r.agentId agentName connectionId
        chatThreadId metadata now =
      (db.sweep r.agentId connectionId chatThreadId).updateKey r.agentId
        (AgentRow.back · connectionId chatThreadId metadata now) AgentRow.agentId_back := by
  have hget : (db.sweep r.agentId connectionId chatThreadId).get? r.agentId = some r :=
    Table.get?_eq_some_iff.mpr ⟨mem_sweep_of_not_alive hr halive, rfl⟩
  unfold upsert
  rw [hget]
  rfl

/-- An index of live rows takes the row back when no live row that stays has its place. -/
theorem indexed_upsert_iff {ι : Type} {index : AgentRow → Option ι}
    (hindex : ∀ x, index x ≠ none → x.isAlive = true) (h : Indexed index db.agentRegistry.rows)
    (hr : r ∈ db.agentRegistry.rows) (halive : r.isAlive = false) :
    Indexed index (upsert (db.sweep r.agentId connectionId chatThreadId) r.agentId agentName
        connectionId chatThreadId metadata now).rows ↔
      ∀ x ∈ db.agentRegistry.rows, sweeps r.agentId connectionId chatThreadId x = false →
        ∀ k, index (r.back connectionId chatThreadId metadata now) = some k → index x ≠ some k := by
  have hout : ∀ {x : AgentRow}, x.isAlive = false → index x = none := by
    intro x hx
    by_contra hne
    rw [hindex x hne] at hx
    cases hx
  have hsweep : Indexed index (db.sweep r.agentId connectionId chatThreadId).rows :=
    indexed_update _ (fun x _ _ ↦ Or.inl (hout rfl)) h
  have hmem : r ∈ (db.sweep r.agentId connectionId chatThreadId).rows :=
    mem_sweep_of_not_alive hr halive
  rw [upsert_sweep hr halive]
  unfold Table.updateKey
  rw [indexed_update_iff AgentRow.agentId_back hmem ?_ hsweep]
  · constructor
    · intro hfree x hx hkept k hk hxk
      have hxalive : x.isAlive = true := hindex x (by simp [hxk])
      refine hfree x ((Table.mem_update _).mpr ⟨x, hx, ?_⟩) ?_ k hk hxk
      · simp [hkept]
      · rintro rfl
        rw [halive] at hxalive
        cases hxalive
    · intro hfree y hy hne k hk hyk
      obtain ⟨x, hx, rfl⟩ := (Table.mem_update _).mp hy
      by_cases hswept : sweeps r.agentId connectionId chatThreadId x = true
      · rw [if_pos hswept, hout rfl] at hyk
        cases hyk
      · rw [if_neg hswept] at hyk
        exact hfree x hx (Bool.not_eq_true _ ▸ hswept) k hk hyk
  · intro x hx
    rw [decide_eq_true_iff]
    constructor
    · exact (db.sweep r.agentId connectionId chatThreadId).eq_of_key_eq hx hmem
    · exact congrArg AgentRow.agentId

/-- A row that blocks has the place of the returning row in one of the indexes. -/
theorem blocks_iff {r' : AgentRow} : r'.Blocks r connectionId chatThreadId ↔
    sweeps r.agentId connectionId chatThreadId r' = false ∧
      ((∃ k, (r.back connectionId chatThreadId metadata now).routingKey = some k ∧
          r'.routingKey = some k) ∨
        ∃ k, (r.back connectionId chatThreadId metadata now).nameKey = some k ∧
          r'.nameKey = some k) := by
  have hback : (r.back connectionId chatThreadId metadata now).isAlive = true := rfl
  constructor
  · rintro ⟨halive, hkept, ⟨chatId, hchat, hroutes⟩ | ⟨thread, hthread, hthread', hname⟩⟩
    · refine ⟨hkept, Or.inl ⟨(chatId, r.routingThreadId.getD (-1)), ?_, ?_⟩⟩
      · exact AgentRow.routingKey_eq_some_iff.mpr ⟨hback, hchat, rfl⟩
      · exact AgentRow.routingKey_of_routes halive hroutes
    · refine ⟨hkept, Or.inr ⟨(thread, r.agentName), ?_, ?_⟩⟩
      · exact AgentRow.nameKey_eq_some_iff.mpr ⟨hback, hthread, rfl⟩
      · exact AgentRow.nameKey_eq_some_iff.mpr ⟨halive, hthread', hname⟩
  · rintro ⟨hkept, ⟨⟨chatId, topic⟩, hk, hk'⟩ | ⟨⟨thread, name⟩, hk, hk'⟩⟩
    · obtain ⟨-, hchat, rfl⟩ := AgentRow.routingKey_eq_some_iff.mp hk
      obtain ⟨halive, hchat', htopic'⟩ := AgentRow.routingKey_eq_some_iff.mp hk'
      exact ⟨halive, hkept, Or.inl ⟨chatId, hchat, AgentRow.routes_iff.mpr ⟨hchat', htopic'⟩⟩⟩
    · obtain ⟨-, hthread, rfl⟩ := AgentRow.nameKey_eq_some_iff.mp hk
      obtain ⟨halive, hthread', hname'⟩ := AgentRow.nameKey_eq_some_iff.mp hk'
      exact ⟨halive, hkept, Or.inr ⟨thread, hthread, hthread', hname'⟩⟩

/-- A registration keeps every topic. -/
theorem topicOk_upsert (h : db.Sound) (hr : r ∈ db.agentRegistry.rows)
    (halive : r.isAlive = false) :
    ∀ x ∈ (upsert (db.sweep r.agentId connectionId chatThreadId) r.agentId agentName connectionId
      chatThreadId metadata now).rows, x.topicOk = true := by
  have hsweep : ∀ y ∈ (db.sweep r.agentId connectionId chatThreadId).rows, y.topicOk = true := by
    intro y hy
    obtain ⟨x, hx, rfl⟩ := (Table.mem_update _).mp hy
    split
    · exact h.topic x hx
    · exact h.topic x hx
  rw [upsert_sweep hr halive]
  intro y hy
  obtain ⟨x, hx, rfl⟩ := (Table.mem_update AgentRow.agentId_back).mp hy
  split
  · exact hsweep x hx
  · exact hsweep x hx

/-- A session that is not alive comes back when nothing blocks it. -/
theorem write_back_iff (h : db.Sound) (hr : r ∈ db.agentRegistry.rows)
    (halive : r.isAlive = false) :
    (∃ db', db.write (upsert (db.sweep r.agentId connectionId chatThreadId) r.agentId agentName
        connectionId chatThreadId metadata now) = .ok db') ↔
      ∀ r' ∈ db.agentRegistry.rows, ¬ r'.Blocks r connectionId chatThreadId := by
  have hname : ∀ x : AgentRow, x.nameKey ≠ none → x.isAlive = true := by
    intro x hx
    obtain ⟨⟨thread, name⟩, hk⟩ := Option.ne_none_iff_exists'.mp hx
    exact (AgentRow.nameKey_eq_some_iff.mp hk).1
  have hrouting : ∀ x : AgentRow, x.routingKey ≠ none → x.isAlive = true := by
    intro x hx
    obtain ⟨⟨chatId, topic⟩, hk⟩ := Option.ne_none_iff_exists'.mp hx
    exact (AgentRow.routingKey_eq_some_iff.mp hk).1
  constructor
  · rintro ⟨db', hwrite⟩ r' hr' hblocks
    obtain ⟨rfl, hsound⟩ := write_eq_ok.mp hwrite
    rcases blocks_iff.mp hblocks with ⟨hkept, ⟨k, hk, hk'⟩ | ⟨k, hk, hk'⟩⟩
    · exact (indexed_upsert_iff hrouting h.routing hr halive).mp hsound.routing r' hr' hkept k hk hk'
    · exact (indexed_upsert_iff hname h.name hr halive).mp hsound.name r' hr' hkept k hk hk'
  · intro hfree
    refine ⟨_, write_eq_ok.mpr ⟨rfl, topicOk_upsert h hr halive, ?_, ?_⟩⟩
    · refine (indexed_upsert_iff hname h.name hr halive).mpr ?_
      intro r' hr' hkept k hk hk'
      exact hfree r' hr' (blocks_iff.mpr ⟨hkept, Or.inr ⟨k, hk, hk'⟩⟩)
    · refine (indexed_upsert_iff hrouting h.routing hr halive).mpr ?_
      intro r' hr' hkept k hk hk'
      exact hfree r' hr' (blocks_iff.mpr ⟨hkept, Or.inl ⟨k, hk, hk'⟩⟩)

/-- The row of the session, back. -/
theorem get?_of_write_back {db' : Db} (hr : r ∈ db.agentRegistry.rows) (halive : r.isAlive = false)
    (hwrite : db.write (upsert (db.sweep r.agentId connectionId chatThreadId) r.agentId agentName
      connectionId chatThreadId metadata now) = .ok db') :
    db'.agentRegistry.get? r.agentId = some (r.back connectionId chatThreadId metadata now) := by
  obtain ⟨rfl, -⟩ := write_eq_ok.mp hwrite
  have hget : (db.sweep r.agentId connectionId chatThreadId).get? r.agentId = some r :=
    Table.get?_eq_some_iff.mpr ⟨mem_sweep_of_not_alive hr halive, rfl⟩
  show (upsert _ _ _ _ _ _ _).get? _ = _
  rw [upsert_sweep hr halive, Table.get?_updateKey_self, hget]
  rfl

end

end Db

/-- In every run an orphaned session comes back exactly when nothing blocks it. -/
theorem session_returns (ops : List Op) {r : AgentRow}
    (hr : r ∈ (run next .empty ops).agentRegistry.rows) (horphaned : r.state = .orphaned)
    (agentName connectionId : String) (chatThreadId metadata : Option String) (now : Int) :
    (∃ outcome db', (run next .empty ops).register r.agentId agentName connectionId chatThreadId
        metadata now = .ok (outcome, db') ∧ db'.aliveOf r.agentId = true) ↔
      ValidName agentName ∧ ∀ r' ∈ (run next .empty ops).agentRegistry.rows,
        ¬ r'.Blocks r connectionId chatThreadId := by
  have halive : r.isAlive = false := by simp [AgentRow.isAlive, horphaned]
  constructor
  · rintro ⟨outcome, db', hok, -⟩
    obtain ⟨hvalid, hwrite, -⟩ := Db.register_eq_ok.mp hok
    exact ⟨hvalid, (Db.write_back_iff (sound_run ops) hr halive).mp ⟨db', hwrite⟩⟩
  · rintro ⟨hvalid, hfree⟩
    obtain ⟨db', hwrite⟩ := (Db.write_back_iff (sound_run ops) hr halive).mpr hfree
    have hget := Db.get?_of_write_back hr halive hwrite
    refine ⟨_, db', Db.register_eq_ok.mpr ⟨hvalid, hwrite, _, hget, rfl⟩, ?_⟩
    exact Db.aliveOf_iff.mpr ⟨_, (Table.get?_eq_some_iff.mp hget).1, rfl, rfl⟩

/-- A session goes away, another takes over its chat. -/
def takenRun : List Op :=
  [.register "a" "mira" "c1" none none 0, .bindRoutingKey "a" 7 none, .markConnectionOrphaned "c1",
    .register "b" "nora" "c2" none none 1, .bindRoutingKey "b" 7 none]

/-- The row it left. -/
def takenRow : AgentRow := ⟨"a", "mira", "c1", none, 0, 0, .orphaned, none, some 7, none⟩

/-- It cannot come back. -/
theorem session_returns_taken : takenRow ∈ (run next .empty takenRun).agentRegistry.rows ∧
    takenRow.state = .orphaned ∧
    (run next .empty takenRun).register "a" "mira" "c3" none none 2 =
      .error "agent_name already alive in thread; unregister first or use different name" :=
  ⟨by decide, rfl, rfl⟩

/-- A session whose chat is free comes back. -/
theorem session_returns_free :
    ∃ outcome db', (run next .empty (takenRun.take 4)).register "a" "mira" "c3" none none 2 =
      .ok (outcome, db') ∧ db'.aliveOf "a" = true :=
  (session_returns (takenRun.take 4) (show takenRow ∈ _ by decide) rfl "mira" "c3" none none 2).mpr
    (by decide)

end Claudebase.Registry
