import Claudebase.Registry.Ops

/-!
# One live session for a key

`src/daemon/agent_registry.rs:1424–1459,1528–1555`. A chat and topic resolve to the one live
session that holds them, and binding a live session to them makes it that one. The clear before
the bind is what keeps the index quiet: the constraint is never what stops it.
-/

namespace Claudebase.Registry
open Claudebase.Base

namespace Db

/-- The live sessions of a key are one. -/
theorem Sound.eq_of_routes {db : Db} (h : db.Sound) {r r' : AgentRow} {chatId : Int}
    {threadId : Option Int} (hr : r ∈ db.agentRegistry.rows) (hr' : r' ∈ db.agentRegistry.rows)
    (halive : r.isAlive = true) (halive' : r'.isAlive = true)
    (hroutes : r.routes chatId threadId = true) (hroutes' : r'.routes chatId threadId = true) :
    r = r' :=
  indexed_iff.mp h.routing r hr r' hr' _ (AgentRow.routingKey_of_routes halive hroutes)
    (AgentRow.routingKey_of_routes halive' hroutes')

/-- A key resolves to its live session and to no other. -/
theorem Sound.resolveRouting_eq_some_iff {db : Db} (h : db.Sound) {chatId : Int}
    {threadId : Option Int} {agentId : String} :
    db.resolveRouting chatId threadId = some agentId ↔ ∃ r ∈ db.agentRegistry.rows,
      r.isAlive = true ∧ r.routes chatId threadId = true ∧ r.agentId = agentId := by
  unfold resolveRouting
  rw [Option.map_eq_some_iff]
  constructor
  · rintro ⟨r, hfind, hid⟩
    have hp := List.find?_some hfind
    rw [Bool.and_eq_true] at hp
    exact ⟨r, List.mem_of_find?_eq_some hfind, hp.2, hp.1, hid⟩
  · rintro ⟨r, hr, halive, hroutes, hid⟩
    cases hfind : db.agentRegistry.rows.find? fun r ↦ r.routes chatId threadId && r.isAlive with
    | none =>
      have hno := List.find?_eq_none.mp hfind r hr
      simp [halive, hroutes] at hno
    | some r' =>
      have hp := List.find?_some hfind
      rw [Bool.and_eq_true] at hp
      have heq : r' = r := h.eq_of_routes (List.mem_of_find?_eq_some hfind) hr hp.2 halive hp.1 hroutes
      exact ⟨r', rfl, heq ▸ hid⟩

/-- The rows the clear of a bind leaves. -/
def cleared (db : Db) (agentId : String) (chatId : Int) (threadId : Option Int) : Db :=
  let agentRegistry := db.agentRegistry.update
    (fun r ↦ r.isAlive && r.routes chatId threadId && r.agentId != agentId) AgentRow.unrouted
    AgentRow.agentId_unrouted
  { db with agentRegistry }

/-- After the clear no other live session holds the key. -/
theorem not_routes_cleared {db : Db} {agentId : String} {chatId : Int} {threadId : Option Int}
    {r : AgentRow} (hr : r ∈ (db.cleared agentId chatId threadId).agentRegistry.rows)
    (halive : r.isAlive = true) (hne : r.agentId ≠ agentId) : r.routes chatId threadId = false := by
  obtain ⟨x, -, rfl⟩ := (Table.mem_update AgentRow.agentId_unrouted).mp hr
  by_cases hx : (x.isAlive && x.routes chatId threadId && x.agentId != agentId) = true
  · rw [if_pos hx]
    rfl
  · rw [if_neg hx] at halive hne ⊢
    simpa [halive, hne] using hx

/-- The bind itself gives the key to a row that no live one contends with. -/
theorem Sound.route {db : Db} (h : db.Sound) {agentId : String} {chatId : Int}
    {threadId : Option Int} (htopic : ∀ t ∈ threadId, 0 < t)
    (hfree : ∀ r ∈ db.agentRegistry.rows, r.isAlive = true → r.agentId ≠ agentId →
      r.routes chatId threadId = false) :
    Sound ⟨db.agentRegistry.update (fun r ↦ r.agentId == agentId && r.isAlive)
      (AgentRow.routed · chatId threadId) (AgentRow.agentId_routed chatId threadId),
      db.chatBindings⟩ where
  topic r hr := by
    obtain ⟨x, hx, rfl⟩ := (Table.mem_update (AgentRow.agentId_routed chatId threadId)).mp hr
    by_cases hp : (x.agentId == agentId && x.isAlive) = true
    · rw [if_pos hp]
      cases threadId with
      | none => rfl
      | some t => simpa [AgentRow.topicOk, AgentRow.routed] using htopic
    · rw [if_neg hp]
      exact h.topic x hx
  name := indexed_update (AgentRow.agentId_routed chatId threadId) (fun _ _ _ ↦ Or.inr rfl) h.name
  routing := by
    by_cases hbound : ∃ r ∈ db.agentRegistry.rows, (r.agentId == agentId && r.isAlive) = true
    · obtain ⟨r, hr, hp⟩ := hbound
      obtain ⟨hid, halive⟩ := Bool.and_eq_true_iff.mp hp
      refine (indexed_update_iff (AgentRow.agentId_routed chatId threadId) hr ?_ h.routing).mpr ?_
      · intro x hx
        constructor
        · intro hx'
          have hxid := (Bool.and_eq_true_iff.mp hx').1
          exact db.agentRegistry.eq_of_key_eq hx hr
            ((beq_iff_eq.mp hxid).trans (beq_iff_eq.mp hid).symm)
        · rintro rfl
          exact hp
      · intro x hx hne k hk hk'
        have hkey : (r.routed chatId threadId).routingKey = some (chatId, threadId.getD (-1)) :=
          AgentRow.routingKey_eq_some_iff.mpr ⟨halive, rfl, rfl⟩
        rw [← hk, hkey] at hk'
        obtain ⟨hxalive, hxroutes⟩ := AgentRow.routingKey_eq_some_iff.mp hk'
        have hxid : x.agentId ≠ agentId := fun he ↦
          hne (db.agentRegistry.eq_of_key_eq hx hr (he.trans (beq_iff_eq.mp hid).symm))
        have hno := hfree x hx hxalive hxid
        rw [AgentRow.routes_iff.mpr hxroutes] at hno
        cases hno
    · exact indexed_update (AgentRow.agentId_routed chatId threadId)
        (fun r hr hp ↦ absurd ⟨r, hr, hp⟩ hbound) h.routing

/-- Binding to a missing or a real topic breaks no constraint. -/
theorem Sound.bindRoutingKey {db : Db} (h : db.Sound) (agentId : String) (chatId : Int)
    {threadId : Option Int} (htopic : ∀ t ∈ threadId, 0 < t) :
    ∃ db', db.bindRoutingKey agentId chatId threadId = .ok db' := by
  have hcleared : (db.cleared agentId chatId threadId).Sound := h.unroute
  refine ⟨_, write_eq_ok.mpr ⟨rfl, hcleared.route htopic ?_⟩⟩
  exact fun r hr halive hne ↦ not_routes_cleared hr halive hne

/-- A live session holds the key it was bound to. -/
theorem exists_of_bindRoutingKey {db db' : Db} {agentId : String} {chatId : Int}
    {threadId : Option Int} (h : db.bindRoutingKey agentId chatId threadId = .ok db')
    (halive : db.aliveOf agentId = true) : ∃ r ∈ db'.agentRegistry.rows,
      r.isAlive = true ∧ r.routes chatId threadId = true ∧ r.agentId = agentId := by
  obtain ⟨rfl, -⟩ := write_eq_ok.mp h
  obtain ⟨x, hx, rfl, hxalive⟩ := aliveOf_iff.mp halive
  have hkept : x ∈ (db.cleared x.agentId chatId threadId).agentRegistry.rows := by
    refine (Table.mem_update AgentRow.agentId_unrouted).mpr ⟨x, hx, ?_⟩
    simp
  refine ⟨x.routed chatId threadId, ?_, hxalive, ?_, rfl⟩
  · refine (Table.mem_update (AgentRow.agentId_routed chatId threadId)).mpr ⟨x, hkept, ?_⟩
    simp [hxalive]
  · exact AgentRow.routes_iff.mpr ⟨rfl, rfl⟩

end Db

/-- Over every run a key has at most one live session, it resolves to that session and to no
other, and binding a live session makes it that one. -/
theorem routing_key_invariant (ops : List Op) :
    (∀ r ∈ (run next .empty ops).agentRegistry.rows, ∀ r' ∈ (run next .empty ops).agentRegistry.rows,
      r.isAlive = true → r'.isAlive = true → ∀ chatId threadId, r.routes chatId threadId = true →
        r'.routes chatId threadId = true → r = r') ∧
    (∀ chatId threadId agentId, (run next .empty ops).resolveRouting chatId threadId = some agentId ↔
      ∃ r ∈ (run next .empty ops).agentRegistry.rows, r.isAlive = true ∧
        r.routes chatId threadId = true ∧ r.agentId = agentId) ∧
    ∀ agentId chatId threadId db', (run next .empty ops).aliveOf agentId = true →
      (run next .empty ops).bindRoutingKey agentId chatId threadId = .ok db' →
      db'.resolveRouting chatId threadId = some agentId := by
  have hsound := sound_run ops
  refine ⟨?_, ?_, ?_⟩
  · intro r hr r' hr' halive halive' chatId threadId hroutes hroutes'
    exact hsound.eq_of_routes hr hr' halive halive' hroutes hroutes'
  · intro chatId threadId agentId
    exact hsound.resolveRouting_eq_some_iff
  · intro agentId chatId threadId db' halive hbind
    have hsound' : db'.Sound := (Db.write_eq_ok.mp hbind).2
    exact hsound'.resolveRouting_eq_some_iff.mpr (Db.exists_of_bindRoutingKey hbind halive)

/-- A session whose connection is gone. -/
def awayRun : List Op :=
  [.register "a" "mira" "c1" none none 0, .markConnectionOrphaned "c1"]

/-- A bind of it succeeds, and the key resolves to nobody. -/
theorem routing_key_invariant_away : ∃ db',
    (run next .empty awayRun).bindRoutingKey "a" 7 none = .ok db' ∧ db'.resolveRouting 7 none = none :=
  ⟨_, rfl, by decide⟩

end Claudebase.Registry
