import Claudebase.Registry.Routing

/-!
# Restoring the chats of a name

`src/daemon/agent_registry.rs:413–462`. The bindings of a name are rows of their own, and a session
holds one key: each binding that is restored takes the place of the one before. Other sessions lose
the keys of those bindings, and nothing else.
-/

namespace Claudebase.Registry
open Claudebase.Base

namespace Db

/-- Other sessions keep what is not among some chats, and what is remembered stays. -/
structure KeepsOthers (agentId : String) (chats : List (Int × Option Int)) (db db' : Db) :
    Prop where
  remembered : db'.chatBindings = db.chatBindings
  rows : ∀ r ∈ db.agentRegistry.rows, r.agentId ≠ agentId →
    (∀ k ∈ chats, r.routes k.1 k.2 = false) → r ∈ db'.agentRegistry.rows

variable {db : Db} {agentId : String} {chatId : Int} {threadId : Option Int}

/-! ### One binding -/

/-- The rows after the two statements for a binding. -/
def restored (db : Db) (agentId : String) (chatId : Int) (threadId : Option Int) :
    Table AgentRow.agentId :=
  (db.clearKey agentId chatId threadId).agentRegistry.updateKey agentId
    (AgentRow.routed · chatId threadId) (AgentRow.agentId_routed chatId threadId)

/-- A row that does not hold the key stays through the clear. -/
theorem mem_clearKey {r : AgentRow} (hr : r ∈ db.agentRegistry.rows)
    (h : r.routes chatId threadId = false ∨ r.agentId = agentId) :
    r ∈ (db.clearKey agentId chatId threadId).agentRegistry.rows := by
  apply (Table.mem_update AgentRow.agentId_unrouted).mpr
  refine ⟨r, hr, if_neg ?_⟩
  rcases h with h | h <;> simp [h]

/-- So does one of another session through the bind. -/
theorem mem_restored {r : AgentRow} (hr : r ∈ db.agentRegistry.rows) (hne : r.agentId ≠ agentId)
    (h : r.routes chatId threadId = false) :
    r ∈ (db.restored agentId chatId threadId).rows := by
  apply (Table.mem_update (AgentRow.agentId_routed chatId threadId)).mpr
  exact ⟨r, mem_clearKey hr (Or.inl h), if_neg (by simp [hne])⟩

/-- The session's own row gets the key. -/
theorem routed_mem_restored {r : AgentRow} (hr : r ∈ db.agentRegistry.rows) :
    r.routed chatId threadId ∈ (db.restored r.agentId chatId threadId).rows := by
  apply (Table.mem_update (AgentRow.agentId_routed chatId threadId)).mpr
  exact ⟨r, mem_clearKey hr (Or.inr rfl), if_pos (by simp)⟩

/-- Nobody comes alive by it. -/
theorem exists_of_mem_clearKey {r : AgentRow}
    (hr : r ∈ (db.clearKey agentId chatId threadId).agentRegistry.rows) :
    ∃ x ∈ db.agentRegistry.rows, r.agentId = x.agentId ∧ r.isAlive = x.isAlive := by
  obtain ⟨x, hx, rfl⟩ := (Table.mem_update AgentRow.agentId_unrouted).mp hr
  refine ⟨x, hx, ?_⟩
  split
  · exact ⟨rfl, rfl⟩
  · exact ⟨rfl, rfl⟩

theorem exists_of_mem_restored {r : AgentRow}
    (hr : r ∈ (db.restored agentId chatId threadId).rows) :
    ∃ x ∈ db.agentRegistry.rows, r.agentId = x.agentId ∧ r.isAlive = x.isAlive := by
  obtain ⟨y, hy, rfl⟩ := (Table.mem_update (AgentRow.agentId_routed chatId threadId)).mp hr
  obtain ⟨x, hx, hid, halive⟩ := exists_of_mem_clearKey hy
  refine ⟨x, hx, ?_⟩
  split
  · exact ⟨hid, halive⟩
  · exact ⟨hid, halive⟩

/-- After the clear no other session holds the key, alive or not. -/
theorem not_routes_clearKey {r : AgentRow}
    (hr : r ∈ (db.clearKey agentId chatId threadId).agentRegistry.rows)
    (hne : r.agentId ≠ agentId) : r.routes chatId threadId = false := by
  obtain ⟨x, -, rfl⟩ := (Table.mem_update AgentRow.agentId_unrouted).mp hr
  by_cases hx : (x.routes chatId threadId && x.agentId != agentId) = true
  · rw [if_pos hx]
    rfl
  · rw [if_neg hx] at hne ⊢
    simpa [hne] using hx

/-- The bind of a live session goes through. -/
theorem Sound.write_restored (h : db.Sound) (halive : db.aliveOf agentId = true)
    (htopic : ∀ t ∈ threadId, 0 < t) :
    ∃ db', (db.clearKey agentId chatId threadId).write (db.restored agentId chatId threadId) =
      .ok db' := by
  obtain ⟨r, hr, hid, hlive⟩ := aliveOf_iff.mp halive
  have hcleared : (db.clearKey agentId chatId threadId).Sound := h.unroute
  have hrow : r ∈ (db.clearKey agentId chatId threadId).agentRegistry.rows :=
    mem_clearKey hr (Or.inr hid)
  have hsame : db.restored agentId chatId threadId =
      (db.clearKey agentId chatId threadId).agentRegistry.update
        (fun r ↦ r.agentId == agentId && r.isAlive)
        (AgentRow.routed · chatId threadId) (AgentRow.agentId_routed chatId threadId) := by
    apply Table.ext
    apply List.map_congr_left
    intro x hx
    by_cases hxid : x.agentId = agentId
    · have hxr : x = r := Table.eq_of_key_eq _ hx hrow (hxid.trans hid.symm)
      simp [hxr, hid, hlive]
    · simp [hxid]
  rw [hsame]
  refine ⟨_, write_eq_ok.mpr ⟨rfl, hcleared.route htopic ?_⟩⟩
  exact fun x hx _ hne ↦ not_routes_clearKey hx hne

/-! ### All of them -/

theorem restoreLoop_cons (chats : List (Int × Option Int)) (n : Nat) :
    restoreLoop agentId ((chatId, threadId) :: chats) n db =
      match (db.clearKey agentId chatId threadId).write (db.restored agentId chatId threadId) with
      | .error v => (.error v, db.clearKey agentId chatId threadId)
      | .ok db' => restoreLoop agentId chats (n + 1) db' := rfl

theorem keepsOthers_restoreLoop (agentId : String) (chats : List (Int × Option Int)) (n : Nat)
    (db : Db) : KeepsOthers agentId chats db (restoreLoop agentId chats n db).2 := by
  induction chats generalizing n db with
  | nil => exact ⟨rfl, fun r hr _ _ ↦ hr⟩
  | cons k chats ih =>
    rw [restoreLoop_cons]
    split
    · exact ⟨rfl, fun r hr _ hk ↦ mem_clearKey hr (Or.inl (hk k List.mem_cons_self))⟩
    · next db' hwrite =>
      obtain ⟨rfl, -⟩ := write_eq_ok.mp hwrite
      have hrest := ih (n + 1) { db.clearKey agentId k.1 k.2 with
        agentRegistry := db.restored agentId k.1 k.2 }
      refine ⟨hrest.remembered, fun r hr hne hk ↦ hrest.rows r ?_ hne ?_⟩
      · exact mem_restored hr hne (hk k List.mem_cons_self)
      · exact fun x hx ↦ hk x (List.mem_cons_of_mem _ hx)

theorem exists_of_mem_restoreLoop {chats : List (Int × Option Int)} {n : Nat} {r : AgentRow}
    (hr : r ∈ (restoreLoop agentId chats n db).2.agentRegistry.rows) :
    ∃ x ∈ db.agentRegistry.rows, r.agentId = x.agentId ∧ r.isAlive = x.isAlive := by
  induction chats generalizing n db with
  | nil => exact ⟨r, hr, rfl, rfl⟩
  | cons k chats ih =>
    rw [restoreLoop_cons] at hr
    split at hr
    · exact exists_of_mem_clearKey hr
    · next db' hwrite =>
      obtain ⟨rfl, -⟩ := write_eq_ok.mp hwrite
      obtain ⟨y, hy, hid, halive⟩ := ih hr
      obtain ⟨x, hx, hid', halive'⟩ := exists_of_mem_restored hy
      exact ⟨x, hx, hid.trans hid', halive.trans halive'⟩

/-- One binding, restored over and over, stays with the session. -/
theorem holds_restoreLoop {chats : List (Int × Option Int)} {n : Nat} (h : db.Sound)
    (halive : db.aliveOf agentId = true) (htopic : ∀ t ∈ threadId, 0 < t)
    (hsame : ∀ k ∈ chats, k = (chatId, threadId))
    (hheld : chats ≠ [] ∨ ∃ r ∈ db.agentRegistry.rows,
      r.isAlive = true ∧ r.routes chatId threadId = true ∧ r.agentId = agentId) :
    ∃ r ∈ (restoreLoop agentId chats n db).2.agentRegistry.rows,
      r.isAlive = true ∧ r.routes chatId threadId = true ∧ r.agentId = agentId := by
  induction chats generalizing n db with
  | nil => exact hheld.resolve_left fun hne ↦ hne rfl
  | cons k chats ih =>
    obtain rfl := hsame k List.mem_cons_self
    obtain ⟨db', hwrite⟩ := @Sound.write_restored db agentId chatId threadId h halive htopic
    rw [restoreLoop_cons, hwrite]
    dsimp only
    obtain ⟨rfl, hsound⟩ := write_eq_ok.mp hwrite
    obtain ⟨r, hr, rfl, hlive⟩ := aliveOf_iff.mp halive
    have hrow := @routed_mem_restored db chatId threadId r hr
    have hroutes : (r.routed chatId threadId).routes chatId threadId = true :=
      AgentRow.routes_iff.mpr ⟨rfl, rfl⟩
    exact ih hsound (aliveOf_iff.mpr ⟨_, hrow, rfl, hlive⟩)
      (fun x hx ↦ hsame x (List.mem_cons_of_mem _ hx)) (Or.inr ⟨_, hrow, hlive, hroutes, rfl⟩)

/-- A remembered topic is not negative: the row of a whole chat has -1. -/
theorem topic_of_mem_chatsBoundToName {name : String} {k : Int × Option Int}
    (hk : k ∈ db.chatsBoundToName name) : ∀ t ∈ k.2, 0 ≤ t := by
  unfold chatsBoundToName at hk
  obtain ⟨b, -, rfl⟩ := List.mem_map.mp hk
  intro t ht
  dsimp only at ht
  split at ht
  · cases ht
  · cases ht
    omega

/-- Chats of a name that one row holds are one. -/
theorem eq_of_routes_chats {name : String} {k k' : Int × Option Int} {r : AgentRow}
    (hk : k ∈ db.chatsBoundToName name) (hk' : k' ∈ db.chatsBoundToName name)
    (hroutes : r.routes k.1 k.2 = true) (hroutes' : r.routes k'.1 k'.2 = true) : k = k' := by
  rw [AgentRow.routes_iff] at hroutes hroutes'
  have hchat : k.1 = k'.1 := Option.some.inj (hroutes.1.symm.trans hroutes'.1)
  have htopic : k.2.getD (-1) = k'.2.getD (-1) := hroutes.2.symm.trans hroutes'.2
  have hpos := topic_of_mem_chatsBoundToName hk
  have hpos' := topic_of_mem_chatsBoundToName hk'
  apply Prod.ext hchat
  cases ht : k.2 with
  | none =>
    cases ht' : k'.2 with
    | none => rfl
    | some t' =>
      have hle : 0 ≤ t' := hpos' t' ht'
      simp [ht, ht'] at htopic
      omega
  | some t =>
    have hle : 0 ≤ t := hpos t ht
    cases ht' : k'.2 with
    | none =>
      simp [ht, ht'] at htopic
      omega
    | some t' => simpa [ht, ht'] using htopic

/-- No row holds topic 0. -/
theorem Sound.not_routes_zero (h : db.Sound) {r : AgentRow} (hr : r ∈ db.agentRegistry.rows) :
    r.routes chatId (some 0) = false := by
  have hok := h.topic r hr
  unfold AgentRow.topicOk at hok
  unfold AgentRow.routes
  cases hrt : r.routingThreadId with
  | none => simp
  | some t =>
    have hpos : 0 < t := by simpa [hrt] using hok
    have hne : t ≠ 0 := by omega
    simp [hne]

end Db

open Db in
/-- Every chat of a name comes back to a session, and others keep theirs, if and only if the name
has no two of them, none is topic 0, and the session is alive. -/
theorem restores_iff (db : Db) (h : db.Sound) (agentId name : String) :
    ((∀ k ∈ db.chatsBoundToName name,
        (db.restoreBindingsFor agentId name).2.resolveRouting k.1 k.2 = some agentId) ∧
      KeepsOthers agentId (db.chatsBoundToName name) db (db.restoreBindingsFor agentId name).2) ↔
    (∀ k ∈ db.chatsBoundToName name, ∀ k' ∈ db.chatsBoundToName name, k = k') ∧
      ∀ k ∈ db.chatsBoundToName name, k.2 ≠ some 0 ∧ db.aliveOf agentId = true := by
  have hsound : (db.restoreBindingsFor agentId name).2.Sound := sound_restoreLoop h
  constructor
  · rintro ⟨hback, -⟩
    have hheld : ∀ k ∈ db.chatsBoundToName name,
        ∃ r ∈ (db.restoreBindingsFor agentId name).2.agentRegistry.rows,
          r.isAlive = true ∧ r.routes k.1 k.2 = true ∧ r.agentId = agentId :=
      fun k hk ↦ hsound.resolveRouting_eq_some_iff.mp (hback k hk)
    constructor
    · intro k hk k' hk'
      obtain ⟨r, hr, -, hroutes, hid⟩ := hheld k hk
      obtain ⟨r', hr', -, hroutes', hid'⟩ := hheld k' hk'
      have hrow : r = r' := Table.eq_of_key_eq _ hr hr' (hid.trans hid'.symm)
      exact eq_of_routes_chats hk hk' hroutes (hrow ▸ hroutes')
    · intro k hk
      obtain ⟨r, hr, halive, hroutes, hid⟩ := hheld k hk
      constructor
      · intro htopic
        rw [htopic, hsound.not_routes_zero hr] at hroutes
        cases hroutes
      · obtain ⟨x, hx, hxid, hxalive⟩ := exists_of_mem_restoreLoop hr
        exact aliveOf_iff.mpr ⟨x, hx, hxid.symm.trans hid, hxalive.symm.trans halive⟩
  · rintro ⟨hsame, hok⟩
    refine ⟨fun k hk ↦ ?_, keepsOthers_restoreLoop agentId _ 0 db⟩
    apply hsound.resolveRouting_eq_some_iff.mpr
    refine holds_restoreLoop h (hok k hk).2 ?_ (fun x hx ↦ hsame x hx k hk)
      (Or.inl (List.ne_nil_of_mem hk))
    intro t ht
    have hpos := topic_of_mem_chatsBoundToName hk t ht
    have hne : t ≠ 0 := fun hzero ↦ (hok k hk).1 (ht.trans (congrArg some hzero))
    omega

/-- A session that has come back, and two chats that are remembered for its name. -/
def twoChats : Db where
  agentRegistry := ⟨[⟨"new", "planner", "c2", none, 5, 5, .alive, none, none, none⟩], by decide⟩
  chatBindings := ⟨[⟨7, -1, "planner", 1⟩, ⟨8, -1, "planner", 2⟩], by decide⟩

/-- It gets the second alone. -/
theorem restores_second : ¬ ∀ (db : Db), db.Sound → ∀ (agentId name : String),
    (∃ r ∈ db.agentRegistry.rows, r.agentId = agentId ∧ r.agentName = name ∧ r.isAlive = true) →
      (∀ k ∈ db.chatsBoundToName name,
        (db.restoreBindingsFor agentId name).2.resolveRouting k.1 k.2 = some agentId) ∧
      Db.KeepsOthers agentId (db.chatsBoundToName name) db
        (db.restoreBindingsFor agentId name).2 := by
  intro h
  have hsound : twoChats.Sound := ⟨by decide, by decide, by decide⟩
  have hback := (h twoChats hsound "new" "planner" (by decide)).1 (7, none) (by decide)
  revert hback
  decide

/-- A session that has come back, and the topic that is remembered for its name. -/
def oneTopic : Db where
  agentRegistry := twoChats.agentRegistry
  chatBindings := ⟨[⟨7, 3, "planner", 1⟩], by decide⟩

theorem restores_topic :
    ((∀ k ∈ oneTopic.chatsBoundToName "planner",
        (oneTopic.restoreBindingsFor "new" "planner").2.resolveRouting k.1 k.2 = some "new") ∧
      Db.KeepsOthers "new" (oneTopic.chatsBoundToName "planner") oneTopic
        (oneTopic.restoreBindingsFor "new" "planner").2) ↔
    (∀ k ∈ oneTopic.chatsBoundToName "planner",
        ∀ k' ∈ oneTopic.chatsBoundToName "planner", k = k') ∧
      ∀ k ∈ oneTopic.chatsBoundToName "planner",
        k.2 ≠ some 0 ∧ oneTopic.aliveOf "new" = true :=
  restores_iff oneTopic ⟨by decide, by decide, by decide⟩ "new" "planner"

end Claudebase.Registry
