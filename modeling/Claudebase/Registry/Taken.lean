import Claudebase.Registry.Roster
import Claudebase.Registry.Unique

/-!
# Whether a name is taken

`src/daemon/agent_registry.rs:474–495,529–552,782–822,884–892`, `src/daemon/server.rs:1790–1820`.
The row of a session that has crashed stays alive until it is given up. `nick_is_taken` asks for the
process behind the first row of the name, and `rename` for none.
-/

namespace Claudebase.Registry
open Claudebase.Base

namespace Db

/-- Whether a row but for one session's holds a name. -/
def holds (name : String) (exceptAgentId : Option String) (r : AgentRow) : Bool :=
  r.agentName == name && r.isAlive && r.agentId != exceptAgentId.getD ""

/-- The first of these rows. -/
def firstHolder (db : Db) (name : String) (exceptAgentId : Option String) : Option AgentRow :=
  db.agentRegistry.rows.find? (holds name exceptAgentId)

/-- A session but for one holds a name, and runs. -/
def HeldLive (db : Db) (isLive : String → Bool) (name : String) (exceptAgentId : Option String) :
    Prop :=
  ∃ r ∈ db.agentRegistry.rows, r.agentName = name ∧ r.isAlive = true ∧ isLive r.agentId = true ∧
    exceptAgentId ≠ some r.agentId

instance (db : Db) (isLive : String → Bool) (name : String) (exceptAgentId : Option String) :
    Decidable (db.HeldLive isLive name exceptAgentId) :=
  inferInstanceAs (Decidable (∃ r ∈ db.agentRegistry.rows, _))

variable {db : Db} {isLive : String → Bool} {name : String} {exceptAgentId : Option String}

theorem nickIsTaken_eq : db.nickIsTaken isLive name (exceptAgentId.getD "") =
    (db.firstHolder name exceptAgentId).any fun r ↦ isLive r.agentId := rfl

/-- Ids are not empty, so a missing one excepts nobody. -/
theorem holds_iff {r : AgentRow} (hid : r.agentId ≠ "") : holds name exceptAgentId r = true ↔
    r.agentName = name ∧ r.isAlive = true ∧ exceptAgentId ≠ some r.agentId := by
  have hexcept : r.agentId ≠ exceptAgentId.getD "" ↔ exceptAgentId ≠ some r.agentId := by
    cases exceptAgentId with
    | none => simpa using hid
    | some a => simp [eq_comm]
  unfold holds
  rw [Bool.and_eq_true, Bool.and_eq_true, beq_iff_eq, bne_iff_ne, hexcept, and_assoc]

/-- A name that runs is held by some row. -/
theorem HeldLive.firstHolder (hids : ∀ r ∈ db.agentRegistry.rows, r.agentId ≠ "")
    (h : db.HeldLive isLive name exceptAgentId) :
    ∃ g, db.firstHolder name exceptAgentId = some g := by
  obtain ⟨r, hr, hname, halive, -, hexcept⟩ := h
  have hsome : (db.firstHolder name exceptAgentId).isSome = true :=
    List.find?_isSome.mpr ⟨r, hr, (holds_iff (hids r hr)).mpr ⟨hname, halive, hexcept⟩⟩
  exact Option.isSome_iff_exists.mp hsome

/-- The first row is one of them. -/
theorem heldLive_of_firstHolder (hids : ∀ r ∈ db.agentRegistry.rows, r.agentId ≠ "") {g : AgentRow}
    (h : db.firstHolder name exceptAgentId = some g) (hlive : isLive g.agentId = true) :
    db.HeldLive isLive name exceptAgentId := by
  have hg := List.mem_of_find?_eq_some h
  obtain ⟨hname, halive, hexcept⟩ := (holds_iff (hids g hg)).mp (List.find?_some h)
  exact ⟨g, hg, hname, halive, hlive, hexcept⟩

/-- A name that no row holds can be written to one. -/
theorem Sound.write_renamed {agentId : String} (h : db.Sound)
    (hfree : ∀ r ∈ db.agentRegistry.rows, r.agentName = name → r.isAlive = true →
      r.agentId = agentId) : db.Admits (db.renamed agentId name) := by
  have hrename : ∀ r : AgentRow, { r with agentName := name }.agentId = r.agentId := fun _ ↦ rfl
  refine ⟨_, write_eq_ok.mpr ⟨rfl, ?_⟩⟩
  constructor
  · intro r hr
    obtain ⟨x, hx, rfl⟩ := mem_renamed.mp hr
    have hok := h.topic x hx
    split
    · exact hok
    · exact hok
  · by_cases hrow : ∃ r ∈ db.agentRegistry.rows, r.agentId = agentId
    · obtain ⟨r, hr, rfl⟩ := hrow
      refine (indexed_update_iff hrename hr ?_ h.name).mpr ?_
      · intro x hx
        constructor
        · exact fun hxid ↦ db.agentRegistry.eq_of_key_eq hx hr (of_decide_eq_true hxid)
        · rintro rfl
          simp
      · rintro x hx hne ⟨thread, name'⟩ hk hk'
        obtain ⟨-, -, hname⟩ := AgentRow.nameKey_eq_some_iff.mp hk
        obtain ⟨halive, -, hname'⟩ := AgentRow.nameKey_eq_some_iff.mp hk'
        have hxid : x.agentId = r.agentId := hfree x hx (hname'.trans hname.symm) halive
        exact hne (db.agentRegistry.eq_of_key_eq hx hr hxid)
    · refine indexed_update hrename ?_ h.name
      intro r hr hid
      exact absurd ⟨r, hr, of_decide_eq_true hid⟩ hrow
  · exact indexed_update hrename (fun _ _ _ ↦ Or.inr rfl) h.routing

theorem firstHolder_eq_none_iff {agentId : String} : db.firstHolder name (some agentId) = none ↔
    ¬ ∃ r ∈ db.agentRegistry.rows,
      r.agentName = name ∧ r.agentId ≠ agentId ∧ r.isAlive = true := by
  unfold firstHolder holds
  rw [List.find?_eq_none, not_exists]
  apply forall_congr'
  intro r
  rw [not_and]
  apply imp_congr_right
  intro _
  simp only [Option.getD_some, Bool.and_eq_true, beq_iff_eq, bne_iff_ne]
  tauto

/-- `rename` goes through when the name is well formed and no other row holds it. -/
theorem Sound.rename_ok_iff {agentId : String} (h : db.Sound) :
    (∃ db', db.rename agentId name = .ok db') ↔
      ValidName name ∧ db.firstHolder name (some agentId) = none := by
  rw [firstHolder_eq_none_iff]
  constructor
  · rintro ⟨db', hok⟩
    unfold rename at hok
    obtain ⟨_, hvalid, hok⟩ := bind_eq_ok.mp hok
    obtain ⟨_, hfree, -⟩ := bind_eq_ok.mp hok
    exact ⟨require_eq_ok.mp hvalid, require_eq_ok.mp hfree⟩
  · rintro ⟨hvalid, hfree⟩
    obtain ⟨db', hwrite⟩ : db.Admits (db.renamed agentId name) := by
      apply h.write_renamed
      intro r hr hname halive
      by_contra hne
      exact hfree ⟨r, hr, hname, hne, halive⟩
    refine ⟨db', ?_⟩
    have hupdate : db.write (db.agentRegistry.updateKey agentId
        (fun r ↦ { r with agentName := name }) (fun _ ↦ rfl)) = .ok db' := hwrite
    unfold rename
    rw [require_of_pos hvalid, require_of_pos hfree, hupdate]
    rfl

end Db

open Db in
/-- A name is free exactly when nobody who runs has it, and what is free can be taken, if and only
if no crashed session's row comes first and hides somebody who runs or blocks a rename. -/
theorem nick_free_iff (machine : Machine) (s : Roster) (h : s.db.Sound)
    (hids : ∀ r ∈ s.db.agentRegistry.rows, r.agentId ≠ "") (name : String)
    (exceptAgentId : Option String) :
    ((s.db.nickIsTaken (fun id ↦ processIsLive machine (s.process id)) name
          (exceptAgentId.getD "") = true ↔
        s.db.HeldLive (fun id ↦ processIsLive machine (s.process id)) name exceptAgentId) ∧
      ∀ agentId, exceptAgentId = some agentId → (s.db.agentRegistry.get? agentId).isSome = true →
        ValidName name →
        s.db.nickIsTaken (fun id ↦ processIsLive machine (s.process id)) name agentId = false →
        ∃ db', s.db.rename agentId name = .ok db') ↔
    ∀ g, s.db.firstHolder name exceptAgentId = some g →
      processIsLive machine (s.process g.agentId) = false →
        ¬ s.db.HeldLive (fun id ↦ processIsLive machine (s.process id)) name exceptAgentId ∧
        ∀ agentId, exceptAgentId = some agentId →
          (s.db.agentRegistry.get? agentId).isSome = true → ¬ ValidName name := by
  rw [nickIsTaken_eq]
  constructor
  · rintro ⟨hiff, htake⟩ g hg hgone
    have hfree : (s.db.firstHolder name exceptAgentId).any
        (fun r ↦ processIsLive machine (s.process r.agentId)) = false := by
      rw [hg, Option.any_some, hgone]
    constructor
    · intro hheld
      rw [hiff.mpr hheld] at hfree
      cases hfree
    · rintro agentId rfl hregistered hvalid
      have hok := h.rename_ok_iff.mp (htake agentId rfl hregistered hvalid hfree)
      rw [hg] at hok
      cases hok.2
  · intro hghost
    cases hfirst : s.db.firstHolder name exceptAgentId with
    | none =>
      constructor
      · constructor
        · nofun
        · intro hheld
          obtain ⟨g, hg⟩ := hheld.firstHolder hids
          rw [hfirst] at hg
          cases hg
      · rintro agentId rfl - hvalid -
        exact h.rename_ok_iff.mpr ⟨hvalid, hfirst⟩
    | some g =>
      rw [Option.any_some]
      cases hlive : processIsLive machine (s.process g.agentId) with
      | true =>
        constructor
        · exact iff_of_true rfl (heldLive_of_firstHolder hids hfirst hlive)
        · rintro agentId rfl - - hfree
          have htaken : s.db.nickIsTaken (fun id ↦ processIsLive machine (s.process id)) name
              agentId = true := by
            show (s.db.firstHolder name (some agentId)).any _ = true
            rw [hfirst]
            exact hlive
          rw [htaken] at hfree
          cases hfree
      | false =>
        obtain ⟨hnobody, hinvalid⟩ := hghost g hfirst hlive
        constructor
        · exact iff_of_false nofun hnobody
        · intro agentId hexcept hregistered hvalid _
          exact absurd hvalid (hinvalid agentId hexcept hregistered)

/-- A session that has crashed, one that runs under the same name, and one that comes back. -/
def crashed : Roster :=
  let row (agentId agentName : String) : AgentRow :=
    ⟨agentId, agentName, agentId, none, 0, 0, .alive, none, none, none⟩
  { Roster.empty with
    db := ⟨⟨[row "old" "mira", row "new" "mira", row "back" "other"], by decide⟩, .empty⟩
    process := fun agentId ↦ ⟨some "host", some (if agentId = "old" then 1 else 2), none⟩ }

/-- The name is called free. -/
theorem nick_free_crashed : ¬ ∀ (machine : Machine) (s : Roster), s.db.Sound →
    (∀ r ∈ s.db.agentRegistry.rows, r.agentId ≠ "") → ∀ (name : String)
    (exceptAgentId : Option String),
    (s.db.nickIsTaken (fun id ↦ processIsLive machine (s.process id)) name
          (exceptAgentId.getD "") = true ↔
        s.db.HeldLive (fun id ↦ processIsLive machine (s.process id)) name exceptAgentId) ∧
      ∀ agentId, exceptAgentId = some agentId → (s.db.agentRegistry.get? agentId).isSome = true →
        ValidName name →
        s.db.nickIsTaken (fun id ↦ processIsLive machine (s.process id)) name agentId = false →
        ∃ db', s.db.rename agentId name = .ok db' := by
  intro h
  have hiff := (h ⟨"host", fun pid ↦ pid = 2⟩ crashed ⟨by decide, by decide, by decide⟩ (by decide)
    "mira" (some "back")).1
  have htaken := hiff.mpr (by decide)
  revert htaken
  decide

/-- The same name on a machine where the first session runs. -/
theorem nick_free_running :
    ((crashed.db.nickIsTaken (fun id ↦ processIsLive ⟨"host", fun _ ↦ true⟩ (crashed.process id))
          "mira" ((some "back").getD "") = true ↔
        crashed.db.HeldLive (fun id ↦ processIsLive ⟨"host", fun _ ↦ true⟩ (crashed.process id))
          "mira" (some "back")) ∧
      ∀ agentId, some "back" = some agentId →
        (crashed.db.agentRegistry.get? agentId).isSome = true → ValidName "mira" →
        crashed.db.nickIsTaken (fun id ↦ processIsLive ⟨"host", fun _ ↦ true⟩ (crashed.process id))
          "mira" agentId = false →
        ∃ db', crashed.db.rename agentId "mira" = .ok db') ↔
    ∀ g, crashed.db.firstHolder "mira" (some "back") = some g →
      processIsLive ⟨"host", fun _ ↦ true⟩ (crashed.process g.agentId) = false →
        ¬ crashed.db.HeldLive (fun id ↦ processIsLive ⟨"host", fun _ ↦ true⟩ (crashed.process id))
          "mira" (some "back") ∧
        ∀ agentId, some "back" = some agentId →
          (crashed.db.agentRegistry.get? agentId).isSome = true → ¬ ValidName "mira" :=
  nick_free_iff ⟨"host", fun _ ↦ true⟩ crashed ⟨by decide, by decide, by decide⟩ (by decide)
    "mira" (some "back")

end Claudebase.Registry
