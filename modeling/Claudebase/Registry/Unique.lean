import Claudebase.Registry.Names
import Claudebase.Registry.Routing

/-!
# Unique names

`src/daemon/agent_registry.rs:202–290,434–496,649–657,980–1015`, `src/daemon/server.rs:1851–1914`.
A name comes to a live session by a registration or by the write of a rename. `rename` looks for
other holders in a statement of its own, and a registration looks for none. While no other live
session has the name at that moment, the live sessions have one name each.
-/

namespace Claudebase.Registry
open Claudebase.Base

namespace Db

variable {db db' : Db} {agentId : String}

/-! ### Statements that give no name -/

/-- The live sessions of `db'` were alive in `db`, under the same names. -/
def Keeps (db db' : Db) : Prop :=
  ∀ r' ∈ db'.agentRegistry.rows, r'.isAlive = true →
    ∃ r ∈ db.agentRegistry.rows, r.isAlive = true ∧ r.agentId = r'.agentId ∧
      r.agentName = r'.agentName

theorem keeps_of_eq (h : db'.agentRegistry = db.agentRegistry) : Keeps db db' := by
  intro r hr halive
  rw [h] at hr
  exact ⟨r, hr, halive, rfl, rfl⟩

theorem keeps_update {p : AgentRow → Bool} {f : AgentRow → AgentRow}
    {hf : ∀ r, (f r).agentId = r.agentId} {chatBindings : Table ChatBinding.key}
    (hname : ∀ r, (f r).agentName = r.agentName)
    (halive : ∀ r, (f r).isAlive = true → r.isAlive = true) :
    Keeps db ⟨db.agentRegistry.update p f hf, chatBindings⟩ := by
  intro r hr hlive
  obtain ⟨x, hx, rfl⟩ := (Table.mem_update hf).mp hr
  by_cases hp : p x = true
  · rw [if_pos hp] at hlive ⊢
    exact ⟨x, hx, halive x hlive, (hf x).symm, (hname x).symm⟩
  · rw [if_neg hp] at hlive ⊢
    exact ⟨x, hx, hlive, rfl, rfl⟩

/-- Sessions that are given up. -/
theorem keeps_retire {p : AgentRow → Bool} {f : AgentRow → AgentRow}
    {hf : ∀ r, (f r).agentId = r.agentId} {chatBindings : Table ChatBinding.key}
    (hname : ∀ r, (f r).agentName = r.agentName) (hgone : ∀ r, (f r).isAlive = false) :
    Keeps db ⟨db.agentRegistry.update p f hf, chatBindings⟩ := by
  apply keeps_update hname
  intro r halive
  rw [hgone r] at halive
  cases halive

theorem Keeps.trans {db'' : Db} (h : Keeps db db') (h' : Keeps db' db'') : Keeps db db'' := by
  intro r hr halive
  obtain ⟨x, hx, hxalive, hxid, hxname⟩ := h' r hr halive
  obtain ⟨y, hy, hyalive, hyid, hyname⟩ := h x hx hxalive
  exact ⟨y, hy, hyalive, hyid.trans hxid, hyname.trans hxname⟩

/-- They leave the names unique. -/
theorem UniqueNames.of_keeps (h : db.UniqueNames) (hkeeps : Keeps db db') : db'.UniqueNames := by
  intro r hr r' hr' halive halive' hname
  obtain ⟨x, hx, hxalive, hxid, hxname⟩ := hkeeps r hr halive
  obtain ⟨x', hx', hxalive', hxid', hxname'⟩ := hkeeps r' hr' halive'
  have hsame : x = x' :=
    h x hx x' hx' hxalive hxalive' ((hxname.trans hname).trans hxname'.symm)
  apply db'.agentRegistry.eq_of_key_eq hr hr'
  rw [← hxid, ← hxid', hsame]

/-- A call that is over at once gives no name. -/
theorem keeps_next {op : Op} (hop : op.isSingle = true) : Keeps db (Registry.next db op) := by
  cases op with
  | unregister agentId =>
    unfold Registry.next unregister
    dsimp only
    split
    · exact keeps_of_eq rfl
    · exact keeps_retire (fun _ ↦ rfl) fun _ ↦ rfl
  | markConnectionOrphaned connectionId => exact keeps_retire (fun _ ↦ rfl) fun _ ↦ rfl
  | reapOnBoot => exact keeps_retire (fun _ ↦ rfl) fun _ ↦ rfl
  | reap cutoff => exact keeps_retire (fun _ ↦ rfl) fun _ ↦ rfl
  | bindRoutingKey agentId chatId threadId =>
    cases hok : db.bindRoutingKey agentId chatId threadId with
    | error e =>
      rw [Registry.next, hok]
      exact keeps_of_eq rfl
    | ok db' =>
      rw [Registry.next, hok]
      obtain ⟨rfl, -⟩ := write_eq_ok.mp hok
      have hcleared : Keeps db (db.cleared agentId chatId threadId) :=
        keeps_update (fun _ ↦ rfl) (fun _ h ↦ h)
      exact hcleared.trans (keeps_update (fun _ ↦ rfl) (fun _ h ↦ h))
  | unbindRoutingKey agentId => exact keeps_update (fun _ ↦ rfl) (fun _ h ↦ h)
  | bindChatToName chatId threadId agentName now => exact keeps_of_eq rfl
  | register agentId agentName connectionId chatThreadId metadata now => cases hop
  | rename agentId newName => cases hop
  | migrateBindings oldNick newNick => cases hop
  | restoreBindingsFor agentId agentName => cases hop

/-! ### Statements that give one -/

/-- The live sessions of `db'` are those of `db` that `buried` spares, and `agentId` under
`name`. -/
structure Gives (db db' : Db) (agentId name : String) (buried : AgentRow → Bool) : Prop where
  self : ∃ r ∈ db'.agentRegistry.rows, r.isAlive = true ∧ r.agentId = agentId ∧ r.agentName = name
  other : ∀ r, r.agentId ≠ agentId → r.isAlive = true →
    (r ∈ db'.agentRegistry.rows ↔ r ∈ db.agentRegistry.rows ∧ buried r = false)

/-- The names stay unique exactly when no other live session has the one that is given. -/
theorem Gives.uniqueNames_iff {name : String} {buried : AgentRow → Bool}
    (h : Gives db db' agentId name buried) (hunique : db.UniqueNames) :
    db'.UniqueNames ↔ ¬ db.HeldBeside agentId name buried := by
  obtain ⟨r, hr, halive, hid, hname⟩ := h.self
  have hself : ∀ x ∈ db'.agentRegistry.rows, x.agentId = agentId → x = r :=
    fun x hx hxid ↦ db'.agentRegistry.eq_of_key_eq hx hr (hxid.trans hid.symm)
  constructor
  · rintro hunique' ⟨x, hx, hxalive, hxid, hkept, hxname⟩
    have hx' : x ∈ db'.agentRegistry.rows := (h.other x hxid hxalive).mpr ⟨hx, hkept⟩
    have hsame : x = r := hunique' x hx' r hr hxalive halive (hxname.trans hname.symm)
    exact hxid (hsame ▸ hid)
  · intro hfree
    have hnot : ∀ x ∈ db'.agentRegistry.rows, x.isAlive = true → x.agentId ≠ agentId →
        x.agentName ≠ name := by
      intro x hx hxalive hxid hxname
      obtain ⟨hold, hkept⟩ := (h.other x hxid hxalive).mp hx
      exact hfree ⟨x, hold, hxalive, hxid, hkept, hxname⟩
    intro x hx y hy hxalive hyalive hxy
    by_cases hxid : x.agentId = agentId
    · by_cases hyid : y.agentId = agentId
      · rw [hself x hx hxid, hself y hy hyid]
      · rw [hself x hx hxid, hname] at hxy
        exact absurd hxy.symm (hnot y hy hyalive hyid)
    · by_cases hyid : y.agentId = agentId
      · rw [hself y hy hyid, hname] at hxy
        exact absurd hxy (hnot x hx hxalive hxid)
      · exact hunique x ((h.other x hxid hxalive).mp hx).1 y ((h.other y hyid hyalive).mp hy).1
          hxalive hyalive hxy

section Registration

variable {agentName connectionId : String} {chatThreadId metadata : Option String} {now : Int}
  {rows : Table AgentRow.agentId}

/-- The insert of a registration leaves the other rows. -/
theorem mem_upsert_of_ne {r : AgentRow} (hne : r.agentId ≠ agentId) :
    r ∈ (upsert rows agentId agentName connectionId chatThreadId metadata now).rows ↔
      r ∈ rows.rows := by
  unfold upsert
  split
  · constructor
    · intro hr
      obtain ⟨x, hx, hxr⟩ := (Table.mem_update _).mp hr
      by_cases hid : x.agentId = agentId
      · rw [if_pos (by simpa using hid)] at hxr
        subst hxr
        exact absurd hid hne
      · rw [if_neg (by simpa using hid)] at hxr
        exact hxr ▸ hx
    · intro hr
      exact (Table.mem_update _).mpr ⟨r, hr, if_neg (by simpa using hne)⟩
  · rw [Table.mem_insertOrIgnore]
    constructor
    · rintro (hr | ⟨rfl, -⟩)
      · exact hr
      · exact absurd rfl hne
    · exact Or.inl

/-- Its own row is alive afterwards, under the name it had or the one it was given. -/
theorem exists_mem_upsert :
    ∃ r ∈ (upsert rows agentId agentName connectionId chatThreadId metadata now).rows,
      r.isAlive = true ∧ r.agentId = agentId ∧
        r.agentName = ((rows.get? agentId).map AgentRow.agentName).getD agentName := by
  unfold upsert
  cases hget : rows.get? agentId with
  | some x =>
    obtain ⟨hx, hid⟩ := Table.get?_eq_some_iff.mp hget
    refine ⟨_, (Table.mem_update _).mpr ⟨x, hx, if_pos (by simpa using hid)⟩, rfl, hid, rfl⟩
  | none =>
    have hnot : agentId ∉ rows.rows.map AgentRow.agentId := by
      intro hmem
      obtain ⟨x, hx, hid⟩ := List.mem_map.mp hmem
      exact Table.get?_eq_none_iff.mp hget x hx hid
    exact ⟨_, Table.mem_insertOrIgnore.mpr (Or.inr ⟨rfl, hnot⟩), rfl, rfl, rfl⟩

/-- The sweep of a registration spares its own row. -/
theorem get?_sweep_self :
    (db.sweep agentId connectionId chatThreadId).get? agentId = db.agentRegistry.get? agentId := by
  unfold sweep
  rw [Table.get?_update]
  cases hget : db.agentRegistry.get? agentId with
  | none => rfl
  | some r =>
    have hid : r.agentId = agentId := (Table.get?_eq_some_iff.mp hget).2
    rw [Option.map_some, if_neg (by simp [sweeps, hid])]

/-- The live sessions a sweep leaves. -/
theorem mem_sweep_iff {r : AgentRow} (halive : r.isAlive = true) :
    r ∈ (db.sweep agentId connectionId chatThreadId).rows ↔
      r ∈ db.agentRegistry.rows ∧ sweeps agentId connectionId chatThreadId r = false := by
  constructor
  · intro hr
    obtain ⟨x, hx, rfl⟩ := (Table.mem_update _).mp hr
    by_cases hswept : sweeps agentId connectionId chatThreadId x = true
    · rw [if_pos hswept] at halive
      cases halive
    · rw [if_neg hswept]
      exact ⟨hx, Bool.not_eq_true _ ▸ hswept⟩
  · rintro ⟨hr, hkept⟩
    exact (Table.mem_update _).mpr ⟨r, hr, by simp [hkept]⟩

/-- A registration gives its session the name it leaves on the row. -/
theorem gives_registered
    (h : db.write (db.registered agentId agentName connectionId chatThreadId metadata now) =
      .ok db') :
    Gives db db' agentId (db.effectiveName agentId agentName)
      (sweeps agentId connectionId chatThreadId) := by
  obtain ⟨rfl, -⟩ := write_eq_ok.mp h
  constructor
  · unfold effectiveName
    rw [← get?_sweep_self]
    exact exists_mem_upsert
  · intro r hne halive
    exact (mem_upsert_of_ne hne).trans (mem_sweep_iff halive)

end Registration

theorem mem_renamed {newName : String} {r : AgentRow} :
    r ∈ (db.renamed agentId newName).rows ↔ ∃ x ∈ db.agentRegistry.rows,
      (if x.agentId = agentId then { x with agentName := newName } else x) = r := by
  unfold renamed Table.updateKey
  simp only [Table.mem_update, decide_eq_true_eq]

/-- The write of a rename gives its session the new name, when it is alive. -/
theorem gives_renamed {newName : String} (h : db.write (db.renamed agentId newName) = .ok db')
    (halive : db.aliveOf agentId = true) : Gives db db' agentId newName fun _ ↦ false := by
  obtain ⟨rfl, -⟩ := write_eq_ok.mp h
  obtain ⟨x, hx, hid, hxalive⟩ := aliveOf_iff.mp halive
  constructor
  · exact ⟨_, mem_renamed.mpr ⟨x, hx, if_pos hid⟩, hxalive, hid, rfl⟩
  · intro r hne _
    rw [and_iff_left rfl]
    constructor
    · intro hr
      obtain ⟨y, hy, rfl⟩ := mem_renamed.mp hr
      by_cases hyid : y.agentId = agentId
      · rw [if_pos hyid] at hne
        exact absurd hyid hne
      · rw [if_neg hyid]
        exact hy
    · exact fun hr ↦ mem_renamed.mpr ⟨r, hr, if_neg hne⟩

/-- The write of a rename of a session that is not alive. -/
theorem keeps_renamed {newName : String} (h : db.write (db.renamed agentId newName) = .ok db')
    (halive : db.aliveOf agentId = false) : Keeps db db' := by
  obtain ⟨rfl, -⟩ := write_eq_ok.mp h
  intro r hr hlive
  obtain ⟨x, hx, rfl⟩ := mem_renamed.mp hr
  by_cases hid : x.agentId = agentId
  · rw [if_pos hid] at hlive
    have hyes : db.aliveOf agentId = true := aliveOf_iff.mpr ⟨x, hx, hid, hlive⟩
    rw [halive] at hyes
    cases hyes
  · rw [if_neg hid] at hlive ⊢
    exact ⟨x, hx, hlive, rfl, rfl⟩

/-! ### Resolving a name -/

/-- A name that no two live sessions have resolves. -/
theorem UniqueNames.namesResolve (h : db.UniqueNames) : db.NamesResolve := by
  intro r hr halive
  unfold resolveTarget
  cases hid : db.agentRegistry.rows.find? fun x ↦ x.agentId == r.agentName && x.isAlive with
  | some x => exact ⟨x.agentId, rfl⟩
  | none =>
    have hsingle : (db.agentRegistry.rows.filter fun x ↦ x.agentName == r.agentName && x.isAlive) =
        [r] := by
      have hnodup : db.agentRegistry.rows.Nodup := db.agentRegistry.nodup.of_map
      have hmem : r ∈ db.agentRegistry.rows.filter
          fun x ↦ x.agentName == r.agentName && x.isAlive :=
        List.mem_filter.mpr ⟨hr, by simp [halive]⟩
      by_contra hne
      rcases ((hnodup.filter _).ne_singleton_iff r).mp hne with hnil | ⟨x, hx, hxr⟩
      · rw [hnil] at hmem
        cases hmem
      · obtain ⟨hx, hp⟩ := List.mem_filter.mp hx
        simp only [Bool.and_eq_true, beq_iff_eq] at hp
        exact hxr (h x hx r hr hp.2 halive hp.1)
    rw [hsingle]
    exact ⟨r.agentId, by simp⟩

/-! ### Taking a chat -/

/-- A statement that leaves the bindings, and the keys of the other sessions, takes no chat. -/
theorem not_takesChat_of_frame (hbindings : db'.chatBindings = db.chatBindings)
    (hrouting : ∀ r ∈ db.agentRegistry.rows, r.agentId ≠ agentId →
      ∀ r' ∈ db'.agentRegistry.rows, r'.agentId = r.agentId →
        r'.routingChatId = r.routingChatId) : ¬ TakesChat db db' agentId := by
  rintro ⟨r, hr, -, hne, ⟨hkey, r', hr', hid, hnone⟩ | ⟨b, hb, hname, b', hb', hkey, hne'⟩⟩
  · rw [hrouting r hr hne r' hr' hid] at hnone
    exact hkey hnone
  · rw [hbindings] at hb'
    rw [db.chatBindings.eq_of_key_eq hb' hb hkey] at hne'
    exact hne' hname

theorem not_takesChat_self : ¬ TakesChat db db agentId := by
  apply not_takesChat_of_frame rfl
  intro r hr _ r' hr' hid
  rw [db.agentRegistry.eq_of_key_eq hr' hr hid]

/-- A statement that rewrites the row of `agentId` takes no chat from another session. -/
theorem not_takesChat_updateKey {f : AgentRow → AgentRow} {hf : ∀ r, (f r).agentId = r.agentId} :
    ¬ TakesChat db ⟨db.agentRegistry.updateKey agentId f hf, db.chatBindings⟩ agentId := by
  refine not_takesChat_of_frame ?_ ?_
  · rfl
  intro r hr hne r' hr' hid
  obtain ⟨x, hx, rfl⟩ := (Table.mem_update hf).mp hr'
  by_cases hxid : x.agentId = agentId
  · rw [if_pos (by simpa using hxid), hf] at hid
    exact absurd (hid.symm.trans hxid) hne
  · rw [if_neg (by simpa using hxid)] at hid ⊢
    rw [db.agentRegistry.eq_of_key_eq hx hr hid]

/-- The clear of a restored chat takes it from whoever else has it. -/
theorem takesChat_clearKey_iff {chatId : Int} {threadId : Option Int} :
    TakesChat db (db.clearKey agentId chatId threadId) agentId ↔
      ∃ r ∈ db.agentRegistry.rows, r.isAlive = true ∧ r.agentId ≠ agentId ∧
        r.routes chatId threadId = true := by
  constructor
  · rintro ⟨r, hr, halive, hne, ⟨hkey, r', hr', hid, hnone⟩ | ⟨b, hb, hname, b', hb', hkey, hne'⟩⟩
    · obtain ⟨x, hx, rfl⟩ := (Table.mem_update AgentRow.agentId_unrouted).mp hr'
      refine ⟨r, hr, halive, hne, ?_⟩
      by_cases hp : (x.routes chatId threadId && x.agentId != agentId) = true
      · rw [if_pos hp, AgentRow.agentId_unrouted] at hid
        rw [← db.agentRegistry.eq_of_key_eq hx hr hid]
        exact (Bool.and_eq_true_iff.mp hp).1
      · rw [if_neg hp] at hid hnone
        rw [db.agentRegistry.eq_of_key_eq hx hr hid] at hnone
        exact absurd hnone hkey
    · rw [db.chatBindings.eq_of_key_eq hb' hb hkey] at hne'
      exact absurd hname hne'
  · rintro ⟨r, hr, halive, hne, hroutes⟩
    refine ⟨r, hr, halive, hne, Or.inl ⟨?_, r.unrouted, ?_, rfl, rfl⟩⟩
    · rw [(AgentRow.routes_iff.mp hroutes).1]
      nofun
    · exact (Table.mem_update AgentRow.agentId_unrouted).mpr ⟨r, hr, by simp [hroutes, hne]⟩

/-- Moving the bindings of a name takes them from whoever else has it. -/
theorem takesChat_migrate_iff {oldName newName : String} (hne : oldName ≠ newName) :
    TakesChat db (db.migrateBindings oldName newName) agentId ↔
      (∃ b ∈ db.chatBindings.rows, b.agentName = oldName) ∧
        db.HeldBeside agentId oldName fun _ ↦ false := by
  have hf : ∀ b : ChatBinding, ({ b with agentName := newName } : ChatBinding).key = b.key :=
    fun _ ↦ rfl
  constructor
  · rintro ⟨r, hr, halive, hid, ⟨hkey, r', hr', hid', hnone⟩ | ⟨b, hb, hname, b', hb', hkey, hne'⟩⟩
    · rw [db.agentRegistry.eq_of_key_eq hr' hr hid'] at hnone
      exact absurd hnone hkey
    · obtain ⟨x, hx, rfl⟩ := (Table.mem_update hf).mp hb'
      by_cases hp : (x.agentName == oldName) = true
      · rw [if_pos hp, hf] at hkey
        have hxb : x = b := db.chatBindings.eq_of_key_eq hx hb hkey
        rw [hxb, beq_iff_eq] at hp
        exact ⟨⟨b, hb, hp⟩, r, hr, halive, hid, rfl, hname.symm.trans hp⟩
      · rw [if_neg hp] at hkey hne'
        rw [db.chatBindings.eq_of_key_eq hx hb hkey] at hne'
        exact absurd hname hne'
  · rintro ⟨⟨b, hb, hbname⟩, r, hr, halive, hid, -, hname⟩
    refine ⟨r, hr, halive, hid, Or.inr ⟨b, hb, hbname.trans hname.symm, _,
      (Table.mem_update hf).mpr ⟨b, hb, if_pos (by simpa using hbname)⟩, rfl, ?_⟩⟩
    rw [hname]
    exact hne.symm

end Db

/-! ### One statement -/

section Statement

variable {s : Names} {isLive : String → Bool} {task : Task}

/-- Only the write of a rename gives a name. -/
theorem keeps_statement
    (hwrite : ∀ agentId newName oldName, task ≠ .write agentId newName oldName) :
    Db.Keeps s.db (s.statement isLive task).2.db := by
  cases task with
  | write agentId newName oldName => exact absurd rfl (hwrite agentId newName oldName)
  | clear agentId chatId threadId chats => exact Db.keeps_update (fun _ ↦ rfl) fun _ h ↦ h
  | claim agentId chatId threadId chats =>
    unfold Names.statement
    dsimp only
    split
    · exact Db.keeps_of_eq rfl
    · next db hok =>
      obtain ⟨rfl, -⟩ := Db.write_eq_ok.mp hok
      exact Db.keeps_update (fun _ ↦ rfl) fun _ h ↦ h
  | check agentId newName oldName =>
    unfold Names.statement
    dsimp only
    split
    · exact Db.keeps_of_eq rfl
    · exact Db.keeps_of_eq rfl
  | remember agentId newName =>
    unfold Names.statement
    dsimp only
    split
    · exact Db.keeps_of_eq rfl
    · exact Db.keeps_of_eq rfl
  | «recall» agentId sessionId current =>
    unfold Names.statement
    dsimp only
    split
    · exact Db.keeps_of_eq rfl
    · exact Db.keeps_of_eq rfl
  | _ => exact Db.keeps_of_eq rfl

/-- The tables after the write of a rename. -/
theorem db_statement_write {agentId newName : String} {oldName : Option String} :
    (s.statement isLive (.write agentId newName oldName)).2.db =
      ((s.db.write (s.db.renamed agentId newName)).toOption).getD s.db := by
  unfold Names.statement
  dsimp only
  split
  · next e hok => rw [hok]; rfl
  · next db hok =>
    rw [hok]
    split
    · rfl
    · rfl

/-- The write of a rename keeps the names unique exactly when no other live session has the new
one. -/
theorem uniqueNames_write_iff {agentId newName : String} {oldName : Option String}
    (hunique : s.db.UniqueNames) :
    (s.statement isLive (.write agentId newName oldName)).2.db.UniqueNames ↔
      (Task.write agentId newName oldName).Free s.db := by
  rw [db_statement_write]
  unfold Task.Free
  cases hok : s.db.write (s.db.renamed agentId newName) with
  | error e =>
    refine iff_of_true hunique fun _ hadmits ↦ ?_
    obtain ⟨db', hok'⟩ := hadmits
    rw [hok] at hok'
    cases hok'
  | ok db' =>
    show db'.UniqueNames ↔ _
    have hadmits : s.db.Admits (s.db.renamed agentId newName) := ⟨db', hok⟩
    by_cases halive : s.db.aliveOf agentId = true
    · rw [(Db.gives_renamed hok halive).uniqueNames_iff hunique]
      exact ⟨fun h _ _ ↦ h, fun h ↦ h halive hadmits⟩
    · have hkeeps := Db.keeps_renamed hok (Bool.not_eq_true _ ▸ halive)
      exact iff_of_true (hunique.of_keeps hkeeps) fun h ↦ absurd h halive

/-- A statement that is neither the clear of a chat nor the move of bindings takes none. -/
theorem not_takesChat_statement {agentId : String} (hid : task.agentId? = some agentId)
    (hclear : ∀ a chatId threadId chats, task ≠ .clear a chatId threadId chats)
    (hmigrate : ∀ a oldName newName hne, task ≠ .migrate a oldName newName hne) :
    ¬ TakesChat s.db (s.statement isLive task).2.db agentId := by
  cases task with
  | clear a chatId threadId chats => exact absurd rfl (hclear a chatId threadId chats)
  | migrate a oldName newName hne => exact absurd rfl (hmigrate a oldName newName hne)
  | claim a chatId threadId chats =>
    cases hid
    unfold Names.statement
    dsimp only
    split
    · exact Db.not_takesChat_self
    · next db hok =>
      obtain ⟨rfl, -⟩ := Db.write_eq_ok.mp hok
      exact Db.not_takesChat_updateKey
  | write a newName oldName =>
    cases hid
    rw [db_statement_write]
    cases hok : s.db.write (s.db.renamed agentId newName) with
    | error e => exact Db.not_takesChat_self
    | ok db =>
      obtain ⟨rfl, -⟩ := Db.write_eq_ok.mp hok
      exact Db.not_takesChat_updateKey
  | check a newName oldName =>
    unfold Names.statement
    dsimp only
    split
    · exact Db.not_takesChat_self
    · exact Db.not_takesChat_self
  | remember a newName =>
    unfold Names.statement
    dsimp only
    split
    · exact Db.not_takesChat_self
    · exact Db.not_takesChat_self
  | «recall» a sessionId current =>
    unfold Names.statement
    dsimp only
    split
    · exact Db.not_takesChat_self
    · exact Db.not_takesChat_self
  | _ => exact Db.not_takesChat_self

/-- A statement keeps the names unique and the chats with their sessions exactly when it is
free to. -/
theorem free_iff (hunique : s.db.UniqueNames) : task.Free s.db ↔
    (s.statement isLive task).2.db.UniqueNames ∧ ∀ agentId, task.agentId? = some agentId →
      ¬ TakesChat s.db (s.statement isLive task).2.db agentId := by
  cases task with
  | write a newName oldName =>
    rw [uniqueNames_write_iff hunique, and_iff_left]
    intro agentId hid
    refine not_takesChat_statement hid ?_ ?_
    · nofun
    · nofun
  | clear a chatId threadId chats =>
    have hkeeps : (s.statement isLive (.clear a chatId threadId chats)).2.db.UniqueNames :=
      hunique.of_keeps (keeps_statement nofun)
    have htakes : TakesChat s.db (s.db.clearKey a chatId threadId) a ↔ _ :=
      Db.takesChat_clearKey_iff
    constructor
    · intro hfree
      refine ⟨hkeeps, fun agentId hid htake ↦ ?_⟩
      cases hid
      obtain ⟨r, hr, halive, hne, hroutes⟩ := htakes.mp htake
      rw [hfree r hr halive hne] at hroutes
      cases hroutes
    · rintro ⟨-, hno⟩ r hr halive hne
      by_contra hroutes
      exact hno a rfl (htakes.mpr ⟨r, hr, halive, hne, Bool.not_eq_false _ ▸ hroutes⟩)
  | migrate a oldName newName hne =>
    have hkeeps : (s.statement isLive (.migrate a oldName newName hne)).2.db.UniqueNames :=
      hunique.of_keeps (keeps_statement nofun)
    have htakes : TakesChat s.db (s.db.migrateBindings oldName newName) a ↔ _ :=
      Db.takesChat_migrate_iff hne
    constructor
    · intro hfree
      refine ⟨hkeeps, fun agentId hid htake ↦ ?_⟩
      cases hid
      obtain ⟨hbound, hheld⟩ := htakes.mp htake
      exact hfree hbound hheld
    · rintro ⟨-, hno⟩ hbound hheld
      exact hno a rfl (htakes.mpr ⟨hbound, hheld⟩)
  | _ =>
    refine iff_of_true trivial ⟨hunique.of_keeps (keeps_statement nofun), ?_⟩
    intro agentId hid
    refine not_takesChat_statement hid ?_ ?_
    · nofun
    · nofun

end Statement

/-! ### Along a run -/

/-- A step keeps the names unique and the chats with their sessions exactly when the names it
gives are free. -/
theorem namesFree_iff {t : Step Names NameAct} (ht : t.after = t.before.next t.op)
    (hunique : t.before.db.UniqueNames) :
    NamesFree t ↔ t.after.db.UniqueNames ∧ KeepsChats t := by
  obtain ⟨s, act, s'⟩ := t
  dsimp only at ht hunique
  subst ht
  cases act with
  | call op hop =>
    exact iff_of_true trivial ⟨hunique.of_keeps (Db.keeps_next hop), nofun⟩
  | rename agentId newName =>
    have hdb : (s.next (.rename agentId newName)).db = s.db := by
      unfold Names.next
      dsimp only
      split
      · rfl
      · rfl
    refine iff_of_true trivial ⟨?_, nofun⟩
    rw [hdb]
    exact hunique
  | bindSession agentId sessionId =>
    have hdb : (s.next (.bindSession agentId sessionId)).db = s.db := by
      unfold Names.next
      dsimp only
      split
      · rfl
      · rfl
    refine iff_of_true trivial ⟨?_, nofun⟩
    rw [hdb]
    exact hunique
  | register agentId agentName connectionId chatThreadId metadata now =>
    unfold NamesFree Names.next
    dsimp only
    refine Iff.trans ?_ (and_iff_left ?_).symm
    swap
    · intro i isLive task agentId' hop
      cases hop
    cases hok : s.db.register agentId agentName connectionId chatThreadId metadata now with
    | error e =>
      refine iff_of_true ?_ hunique
      rintro hvalid ⟨db', hwrite⟩
      obtain ⟨r, hr, -, hid, -⟩ := (Db.gives_registered hwrite).self
      have hget : db'.agentRegistry.get? agentId = some r := Table.get?_eq_some_iff.mpr ⟨hr, hid⟩
      rw [Db.register_eq_ok.mpr ⟨hvalid, hwrite, r, hget, rfl⟩] at hok
      cases hok
    | ok result =>
      obtain ⟨outcome, db'⟩ := result
      obtain ⟨hvalid, hwrite, -⟩ := Db.register_eq_ok.mp hok
      rw [(Db.gives_registered hwrite).uniqueNames_iff hunique]
      exact ⟨fun h ↦ h hvalid ⟨db', hwrite⟩, fun h _ _ ↦ h⟩
  | advance i isLive =>
    have hkeeps : ∀ {s' : Names}, KeepsChats ⟨s, .advance i isLive, s'⟩ ↔
        ∀ task, s.tasks[i]? = some task → ∀ agentId, task.agentId? = some agentId →
          ¬ TakesChat s.db s'.db agentId := by
      intro s'
      constructor
      · exact fun h task htask agentId hid ↦ h i isLive task agentId rfl htask hid
      · intro h j isLive' task agentId hop htask hid
        cases hop
        exact h task htask agentId hid
    rw [hkeeps]
    unfold NamesFree Names.next
    dsimp only
    cases htask : s.tasks[i]? with
    | none => exact iff_of_true nofun ⟨hunique, nofun⟩
    | some task =>
      dsimp only
      simp only [Option.some.injEq, forall_eq']
      exact free_iff hunique

/-- In every run the live sessions have names of their own, their names resolve, and no
statement takes a chat from another of them, if and only if every name is free when it is given
and every chat when it is moved or restored. -/
theorem names_unique_iff (acts : List NameAct) :
    (∀ t ∈ trace Names.next .start acts, NamesFree t) ↔
      ∀ t ∈ trace Names.next .start acts,
        t.after.db.UniqueNames ∧ t.after.db.NamesResolve ∧ KeepsChats t := by
  have hstart : Names.start.db.UniqueNames := fun r hr ↦ absurd hr List.not_mem_nil
  constructor
  · intro hfree t ht
    have hstep : ∀ t ∈ trace Names.next .start acts, t.before.db.UniqueNames →
        t.after.db.UniqueNames := by
      intro t ht hbefore
      exact ((namesFree_iff (after_of_mem_trace ht) hbefore).mp (hfree t ht)).1
    have hunique := invariant_of_trace (I := fun s ↦ s.db.UniqueNames) hstart hstep t ht
    obtain ⟨-, hkeeps⟩ := (namesFree_iff (after_of_mem_trace ht) hunique.1).mp (hfree t ht)
    exact ⟨hunique.2, hunique.2.namesResolve, hkeeps⟩
  · intro hkept t ht
    have hunique := invariant_of_trace (I := fun s ↦ s.db.UniqueNames) hstart
      (fun t ht _ ↦ (hkept t ht).1) t ht
    exact (namesFree_iff (after_of_mem_trace ht) hunique.1).mpr
      ⟨hunique.2, (hkept t ht).2.2⟩

/-- Two sessions register under one name. -/
def sharedNameRun : List NameAct :=
  [.register "a" "mira" "c1" none none 0, .register "b" "mira" "c2" none none 1]

theorem names_unique_shared :
    ¬ ∀ acts, ∀ t ∈ trace Names.next .start acts,
      t.after.db.UniqueNames ∧ t.after.db.NamesResolve ∧ KeepsChats t := by
  intro hclaim
  have hlast : ⟨run Names.next .start (sharedNameRun.take 1),
      .register "b" "mira" "c2" none none 1, run Names.next .start sharedNameRun⟩ ∈
      trace Names.next .start sharedNameRun := List.mem_of_getElem? (i := 1) rfl
  have hunique := (hclaim sharedNameRun _ hlast).1
  have hsame := hunique ⟨"a", "mira", "c1", none, 0, 0, .alive, none, none, none⟩ (by decide)
    ⟨"b", "mira", "c2", none, 1, 1, .alive, none, none, none⟩ (by decide) rfl rfl rfl
  exact absurd hsame (by decide)

end Claudebase.Registry
