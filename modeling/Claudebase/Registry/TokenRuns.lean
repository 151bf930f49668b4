import Claudebase.Registry.CallbackTokens

/-!
# Tokens along a run

In a run of registrations, renames, rotations and other calls every live session has a token, a
token goes with its session, and one that was rotated or replaced opens nothing any more.
-/

namespace Claudebase.Registry
open Claudebase.Base

namespace Callbacks

variable {s : Callbacks}

/-! ### Live sessions have tokens -/

/-- Every live session's nick has a token. -/
def Held (s : Callbacks) : Prop :=
  ∀ r ∈ s.db.agentRegistry.rows, r.isAlive = true → s.tokenFor r.agentName ≠ none

/-- A step that leaves live sessions their nicks and nicks their tokens. -/
theorem Held.of_keeps (h : s.Held) {s' : Callbacks} (hdb : Db.Keeps s.db s'.db)
    (htokens : ∀ nick, s.tokenFor nick ≠ none → s'.tokenFor nick ≠ none) : s'.Held := by
  intro r hr halive
  obtain ⟨x, hx, hxalive, -, hname⟩ := hdb r hr halive
  rw [← hname]
  exact htokens _ (h x hx hxalive)

theorem tokenFor_update_ne_none {f : String → Option String} {nick token : String} {n : String}
    (h : f n ≠ none) : Function.update f nick (some token) n ≠ none := by
  by_cases hn : n = nick
  · rw [hn, Function.update_self]
    exact Option.some_ne_none token
  · rw [Function.update_of_ne hn]
    exact h

/-- A step that gives a session a nick with a token, and leaves the others their tokens. -/
theorem Held.of_gives (h : s.Held) {s' : Callbacks} {agentId name : String}
    {buried : AgentRow → Bool} (hgives : Db.Gives s.db s'.db agentId name buried)
    (hname : s'.tokenFor name ≠ none)
    (htokens : ∀ r ∈ s.db.agentRegistry.rows, r.isAlive = true → r.agentId ≠ agentId →
      s.tokenFor r.agentName ≠ none → s'.tokenFor r.agentName ≠ none) : s'.Held := by
  intro r hr halive
  by_cases hid : r.agentId = agentId
  · obtain ⟨x, hx, -, hxid, hxname⟩ := hgives.self
    rw [s'.db.agentRegistry.eq_of_key_eq hr hx (hid.trans hxid.symm), hxname]
    exact hname
  · obtain ⟨hold, -⟩ := (hgives.other r hid halive).mp hr
    exact htokens r hold halive hid (h r hold halive)

theorem write_of_rename {db db' : Db} {agentId newName : String}
    (h : db.rename agentId newName = .ok db') :
    db.write (db.renamed agentId newName) = .ok db' := by
  unfold Db.rename at h
  obtain ⟨-, -, h⟩ := bind_eq_ok.mp h
  obtain ⟨-, -, h⟩ := bind_eq_ok.mp h
  split at h
  · cases h
  · next db₁ hwrite =>
    cases h
    exact hwrite

/-- The row of a live session. -/
theorem exists_of_nameOf? {db : Db} {agentId old : String} (halive : db.aliveOf agentId = true)
    (hold : db.nameOf? agentId = some old) :
    ∃ r ∈ db.agentRegistry.rows, r.isAlive = true ∧ r.agentId = agentId ∧ r.agentName = old := by
  obtain ⟨x, hx, hid, hxalive⟩ := Db.aliveOf_iff.mp halive
  refine ⟨x, hx, hxalive, hid, ?_⟩
  unfold Db.nameOf? at hold
  rw [Table.get?_eq_some_iff.mpr ⟨hx, hid⟩] at hold
  exact Option.some.inj hold

/-- What a rename leaves of the tokens, where the old nick has one. -/
theorem tokenFor_carryToken {old newName token : String} (h : s.tokenFor old = some token)
    (newToken : Option String) (now : Int) :
    (s.carryToken old newName newToken now).tokenFor =
      Function.update (Function.update s.tokenFor old none) newName
        (some (newToken.getD token)) := by
  unfold carryToken
  cases newToken with
  | none => exact tokenFor_moveToken h
  | some minted =>
    dsimp only
    rw [tokenFor_rotate, tokenFor_moveToken h, Function.update_idem, Option.getD_some]

/-- A live session that is renamed takes its token along; the nick it leaves was its own. -/
theorem Held.carryToken (h : s.Held) (hunique : s.db.UniqueNames) {agentId old newName : String}
    {db : Db} (halive : s.db.aliveOf agentId = true) (hold : s.db.nameOf? agentId = some old)
    (hok : s.db.rename agentId newName = .ok db) (newToken : Option String) (now : Int) :
    ({ s.carryToken old newName newToken now with db := db.migrateBindings old newName } :
      Callbacks).Held := by
  obtain ⟨x, hx, hxalive, hid, hxname⟩ := exists_of_nameOf? halive hold
  obtain ⟨token, htoken⟩ := Option.ne_none_iff_exists'.mp (h x hx hxalive)
  rw [hxname] at htoken
  have hcarried : (s.carryToken old newName newToken now).tokenFor =
      Function.update (Function.update s.tokenFor old none) newName
        (some (newToken.getD token)) :=
    tokenFor_carryToken htoken newToken now
  have hgives := Db.gives_renamed (write_of_rename hok) halive
  -- the bindings are moved, the rows stay
  have hmigrated : Db.Gives s.db (db.migrateBindings old newName) agentId newName
      fun _ ↦ false :=
    ⟨hgives.self, hgives.other⟩
  refine h.of_gives hmigrated ?_ ?_
  · show (s.carryToken old newName newToken now).tokenFor newName ≠ none
    rw [hcarried, Function.update_self]
    exact Option.some_ne_none _
  · intro r hr hralive hrid hrtoken
    show (s.carryToken old newName newToken now).tokenFor r.agentName ≠ none
    have hne : r.agentName ≠ old := by
      intro heq
      have hsame := hunique r hr x hx hralive hxalive (heq.trans hxname.symm)
      exact hrid (hsame ▸ hid)
    rw [hcarried]
    apply tokenFor_update_ne_none
    rw [Function.update_of_ne hne]
    exact hrtoken

theorem db_ensureToken (s : Callbacks) (nick minted : String) (now : Int) :
    (s.ensureToken nick minted now).db = s.db := by
  unfold ensureToken
  cases s.tokenFor nick with
  | none => rfl
  | some token => rfl

/-- A registration leaves every nick its token and gives one to the nick it writes. -/
theorem Held.register (h : s.Held) {agentId agentName connectionId : String}
    {chatThreadId metadata : Option String} {now : Int} {outcome : RegisterOutcome} {db : Db}
    (hok : s.db.register agentId agentName connectionId chatThreadId metadata now =
      .ok (outcome, db)) (minted : String) :
    ({ s with db }.ensureToken outcome.effectiveName minted now).Held := by
  obtain ⟨-, hwrite, -⟩ := Db.register_eq_ok.mp hok
  have hgives : Db.Gives s.db ({ s with db }.ensureToken outcome.effectiveName minted now).db
      agentId outcome.effectiveName (Db.sweeps agentId connectionId chatThreadId) := by
    rw [db_ensureToken, Db.effectiveName_of_register hok]
    exact Db.gives_registered hwrite
  refine h.of_gives hgives ?_ ?_
  · rw [tokenFor_ensureToken, Function.update_self]
    exact Option.some_ne_none _
  · intro r _ _ _ hr
    rw [tokenFor_ensureToken]
    exact tokenFor_update_ne_none hr

/-- One step, from a state in which no two live sessions have one nick. -/
theorem Held.next (h : s.Held) (hunique : s.db.UniqueNames) (act : TokenAct) :
    (s.next act).Held := by
  cases act with
  | register agentId agentName connectionId chatThreadId metadata now minted =>
    unfold Callbacks.next
    dsimp only
    split
    · next outcome db hok => exact h.register hok minted
    · exact h
  | rename agentId newName newToken now =>
    unfold Callbacks.next
    dsimp only
    split
    · next halive =>
      rcases s.renameInPlace_cases agentId newName newToken now with
        heq | ⟨old, db, hold, hok, ⟨hsame, heq⟩ | ⟨hne, heq⟩⟩
      · rw [heq]
        exact h
      · rw [heq]
        obtain ⟨x, hx, hxalive, -, hxname⟩ := exists_of_nameOf? halive hold
        have htoken := h x hx hxalive
        rw [hxname, hsame] at htoken
        exact h.of_gives (Db.gives_renamed (write_of_rename hok) halive) htoken
          fun _ _ _ _ hr ↦ hr
      · rw [heq]
        exact h.carryToken hunique halive hold hok newToken now
    · exact h
  | rotate nick minted now =>
    refine h.of_keeps (Db.keeps_of_eq rfl) fun n hn ↦ ?_
    unfold Callbacks.next
    rw [tokenFor_rotate]
    exact tokenFor_update_ne_none hn
  | call op hop => exact h.of_keeps (Db.keeps_next hop) fun _ hn ↦ hn

/-! ### Tokens that are gone -/

/-- The step rotates the token, or replaces it in a rename: the token of the new nick gives way, and
that of the session does where a new one is asked for. -/
def Replaces (s : Callbacks) (token : String) : TokenAct → Prop
  | .rotate nick _ _ => s.tokenFor nick = some token
  | .rename agentId newName newToken _ =>
    s.db.aliveOf agentId = true ∧ ∃ old db, s.db.nameOf? agentId = some old ∧ old ≠ newName ∧
      s.db.rename agentId newName = .ok db ∧
      (s.tokenFor newName = some token ∨
        newToken.isSome = true ∧ s.tokenFor old = some token)
  | _ => False

/-- A live session takes another name. -/
theorem next_rename {agentId old newName : String} {db : Db}
    (halive : s.db.aliveOf agentId = true) (hold : s.db.nameOf? agentId = some old)
    (hne : old ≠ newName) (hok : s.db.rename agentId newName = .ok db)
    (newToken : Option String) (now : Int) :
    s.next (.rename agentId newName newToken now) =
      { s.carryToken old newName newToken now with db := db.migrateBindings old newName } := by
  unfold next renameInPlace
  dsimp only
  rw [if_pos halive, hold, hok]
  dsimp only
  rw [if_neg hne]

/-- Its token goes along, or a new one takes its place. -/
theorem tokenFor_next_rename {agentId old newName token : String} {db : Db}
    (halive : s.db.aliveOf agentId = true) (hold : s.db.nameOf? agentId = some old)
    (hne : old ≠ newName) (hok : s.db.rename agentId newName = .ok db)
    (htoken : s.tokenFor old = some token) (newToken : Option String) (now : Int) :
    (s.next (.rename agentId newName newToken now)).tokenFor =
      Function.update (Function.update s.tokenFor old none) newName
        (some (newToken.getD token)) := by
  rw [next_rename halive hold hne hok]
  exact tokenFor_carryToken htoken newToken now

/-- A rename without a new token takes the token of the session from its old nick to its new one. -/
theorem Held.rename (h : s.Held) {agentId old newName : String} {db : Db}
    (halive : s.db.aliveOf agentId = true) (hold : s.db.nameOf? agentId = some old)
    (hne : old ≠ newName) (hok : s.db.rename agentId newName = .ok db) (now : Int) :
    let s' := s.next (.rename agentId newName none now)
    s'.db.nameOf? agentId = some newName ∧ s'.tokenFor newName = s.tokenFor old ∧
      s'.tokenFor old = none := by
  intro s'
  obtain ⟨x, hx, hxalive, -, hxname⟩ := exists_of_nameOf? halive hold
  obtain ⟨token, htoken⟩ := Option.ne_none_iff_exists'.mp (h x hx hxalive)
  rw [hxname] at htoken
  have htokens : s'.tokenFor =
      Function.update (Function.update s.tokenFor old none) newName (some token) :=
    tokenFor_next_rename halive hold hne hok htoken none now
  refine ⟨?_, ?_, ?_⟩
  · obtain ⟨r, hr, -, hid, hname⟩ := (Db.gives_renamed (write_of_rename hok) halive).self
    have hdb : s'.db = db.migrateBindings old newName :=
      congrArg Callbacks.db (next_rename halive hold hne hok none now)
    have hget : (db.migrateBindings old newName).agentRegistry.get? agentId = some r :=
      Table.get?_eq_some_iff.mpr ⟨hr, hid⟩
    unfold Db.nameOf?
    rw [hdb, hget, Option.map_some, hname]
  · rw [htokens, Function.update_self, htoken]
  · rw [htokens, Function.update_of_ne hne, Function.update_self]

theorem Replaces.exists {act : TokenAct} {token : String} (h : s.Replaces token act) :
    ∃ nick, s.tokenFor nick = some token := by
  cases act with
  | register agentId agentName connectionId chatThreadId metadata now minted => exact h.elim
  | call op hop => exact h.elim
  | rotate nick minted now => exact ⟨nick, h⟩
  | rename agentId newName newToken now =>
    obtain ⟨-, old, -, -, -, -, hnew | ⟨-, hold⟩⟩ := h
    · exact ⟨newName, hnew⟩
    · exact ⟨old, hold⟩

/-- Nobody has a token that a step has replaced. -/
theorem gone_next {tokens : List String} (h : Minted tokens s.tokenFor) (hheld : s.Held)
    {act : TokenAct} (hnew : ∀ token ∈ act.minted, token ∉ tokens) {token : String}
    (hreplaces : s.Replaces token act) (nick : String) :
    (s.next act).tokenFor nick ≠ some token := by
  cases act with
  | register agentId agentName connectionId chatThreadId metadata now minted =>
    exact hreplaces.elim
  | call op hop => exact hreplaces.elim
  | rotate nick' minted now =>
    have hne : minted ≠ token := by
      rintro rfl
      exact hnew minted (List.mem_singleton.mpr rfl) (h.known nick' minted hreplaces)
    unfold next
    rw [tokenFor_rotate]
    exact h.gone_put hreplaces hne nick
  | rename agentId newName newToken now =>
    obtain ⟨halive, old, db, hold, hne, hok, hwhich⟩ := hreplaces
    obtain ⟨x, hx, hxalive, -, hxname⟩ := exists_of_nameOf? halive hold
    obtain ⟨own, hown⟩ := Option.ne_none_iff_exists'.mp (hheld x hx hxalive)
    rw [hxname] at hown
    -- the token that is carried is neither of the two that may be replaced
    have hcarried : newToken.getD own ≠ token := by
      rintro rfl
      cases newToken with
      | none =>
        rcases hwhich with hwhich | ⟨hsome, -⟩
        · exact hne (h.apart old newName own hown hwhich)
        · cases hsome
      | some minted =>
        have hfresh := hnew minted (List.mem_singleton.mpr rfl)
        rcases hwhich with hwhich | ⟨-, hwhich⟩
        · exact hfresh (h.known newName minted hwhich)
        · exact hfresh (h.known old minted hwhich)
    have hone : s.tokenFor old = some token ∨ s.tokenFor newName = some token :=
      hwhich.elim .inr fun hwhich ↦ .inl hwhich.2
    rw [tokenFor_next_rename halive hold hne hok hown]
    exact h.gone_move hone hcarried nick

/-! ### Runs -/

theorem minted_empty : Minted [] empty.tokenFor :=
  ⟨fun _ _ _ h _ ↦ absurd h.symm (Option.some_ne_none _),
    fun _ _ h ↦ absurd h.symm (Option.some_ne_none _)⟩

theorem held_empty : empty.Held := fun _ h ↦ absurd h List.not_mem_nil

theorem mirrored_empty : empty.Mirrored := fun _ ↦ (ite_self none).symm

theorem fresh_of_nodup {acts : List TokenAct} {act : TokenAct}
    (h : ((acts ++ [act]).flatMap TokenAct.minted).Nodup) :
    (acts.flatMap TokenAct.minted).Nodup ∧
      ∀ token ∈ act.minted, token ∉ acts.flatMap TokenAct.minted := by
  rw [List.flatMap_append, List.flatMap_singleton] at h
  obtain ⟨hacts, -, hdisjoint⟩ := List.nodup_append.mp h
  exact ⟨hacts, fun token hmem hmem' ↦ hdisjoint token hmem' token hmem rfl⟩

/-- In every run each nick has its own token. -/
theorem minted_run {acts : List TokenAct} (h : (acts.flatMap TokenAct.minted).Nodup) :
    Minted (acts.flatMap TokenAct.minted) (run Callbacks.next .empty acts).tokenFor := by
  induction acts using List.reverseRecOn with
  | nil => exact minted_empty
  | append_singleton acts act ih =>
    obtain ⟨hacts, hfresh⟩ := fresh_of_nodup h
    rw [run_concat, List.flatMap_append, List.flatMap_singleton]
    exact (minted_next (ih hacts) hfresh).1

/-- In every run the live sessions have tokens. -/
theorem held_run {acts : List TokenAct}
    (h : ∀ t ∈ trace Callbacks.next .empty acts, t.before.db.UniqueNames) :
    (run Callbacks.next .empty acts).Held := by
  refine invariant_of_run held_empty fun t ht hheld ↦ ?_
  rw [after_of_mem_trace ht]
  exact hheld.next (h t ht) t.op

/-- In every run the files follow the tokens. -/
theorem mirrored_run (acts : List TokenAct) : (run Callbacks.next .empty acts).Mirrored := by
  refine invariant_of_run mirrored_empty fun t ht hmirrored ↦ ?_
  rw [after_of_mem_trace ht]
  exact hmirrored.next t.op

/-- A token that is gone does not come back. -/
theorem gone_run {first rest : List TokenAct} {token : String}
    (hnodup : ((first ++ rest).flatMap TokenAct.minted).Nodup)
    (hknown : token ∈ first.flatMap TokenAct.minted)
    (hgone : ∀ nick, (run Callbacks.next .empty first).tokenFor nick ≠ some token) (nick : String) :
    (run Callbacks.next .empty (first ++ rest)).tokenFor nick ≠ some token := by
  induction rest using List.reverseRecOn generalizing nick with
  | nil =>
    rw [List.append_nil]
    exact hgone nick
  | append_singleton rest act ih =>
    rw [← List.append_assoc] at hnodup ⊢
    obtain ⟨hbefore, hfresh⟩ := fresh_of_nodup hnodup
    rw [run_concat]
    intro hnick
    rcases (minted_next (minted_run hbefore) hfresh).2 nick token hnick with ⟨nick', hnick'⟩ | hmem
    · exact ih hbefore nick' hnick'
    · refine hfresh token hmem ?_
      rw [List.flatMap_append]
      exact List.mem_append_left _ hknown

/-- A token that was rotated or replaced is nobody's any more. -/
theorem gone_after {first rest : List TokenAct} {act : TokenAct} {token : String}
    (hminted : ((first ++ act :: rest).flatMap TokenAct.minted).Nodup)
    (hunique : ∀ t ∈ trace Callbacks.next .empty (first ++ act :: rest), t.before.db.UniqueNames)
    (hreplaces : (run Callbacks.next .empty first).Replaces token act) (nick : String) :
    (run Callbacks.next .empty (first ++ act :: rest)).tokenFor nick ≠ some token := by
  have hheld : (run Callbacks.next .empty first).Held := by
    rw [trace_append] at hunique
    exact held_run fun t ht ↦ hunique t (List.mem_append_left _ ht)
  rw [List.append_cons] at hminted ⊢
  have hfirst : ((first ++ [act]).flatMap TokenAct.minted).Nodup := by
    rw [List.flatMap_append] at hminted
    exact (List.nodup_append.mp hminted).1
  obtain ⟨hbefore, hfresh⟩ := fresh_of_nodup hfirst
  have hown := minted_run hbefore
  refine gone_run hminted ?_ ?_ nick
  · obtain ⟨nick', hnick'⟩ := hreplaces.exists
    rw [List.flatMap_append]
    exact List.mem_append_left _ (hown.known nick' token hnick')
  · intro nick'
    rw [run_concat]
    exact gone_next hown hheld hfresh hreplaces nick'

/-! ### What a token opens -/

/-- A callback goes to the session of the nick whose token it shows. -/
theorem authorise_eq_ok {target token agentId : String} :
    s.authorise target token = .ok agentId ↔ s.db.resolveTarget target = .ok agentId ∧
      ∃ nick, s.db.nameOf? agentId = some nick ∧ s.tokenFor nick = some token := by
  unfold authorise
  rw [bind_eq_ok]
  constructor
  · rintro ⟨id, hresolved, h⟩
    obtain ⟨nick, hnick, h⟩ := bind_eq_ok.mp h
    obtain ⟨expected, hexpected, h⟩ := bind_eq_ok.mp h
    obtain ⟨_, hmatch, h⟩ := bind_eq_ok.mp h
    cases pure_eq_ok.mp h
    have hsame := tokensMatch_iff.mp (require_eq_ok.mp hmatch)
    exact ⟨hresolved, nick, okOr_eq_ok.mp hnick, hsame ▸ okOr_eq_ok.mp hexpected⟩
  · rintro ⟨hresolved, nick, hnick, htoken⟩
    refine ⟨agentId, hresolved, ?_⟩
    refine bind_eq_ok.mpr ⟨nick, okOr_eq_ok.mpr hnick, ?_⟩
    refine bind_eq_ok.mpr ⟨token, okOr_eq_ok.mpr htoken, ?_⟩
    exact bind_eq_ok.mpr ⟨(), require_of_pos (tokensMatch_iff.mpr rfl), rfl⟩

/-- The nick of a live session has one row. -/
theorem Held.existsUnique (h : s.Held) {r : AgentRow} (hr : r ∈ s.db.agentRegistry.rows)
    (halive : r.isAlive = true) : ∃! x, x ∈ s.tokens.rows ∧ x.nick = r.agentName := by
  obtain ⟨token, htoken⟩ := Option.ne_none_iff_exists'.mp (h r hr halive)
  obtain ⟨x, hx, hnick, -⟩ := tokenFor_eq_some_iff.mp htoken
  refine ⟨x, ⟨hx, hnick⟩, fun y hy ↦ ?_⟩
  exact s.tokens.eq_of_key_eq hy.1 hx (hy.2.trans hnick.symm)

end Callbacks

/-- Tokens follow their sessions: in every run, in which no two live sessions have one nick and no
token is minted twice, a live session's nick has one token, which goes along in a rename; a token
opens the session of its nick only, and once rotated or replaced nothing; and its file holds it,
where the nick is a file name. -/
theorem tokens_follow_sessions (acts : List TokenAct)
    (hminted : (acts.flatMap TokenAct.minted).Nodup)
    (hunique : ∀ t ∈ trace Callbacks.next .empty acts, t.before.db.UniqueNames) :
    let s := run Callbacks.next .empty acts
    (∀ r ∈ s.db.agentRegistry.rows, r.isAlive = true →
      ∃! x, x ∈ s.tokens.rows ∧ x.nick = r.agentName) ∧
    (∀ agentId old newName db now, s.db.aliveOf agentId = true →
      s.db.nameOf? agentId = some old → old ≠ newName → s.db.rename agentId newName = .ok db →
      let s' := s.next (.rename agentId newName none now)
      s'.db.nameOf? agentId = some newName ∧ s'.tokenFor newName = s.tokenFor old ∧
        s'.tokenFor old = none) ∧
    (∀ first act rest token, acts = first ++ act :: rest →
      (run Callbacks.next .empty first).Replaces token act →
      ∀ target agentId, s.authorise target token ≠ .ok agentId) ∧
    (∀ nick token, s.tokenFor nick = some token → ∀ target agentId,
      s.authorise target token = .ok agentId → s.db.nameOf? agentId = some nick) ∧
    ∀ nick, s.files nick = if PathUnsafe nick then none else s.tokenFor nick := by
  intro s
  have hown : Minted (acts.flatMap TokenAct.minted) s.tokenFor := Callbacks.minted_run hminted
  have hheld : s.Held := Callbacks.held_run hunique
  refine ⟨fun r hr halive ↦ hheld.existsUnique hr halive, ?_, ?_, ?_,
    Callbacks.mirrored_run acts⟩
  · intro agentId old newName db now halive hold hne hok
    exact hheld.rename halive hold hne hok now
  · rintro first act rest token rfl hreplaces target agentId hopened
    obtain ⟨-, nick, -, htoken⟩ := Callbacks.authorise_eq_ok.mp hopened
    exact Callbacks.gone_after hminted hunique hreplaces nick htoken
  · intro nick token htoken target agentId hopened
    obtain ⟨-, nick', hnick', htoken'⟩ := Callbacks.authorise_eq_ok.mp hopened
    rw [hown.apart nick nick' token htoken htoken']
    exact hnick'

/-- A session registers, takes another name, and has its token rotated. -/
def tokenRun : List TokenAct :=
  [.register "s1" "mira" "c1" none none 0 "red", .rename "s1" "nora" none 1, .rotate "nora" "blue" 2]

/-- The new token is under the new nick, and the old one opens nothing. -/
theorem tokens_follow_sessions_nora :
    (run Callbacks.next .empty tokenRun).files "nora" = some "blue" ∧
      (run Callbacks.next .empty tokenRun).files "mira" = none ∧
      ∀ target agentId, (run Callbacks.next .empty tokenRun).authorise target "red" ≠
        .ok agentId := by
  have hunique : ∀ t ∈ trace Callbacks.next .empty tokenRun, t.before.db.UniqueNames := by
    unfold Db.UniqueNames
    decide
  have hred : (run Callbacks.next .empty (tokenRun.take 2)).tokenFor "nora" = some "red" := by
    decide
  obtain ⟨-, -, hgone, -, hfiles⟩ := tokens_follow_sessions tokenRun (by decide) hunique
  refine ⟨?_, ?_, ?_⟩
  · rw [hfiles "nora"]
    decide
  · rw [hfiles "mira"]
    decide
  · exact hgone (tokenRun.take 2) (.rotate "nora" "blue" 2) [] "red" rfl hred

/-- A rotation of `a/b` mints a token and writes no file. -/
theorem tokens_follow_sessions_path : ¬ ∀ acts : List TokenAct,
    (acts.flatMap TokenAct.minted).Nodup →
    (∀ t ∈ trace Callbacks.next .empty acts, t.before.db.UniqueNames) →
    ∀ nick, (run Callbacks.next .empty acts).files nick =
      (run Callbacks.next .empty acts).tokenFor nick := by
  intro hclaim
  have hunique : ∀ t ∈ trace Callbacks.next .empty [.rotate "a/b" "red" 0],
      t.before.db.UniqueNames := by
    unfold Db.UniqueNames
    decide
  have hsame := hclaim [.rotate "a/b" "red" 0] (by decide) hunique "a/b"
  have hno : (run Callbacks.next .empty [.rotate "a/b" "red" 0]).files "a/b" = none := by decide
  have htoken : (run Callbacks.next .empty [.rotate "a/b" "red" 0]).tokenFor "a/b" =
      some "red" := by decide
  rw [hno, htoken] at hsame
  cases hsame

end Claudebase.Registry
