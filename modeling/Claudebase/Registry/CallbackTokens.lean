import Claudebase.Base.Minted
import Claudebase.Registry.Identity

/-!
# Callback tokens

`src/daemon/callback.rs:82–191,352–401`, `src/daemon/server.rs:1548–1594,1851–1906`. Each nick has at
most one token, and a file of its name holds it. A registration mints one where there is none, a
rename takes the token along, and a rotation replaces it.
-/

namespace Claudebase.Registry
open Claudebase.Base

/-- A row of `callback_tokens`. -/
structure TokenRow where
  nick : String
  token : String
  label : Option String
  createdAt : Int
  deriving DecidableEq, Repr

/-- The registry, the tokens and the files in `callback-tokens`. -/
structure Callbacks where
  db : Db
  tokens : Table TokenRow.nick
  files : String → Option String

/-- A nick that is no file name. -/
def PathUnsafe (nick : String) : Prop :=
  nick = "" ∨ '/' ∈ nick.toList ∨ '\\' ∈ nick.toList ∨ ['.', '.'] <:+: nick.toList

instance (nick : String) : Decidable (PathUnsafe nick) :=
  inferInstanceAs (Decidable (_ ∨ _ ∨ _ ∨ _))

/-- `tokens_match`. -/
def tokensMatch (a b : String) : Bool :=
  let a := utf8 a
  let b := utf8 b
  a.length == b.length && ((a.zip b).foldl (fun diff p ↦ diff ||| (p.1 ^^^ p.2)) 0 == 0)

namespace Callbacks

/-- No session has registered. -/
def empty : Callbacks := ⟨.empty, .empty, fun _ ↦ none⟩

/-- `token_for`. -/
def tokenFor (s : Callbacks) (nick : String) : Option String :=
  (s.tokens.get? nick).map TokenRow.token

/-- `write_token_file`. -/
def writeTokenFile (files : String → Option String) (nick token : String) :
    String → Option String :=
  if PathUnsafe nick then files else Function.update files nick (some token)

/-- `ensure_token`. -/
def ensureToken (s : Callbacks) (nick minted : String) (now : Int) : Callbacks :=
  match s.tokenFor nick with
  | some _ => s
  | none =>
    let tokens := s.tokens.insertOrIgnore ⟨nick, minted, none, now⟩
    let stored := ((tokens.get? nick).map TokenRow.token).getD minted
    { s with tokens, files := writeTokenFile s.files nick stored }

theorem nick_rotated (minted : String) (now : Int) (r : TokenRow) :
    { r with token := minted, createdAt := now : TokenRow }.nick = r.nick := rfl

/-- `rotate`. -/
def rotate (s : Callbacks) (nick minted : String) (now : Int) : Callbacks :=
  let tokens :=
    match s.tokens.get? nick with
    | some _ => s.tokens.updateKey nick (fun r ↦ { r with token := minted, createdAt := now })
        (nick_rotated minted now)
    | none => s.tokens.insertOrIgnore ⟨nick, minted, none, now⟩
  { s with tokens, files := writeTokenFile s.files nick minted }

/-- `callback::rename`: the token of the new nick is replaced. The old nick is the name of a session,
so its path is a file in the directory. -/
def moveToken (s : Callbacks) (oldNick newNick : String) : Callbacks :=
  match s.tokens.get? oldNick with
  | none => s
  | some r =>
    let tokens := (s.tokens.deleteKey oldNick).insertOrReplace { r with nick := newNick }
    let files :=
      match tokens.get? newNick with
      | some moved => writeTokenFile s.files newNick moved.token
      | none => s.files
    { s with tokens, files := Function.update files oldNick none }

/-- The token of a session that is renamed goes along, and is replaced by a new one if that is
asked for. -/
def carryToken (s : Callbacks) (oldNick newNick : String) (newToken : Option String) (now : Int) :
    Callbacks :=
  let s := s.moveToken oldNick newNick
  match newToken with
  | some minted => s.rotate newNick minted now
  | none => s

/-- `rename_in_place`, as far as names, tokens and bindings go. -/
def renameInPlace (s : Callbacks) (agentId newName : String) (newToken : Option String)
    (now : Int) : Callbacks :=
  match s.db.nameOf? agentId, s.db.rename agentId newName with
  | some old, .ok db =>
    if old = newName then { s with db }
    else
      { s.carryToken old newName newToken now with db := db.migrateBindings old newName }
  | _, _ => s

/-- The checks of `dispatch`: the target is resolved, and the token is that of its nick. -/
def authorise (s : Callbacks) (target token : String) : Except String String := do
  let agentId ← s.db.resolveTarget target
  let nick ← okOr (s.db.nameOf? agentId) "Query returned no rows"
  let expected ← okOr (s.tokenFor nick) s!"no callback token issued for `{nick}`"
  require (tokensMatch expected token = true) "unauthorized"
  return agentId

end Callbacks

/-- What happens: a registration, a rename by a live session, with or without a new token, a
rotation, or another call to the registry. -/
inductive TokenAct where
  | register (agentId agentName connectionId : String) (chatThreadId metadata : Option String)
      (now : Int) (minted : String)
  | rename (agentId newName : String) (newToken : Option String) (now : Int)
  | rotate (nick minted : String) (now : Int)
  | call (op : Op) (hop : op.isSingle = true)

/-- The tokens that are minted for it, if they are needed. -/
def TokenAct.minted : TokenAct → List String
  | register _ _ _ _ _ _ minted | rotate _ minted _ => [minted]
  | rename _ _ newToken _ => newToken.toList
  | call _ _ => []

/-- What it leaves. -/
def Callbacks.next (s : Callbacks) : TokenAct → Callbacks
  | .register agentId agentName connectionId chatThreadId metadata now minted =>
    match s.db.register agentId agentName connectionId chatThreadId metadata now with
    | .ok (outcome, db) => { s with db }.ensureToken outcome.effectiveName minted now
    | .error _ => s
  | .rename agentId newName newToken now =>
    -- `resolve_session_token` asks for a live session
    if s.db.aliveOf agentId then s.renameInPlace agentId newName newToken now else s
  | .rotate nick minted now => s.rotate nick minted now
  | .call op _ => { s with db := Registry.next s.db op }

/-! ### Comparing tokens -/

theorem foldl_or_eq_zero_iff (ps : List (UInt8 × UInt8)) (diff : UInt8) :
    ps.foldl (fun diff p ↦ diff ||| (p.1 ^^^ p.2)) diff = 0 ↔
      diff = 0 ∧ ∀ p ∈ ps, p.1 = p.2 := by
  induction ps generalizing diff with
  | nil => simp
  | cons p ps ih =>
    rw [List.foldl_cons, ih, UInt8.or_eq_zero_iff, UInt8.xor_eq_zero_iff, List.forall_mem_cons,
      and_assoc]

/-- Tokens match when they are the same. -/
theorem tokensMatch_iff {a b : String} : tokensMatch a b = true ↔ a = b := by
  unfold tokensMatch
  simp only [Bool.and_eq_true, beq_iff_eq, foldl_or_eq_zero_iff, true_and]
  constructor
  · rintro ⟨hlength, hsame⟩
    refine utf8_inj (List.ext_getElem hlength fun i hi hi' ↦ ?_)
    have hzip : i < ((utf8 a).zip (utf8 b)).length := by
      rw [List.length_zip]
      omega
    have hpair := hsame _ (List.getElem_mem hzip)
    rw [List.getElem_zip] at hpair
    exact hpair
  · rintro rfl
    refine ⟨rfl, fun p hp ↦ ?_⟩
    obtain ⟨i, hi, rfl⟩ := List.getElem_of_mem hp
    rw [List.getElem_zip]

/-! ### The token and the file of a nick -/

namespace Callbacks

variable {s : Callbacks} {nick minted : String} {now : Int}

/-- Every token is a row's, and a row's token is its nick's. -/
theorem tokenFor_eq_some_iff {token : String} :
    s.tokenFor nick = some token ↔ ∃ r ∈ s.tokens.rows, r.nick = nick ∧ r.token = token := by
  unfold tokenFor
  rw [Option.map_eq_some_iff]
  simp only [Table.get?_eq_some_iff, and_assoc]

/-- A token is put under a nick. -/
theorem tokenFor_insertOrIgnore {db : Db} {files : String → Option String} {r : TokenRow}
    (h : s.tokenFor r.nick = none) :
    (Callbacks.mk db (s.tokens.insertOrIgnore r) files).tokenFor =
      Function.update s.tokenFor r.nick (some r.token) := by
  have hget : s.tokens.get? r.nick = none := Option.map_eq_none_iff.mp h
  funext nick
  by_cases hnick : nick = r.nick
  · rw [hnick, Function.update_self, tokenFor, Table.get?_insertOrIgnore_self hget]
    rfl
  · rw [Function.update_of_ne hnick, tokenFor, Table.get?_insertOrIgnore_of_ne hnick]
    rfl

theorem tokenFor_ensureToken : (s.ensureToken nick minted now).tokenFor =
    Function.update s.tokenFor nick (some ((s.tokenFor nick).getD minted)) := by
  unfold ensureToken
  cases h : s.tokenFor nick with
  | some token =>
    dsimp only
    rw [Option.getD_some, ← h, Function.update_eq_self]
  | none => exact tokenFor_insertOrIgnore h

theorem tokenFor_rotate : (s.rotate nick minted now).tokenFor =
    Function.update s.tokenFor nick (some minted) := by
  unfold rotate
  cases h : s.tokens.get? nick with
  | none =>
    have hnone : s.tokenFor nick = none := by rw [tokenFor, h]; rfl
    exact tokenFor_insertOrIgnore hnone
  | some r =>
    funext nick'
    dsimp only
    by_cases hnick : nick' = nick
    · rw [hnick, Function.update_self, tokenFor, Table.get?_updateKey_self, h]
      rfl
    · rw [Function.update_of_ne hnick, tokenFor, Table.get?_updateKey_of_ne _ hnick]
      rfl

theorem tokenFor_moveToken {oldNick newNick token : String}
    (h : s.tokenFor oldNick = some token) : (s.moveToken oldNick newNick).tokenFor =
      Function.update (Function.update s.tokenFor oldNick none) newNick (some token) := by
  obtain ⟨r, hr, rfl⟩ := Option.map_eq_some_iff.mp h
  unfold moveToken
  rw [hr]
  funext nick
  dsimp only
  by_cases hnew : nick = newNick
  · rw [hnew, Function.update_self]
    exact congrArg (Option.map TokenRow.token) Table.get?_insertOrReplace_self
  · rw [Function.update_of_ne hnew, tokenFor, Table.get?_insertOrReplace_of_ne hnew]
    by_cases hold : nick = oldNick
    · rw [hold, Function.update_self, Table.get?_deleteKey_self]
      rfl
    · rw [Function.update_of_ne hold, Table.get?_deleteKey_of_ne hold]
      rfl

theorem moveToken_of_none {oldNick newNick : String} (h : s.tokenFor oldNick = none) :
    s.moveToken oldNick newNick = s := by
  unfold moveToken
  rw [Option.map_eq_none_iff.mp h]

/-! ### Files -/

/-- The file of a nick holds its token, and there is none where there is no token or the nick is no
file name. -/
def Mirrored (s : Callbacks) : Prop :=
  ∀ nick, s.files nick = if PathUnsafe nick then none else s.tokenFor nick

theorem mirrored_write {files files' : String → Option String} {tokens : String → Option String}
    {token : String} (h : ∀ nick, files nick = if PathUnsafe nick then none else tokens nick)
    (hfiles : files' = writeTokenFile files nick token) (nick' : String) :
    files' nick' = if PathUnsafe nick' then none else
      Function.update tokens nick (some token) nick' := by
  rw [hfiles, writeTokenFile]
  by_cases hnick : nick' = nick
  · subst hnick
    rw [Function.update_self]
    split
    · next hunsafe => rw [h, if_pos hunsafe]
    · rw [Function.update_self]
  · rw [Function.update_of_ne hnick]
    split
    · exact h nick'
    · rw [Function.update_of_ne hnick]
      exact h nick'

theorem files_ensureToken (h : s.tokenFor nick = none) :
    (s.ensureToken nick minted now).files = writeTokenFile s.files nick minted := by
  have hget : s.tokens.get? (TokenRow.nick ⟨nick, minted, none, now⟩) = none :=
    Option.map_eq_none_iff.mp h
  have hstored : (s.tokens.insertOrIgnore ⟨nick, minted, none, now⟩).get? nick =
      some ⟨nick, minted, none, now⟩ :=
    Table.get?_insertOrIgnore_self hget
  unfold ensureToken
  rw [h]
  dsimp only
  rw [hstored]
  rfl

theorem files_moveToken {oldNick newNick token : String} (h : s.tokenFor oldNick = some token) :
    (s.moveToken oldNick newNick).files =
      Function.update (writeTokenFile s.files newNick token) oldNick none := by
  obtain ⟨r, hr, rfl⟩ := Option.map_eq_some_iff.mp h
  have hmoved : ((s.tokens.deleteKey oldNick).insertOrReplace { r with nick := newNick }).get?
      newNick = some { r with nick := newNick } :=
    Table.get?_insertOrReplace_self
  unfold moveToken
  rw [hr]
  dsimp only
  rw [hmoved]

theorem Mirrored.ensureToken (h : s.Mirrored) (nick minted : String) (now : Int) :
    (s.ensureToken nick minted now).Mirrored := by
  cases htoken : s.tokenFor nick with
  | some token =>
    have hstay : s.ensureToken nick minted now = s := by
      unfold Callbacks.ensureToken
      rw [htoken]
    rw [hstay]
    exact h
  | none =>
    unfold Mirrored
    rw [tokenFor_ensureToken, htoken, Option.getD_none]
    exact mirrored_write h (files_ensureToken htoken)

theorem Mirrored.rotate (h : s.Mirrored) (nick minted : String) (now : Int) :
    (s.rotate nick minted now).Mirrored := by
  unfold Mirrored
  rw [tokenFor_rotate]
  exact mirrored_write h rfl

theorem Mirrored.moveToken (h : s.Mirrored) {oldNick newNick : String} (hne : oldNick ≠ newNick) :
    (s.moveToken oldNick newNick).Mirrored := by
  cases htoken : s.tokenFor oldNick with
  | none =>
    rw [moveToken_of_none htoken]
    exact h
  | some token =>
    intro nick
    rw [files_moveToken htoken, tokenFor_moveToken htoken, Function.update_comm hne]
    by_cases hold : nick = oldNick
    · rw [hold, Function.update_self, Function.update_self, ite_self]
    · rw [Function.update_of_ne hold, Function.update_of_ne hold]
      exact mirrored_write h rfl nick

end Callbacks

/-! ### One step -/

namespace Callbacks

variable {s : Callbacks}

/-- A rename does nothing, or writes a name and carries the token along. -/
theorem renameInPlace_cases (s : Callbacks) (agentId newName : String) (newToken : Option String)
    (now : Int) : s.renameInPlace agentId newName newToken now = s ∨
      ∃ old db, s.db.nameOf? agentId = some old ∧ s.db.rename agentId newName = .ok db ∧
        (old = newName ∧ s.renameInPlace agentId newName newToken now = { s with db } ∨
          old ≠ newName ∧ s.renameInPlace agentId newName newToken now =
            { s.carryToken old newName newToken now with
              db := db.migrateBindings old newName }) := by
  unfold renameInPlace
  cases hold : s.db.nameOf? agentId with
  | none => exact .inl rfl
  | some old =>
    cases hok : s.db.rename agentId newName with
    | error e => exact .inl rfl
    | ok db =>
      refine .inr ⟨old, db, rfl, rfl, ?_⟩
      dsimp only
      split
      · next h => exact .inl ⟨h, rfl⟩
      · next h => exact .inr ⟨h, rfl⟩

/-- The token that goes along. -/
theorem minted_moveToken {tokens : List String} (h : Minted tokens s.tokenFor)
    (oldNick newNick : String) : Minted tokens (s.moveToken oldNick newNick).tokenFor ∧
      Succeeds [] s.tokenFor (s.moveToken oldNick newNick).tokenFor := by
  cases htoken : s.tokenFor oldNick with
  | none =>
    rw [moveToken_of_none htoken]
    exact ⟨h, succeeds_refl⟩
  | some token =>
    rw [tokenFor_moveToken htoken]
    exact ⟨h.move htoken, succeeds_move htoken⟩

theorem minted_carryToken {tokens : List String} (h : Minted tokens s.tokenFor)
    {newToken : Option String} (hnew : ∀ token ∈ newToken, token ∉ tokens)
    (oldNick newNick : String) (now : Int) :
    Minted (tokens ++ newToken.toList) (s.carryToken oldNick newNick newToken now).tokenFor ∧
      Succeeds newToken.toList s.tokenFor
        (s.carryToken oldNick newNick newToken now).tokenFor := by
  obtain ⟨hminted, hsucceeds⟩ := minted_moveToken h oldNick newNick
  unfold carryToken
  cases newToken with
  | none =>
    rw [Option.toList_none, List.append_nil]
    exact ⟨hminted, hsucceeds⟩
  | some minted =>
    dsimp only
    rw [tokenFor_rotate]
    exact ⟨hminted.put (hnew minted rfl), hsucceeds.trans succeeds_put⟩

theorem minted_ensureToken {tokens : List String} (h : Minted tokens s.tokenFor) {minted : String}
    (hnew : minted ∉ tokens) (nick : String) (now : Int) :
    Minted (tokens ++ [minted]) (s.ensureToken nick minted now).tokenFor ∧
      Succeeds [minted] s.tokenFor (s.ensureToken nick minted now).tokenFor := by
  rw [tokenFor_ensureToken]
  cases htoken : s.tokenFor nick with
  | none =>
    rw [Option.getD_none]
    exact ⟨h.put hnew, succeeds_put⟩
  | some token =>
    rw [Option.getD_some, ← htoken, Function.update_eq_self]
    exact ⟨h.mono (List.subset_append_left _ _), succeeds_refl⟩

/-- What a step leaves of the tokens. -/
theorem minted_next {tokens : List String} (h : Minted tokens s.tokenFor) {act : TokenAct}
    (hnew : ∀ token ∈ act.minted, token ∉ tokens) :
    Minted (tokens ++ act.minted) (s.next act).tokenFor ∧
      Succeeds act.minted s.tokenFor (s.next act).tokenFor := by
  have hstay : Minted (tokens ++ act.minted) s.tokenFor ∧
      Succeeds act.minted s.tokenFor s.tokenFor :=
    ⟨h.mono (List.subset_append_left _ _), succeeds_refl⟩
  cases act with
  | register agentId agentName connectionId chatThreadId metadata now minted =>
    have hfresh := hnew minted (List.mem_singleton.mpr rfl)
    unfold next
    dsimp only
    split
    · next outcome db _ =>
      have hdb : Minted tokens ({ s with db } : Callbacks).tokenFor := h
      exact minted_ensureToken hdb hfresh _ now
    · exact hstay
  | rename agentId newName newToken now =>
    unfold next
    dsimp only
    split
    · rcases s.renameInPlace_cases agentId newName newToken now with
        heq | ⟨old, db, -, -, ⟨-, heq⟩ | ⟨-, heq⟩⟩
      · rw [heq]
        exact hstay
      · rw [heq]
        exact hstay
      · rw [heq]
        exact minted_carryToken h (fun token htoken ↦ hnew token (Option.mem_toList.mpr htoken))
          old newName now
    · exact hstay
  | rotate nick minted now =>
    have hfresh := hnew minted (List.mem_singleton.mpr rfl)
    unfold next
    dsimp only
    rw [tokenFor_rotate]
    exact ⟨h.put hfresh, succeeds_put⟩
  | call op hop => exact hstay

/-- The files follow the tokens. -/
theorem Mirrored.next (h : s.Mirrored) (act : TokenAct) : (s.next act).Mirrored := by
  cases act with
  | register agentId agentName connectionId chatThreadId metadata now minted =>
    unfold Callbacks.next
    dsimp only
    split
    · next outcome db _ =>
      have hdb : ({ s with db } : Callbacks).Mirrored := h
      exact hdb.ensureToken _ minted now
    · exact h
  | rename agentId newName newToken now =>
    unfold Callbacks.next
    dsimp only
    split
    · rcases s.renameInPlace_cases agentId newName newToken now with
        heq | ⟨old, db, -, -, ⟨-, heq⟩ | ⟨hne, heq⟩⟩
      · rw [heq]
        exact h
      · rw [heq]
        exact h
      · rw [heq]
        have hmoved := h.moveToken hne
        have hcarried : (s.carryToken old newName newToken now).Mirrored := by
          unfold carryToken
          cases newToken with
          | none => exact hmoved
          | some minted => exact hmoved.rotate newName minted now
        exact hcarried
    · exact h
  | rotate nick minted now => exact h.rotate nick minted now
  | call op hop => exact h

end Callbacks

end Claudebase.Registry
