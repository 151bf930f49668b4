import Claudebase.Base.Run
import Claudebase.Base.Table
import Claudebase.Base.Text
import Mathlib.Data.Set.Function
import Mathlib.Data.String.Basic

/-!
# Client tokens

`src/daemon/remote.rs:145–275`. A machine that joins, a gateway of a pool and a program that uses
the public interface each have a token under a name of theirs. A table of each kind holds the
hashes. A token is issued once, replaces the earlier one of its name, and is revoked by name.
-/

namespace Claudebase.Remote
open Claudebase.Base

/-- `TokenKind`. -/
inductive TokenKind where
  | remote
  | pool
  | api
  deriving DecidableEq, Repr

/-- `TokenKind::prefix`. -/
def TokenKind.tokenPrefix : TokenKind → String
  | remote => "cbr_"
  | pool => "cbp_"
  | api => "cba_"

/-- A row of the table of a kind. -/
structure ClientToken where
  name : String
  sha256 : String
  createdAt : Int
  lastUsedAt : Option Int
  deriving DecidableEq, Repr

/-- The table of a kind: the name is its key, and the hashes are unique. -/
structure TokenTable where
  rows : Table ClientToken.name
  unique : ∀ r ∈ rows.rows, ∀ r' ∈ rows.rows, r.sha256 = r'.sha256 → r.name = r'.name

namespace TokenTable

/-- The table `ensure_tokens_table` makes. -/
def empty : TokenTable := ⟨.empty, by simp⟩

theorem name_renewed (sha256 : String) (now : Int) (r : ClientToken) :
    { r with sha256 := sha256, createdAt := now, lastUsedAt := none : ClientToken }.name = r.name :=
  rfl

/-- The rows after `INSERT … ON CONFLICT(name) DO UPDATE`. -/
def stored (t : Table ClientToken.name) (name sha256 : String) (now : Int) :
    Table ClientToken.name :=
  (t.insertOrIgnore ⟨name, sha256, now, none⟩).updateKey name
    (fun r ↦ { r with sha256 := sha256, createdAt := now, lastUsedAt := none })
    (name_renewed sha256 now)

theorem mem_stored {t : Table ClientToken.name} {name sha256 : String} {now : Int}
    {x : ClientToken} : x ∈ (stored t name sha256 now).rows ↔
      x ∈ t.rows ∧ x.name ≠ name ∨ x = ⟨name, sha256, now, none⟩ := by
  simp only [stored, Table.updateKey, Table.mem_update, Table.mem_insertOrIgnore, decide_eq_true_eq]
  constructor
  · rintro ⟨y, hy, rfl⟩
    by_cases hn : y.name = name
    · right
      simp [hn]
    · left
      rw [if_neg hn]
      exact ⟨hy.elim id fun h ↦ absurd (congrArg ClientToken.name h.1) hn, hn⟩
  · rintro (⟨hx, hn⟩ | rfl)
    · exact ⟨x, Or.inl hx, if_neg hn⟩
    · by_cases hold : name ∈ t.rows.map ClientToken.name
      · obtain ⟨y, hy, rfl⟩ := List.mem_map.mp hold
        exact ⟨y, Or.inl hy, if_pos rfl⟩
      · exact ⟨_, Or.inr ⟨rfl, hold⟩, if_pos rfl⟩

/-- The statement of `issue_token`: it fails where another name has the hash. -/
def put (t : TokenTable) (name sha256 : String) (now : Int) : Except String TokenTable :=
  if h : ∃ r ∈ t.rows.rows, r.sha256 = sha256 ∧ r.name ≠ name then
    .error "UNIQUE constraint failed"
  else .ok {
    rows := stored t.rows name sha256 now
    unique := by
      simp only [not_exists, not_and, not_not] at h
      intro r hr r' hr' he
      rcases mem_stored.mp hr with ⟨hr, hn⟩ | rfl <;> rcases mem_stored.mp hr' with ⟨hr', hn'⟩ | rfl
      · exact t.unique r hr r' hr' he
      · exact absurd (h r hr he) hn
      · exact absurd (h r' hr' he.symm) hn'
      · rfl }

/-- `DELETE … WHERE name = …`. -/
def drop (t : TokenTable) (name : String) : TokenTable where
  rows := t.rows.deleteKey name
  unique r hr r' hr' :=
    t.unique r (Table.mem_delete.mp hr).1 r' (Table.mem_delete.mp hr').1

/-- `SELECT name … WHERE sha256 = …`. -/
def clientOf (t : TokenTable) (sha256 : String) : Option String :=
  (t.rows.rows.find? fun r ↦ r.sha256 == sha256).map ClientToken.name

theorem name_used (now : Int) (r : ClientToken) :
    { r with lastUsedAt := some now : ClientToken }.name = r.name := rfl

/-- `UPDATE … SET last_used_at = … WHERE name = …`. -/
def stamp (t : TokenTable) (name : String) (now : Int) : TokenTable where
  rows := t.rows.updateKey name (fun r ↦ { r with lastUsedAt := some now }) (name_used now)
  unique r hr r' hr' he := by
    obtain ⟨y, hy, rfl⟩ := (Table.mem_update (name_used now)).mp hr
    obtain ⟨y', hy', rfl⟩ := (Table.mem_update (name_used now)).mp hr'
    have hsame := t.unique y hy y' hy'
    split at he <;> split at he <;> simp_all

theorem mem_stamp {t : TokenTable} {name : String} {now : Int} {x : ClientToken} :
    x ∈ (t.stamp name now).rows.rows ↔
      ∃ y ∈ t.rows.rows, (if y.name = name then { y with lastUsedAt := some now } else y) = x := by
  simp [stamp, Table.updateKey]

theorem clientOf_eq_some_iff {t : TokenTable} {sha256 name : String} :
    t.clientOf sha256 = some name ↔ ∃ r ∈ t.rows.rows, r.sha256 = sha256 ∧ r.name = name := by
  unfold clientOf
  constructor
  · intro h
    obtain ⟨r, hr, rfl⟩ := Option.map_eq_some_iff.mp h
    exact ⟨r, List.mem_of_find?_eq_some hr, by simpa using List.find?_some hr, rfl⟩
  · rintro ⟨r, hr, hsha, rfl⟩
    cases hfound : t.rows.rows.find? fun r ↦ r.sha256 == sha256 with
    | none =>
      have hno := List.find?_eq_none.mp hfound r hr
      simp [hsha] at hno
    | some r' =>
      have hsha' : r'.sha256 = sha256 := by simpa using List.find?_some hfound
      have hname := t.unique r' (List.mem_of_find?_eq_some hfound) r hr (hsha'.trans hsha.symm)
      rw [Option.map_some, hname]

end TokenTable

/-- `check_client_name`. -/
def checkClientName (name : String) : Except String Unit :=
  if name = "" ∨ 64 < byteLength name ∨
      name.toList.all (fun c ↦ c.isAlphanum || c == '-' || c == '_') = false then
    .error "a client name is 1-64 characters of [a-zA-Z0-9_-]"
  else .ok ()

/-- The tables of the three kinds. -/
abbrev Tokens := TokenKind → TokenTable

/-- A row of `list_tokens`. -/
structure TokenInfo where
  name : String
  createdAt : Int
  lastUsedAt : Option Int
  deriving DecidableEq, Repr

namespace Tokens

/-- `list_tokens`. -/
def listTokens (s : Tokens) (kind : TokenKind) : List TokenInfo :=
  ((s kind).rows.rows.mergeSort fun r r' ↦ decide (r.name ≤ r'.name)).map fun r ↦
    ⟨r.name, r.createdAt, r.lastUsedAt⟩

/-- `revoke_token`. -/
def revokeToken (s : Tokens) (kind : TokenKind) (name : String) : Bool × Tokens :=
  ((s kind).rows.rows.any fun r ↦ r.name == name,
    Function.update s kind ((s kind).drop name))

section

-- `sha256_hex` of the bytes of a text
variable (sha256Hex : String → String)

/-- `issue_token`: `uuids` are the two that are drawn for it. -/
def issueToken (s : Tokens) (kind : TokenKind) (name uuids : String) (now : Int) :
    Except String (String × Tokens) := do
  checkClientName name
  let token := kind.tokenPrefix ++ uuids
  let t ← (s kind).put name (sha256Hex token) now
  return (token, Function.update s kind t)

/-- `authenticate`. -/
def authenticate (s : Tokens) (kind : TokenKind) (token : String) (now : Int) :
    Option String × Tokens :=
  match (s kind).clientOf (sha256Hex token) with
  | some name => (some name, Function.update s kind ((s kind).stamp name now))
  | none => (none, s)

end

end Tokens

/-- What is done with tokens. -/
inductive TokenOp where
  | issue (kind : TokenKind) (name uuids : String) (now : Int)
  | revoke (kind : TokenKind) (name : String)
  | authenticate (kind : TokenKind) (token : String) (now : Int)
  deriving DecidableEq, Repr

namespace TokenOp

/-- What is drawn for it. -/
def drawn : TokenOp → Option String
  | issue _ _ uuids _ => some uuids
  | _ => none

/-- The token it is about. -/
def token : TokenOp → Option String
  | issue kind _ uuids _ => some (kind.tokenPrefix ++ uuids)
  | revoke _ _ => none
  | authenticate _ token _ => some token

/-- Whether it issues or revokes the token of that name. -/
def replaces (kind : TokenKind) (name : String) : TokenOp → Bool
  | issue k n _ _ | revoke k n => k == kind && n == name
  | authenticate _ _ _ => false

/-- When it uses that token. -/
def usedAt (kind : TokenKind) (token : String) : TokenOp → Option Int
  | authenticate k t now => if k = kind ∧ t = token then some now else none
  | _ => none

end TokenOp

/-- What an operation leaves. -/
def Tokens.next (sha256Hex : String → String) (s : Tokens) : TokenOp → Tokens
  | .issue kind name uuids now =>
    match s.issueToken sha256Hex kind name uuids now with
    | .ok (_, s') => s'
    | .error _ => s
  | .revoke kind name => (s.revokeToken kind name).2
  | .authenticate kind token now => (s.authenticate sha256Hex kind token now).2

/-- The tables after some operations, from none. -/
def Tokens.after (sha256Hex : String → String) (ops : List TokenOp) : Tokens :=
  run (Tokens.next sha256Hex) (fun _ ↦ .empty) ops

/-- A name has a token after some operations: it was issued to it, and since then the name got no
other and it was not revoked. It was last used since then. -/
def Holds (ops : List TokenOp) (kind : TokenKind) (name token : String) (createdAt : Int)
    (lastUsedAt : Option Int) : Prop :=
  ∃ before uuids later, ops = before ++ .issue kind name uuids createdAt :: later ∧
    checkClientName name = .ok () ∧ token = kind.tokenPrefix ++ uuids ∧
    (∀ o ∈ later, o.replaces kind name = false) ∧
    lastUsedAt = (later.filterMap (TokenOp.usedAt kind token)).getLast?

/-- A name has a token after some operations, whenever it was issued and used. -/
def HasToken (ops : List TokenOp) (kind : TokenKind) (name token : String) : Prop :=
  ∃ createdAt lastUsedAt, Holds ops kind name token createdAt lastUsedAt

/-!
## Who holds a token

The tables after any run of issuing, revoking and authenticating hold a row for each name that has
a token, with when it was issued and last used, and a token authenticates that name and nobody else.
-/

/-! ### One more operation -/

section Holds

variable {ops : List TokenOp} {kind : TokenKind} {name token : String} {createdAt : Int}
  {lastUsedAt : Option Int} {o : TokenOp}

/-- Issuing to a name. -/
theorem holds_issue {uuids : String} {now : Int} :
    Holds (ops ++ [.issue kind name uuids now]) kind name token createdAt lastUsedAt ↔
      checkClientName name = .ok () ∧ token = kind.tokenPrefix ++ uuids ∧ createdAt = now ∧
        lastUsedAt = none := by
  constructor
  · rintro ⟨before, drawn, later, heq, hname, htoken, hlater, hused⟩
    rcases concat_eq_append_cons.mp heq with ⟨rfl, -, hop⟩ | ⟨rest, rfl, -⟩
    · injection hop with _ _ hdrawn hnow
      subst hdrawn hnow
      exact ⟨hname, htoken, rfl, by simpa using hused⟩
    · have hno := hlater _ (List.mem_append_right _ (List.mem_singleton_self _))
      simp [TokenOp.replaces] at hno
  · rintro ⟨hname, htoken, rfl, rfl⟩
    exact ⟨ops, uuids, [], rfl, hname, htoken, by simp, rfl⟩

/-- Revoking the token of a name. -/
theorem not_holds_revoke :
    ¬ Holds (ops ++ [.revoke kind name]) kind name token createdAt lastUsedAt := by
  rintro ⟨before, drawn, later, heq, hname, htoken, hlater, hused⟩
  rcases concat_eq_append_cons.mp heq with ⟨-, -, hop⟩ | ⟨rest, rfl, -⟩
  · cases hop
  · have hno := hlater _ (List.mem_append_right _ (List.mem_singleton_self _))
    simp [TokenOp.replaces] at hno

/-- An operation that leaves a name its token may use it. -/
theorem holds_concat (ho : o.replaces kind name = false) :
    Holds (ops ++ [o]) kind name token createdAt lastUsedAt ↔
      ∃ used, Holds ops kind name token createdAt used ∧
        lastUsedAt = (o.usedAt kind token).or used := by
  constructor
  · rintro ⟨before, drawn, later, heq, hname, htoken, hlater, hused⟩
    rcases concat_eq_append_cons.mp heq with ⟨-, -, rfl⟩ | ⟨rest, rfl, rfl⟩
    · simp [TokenOp.replaces] at ho
    · refine ⟨_, ⟨before, drawn, rest, rfl, hname, htoken, ?_, rfl⟩, ?_⟩
      · intro x hx
        exact hlater x (List.mem_append_left _ hx)
      · rw [hused, List.filterMap_append]
        cases hu : o.usedAt kind token <;> simp [hu]
  · rintro ⟨used, ⟨before, drawn, rest, rfl, hname, htoken, hlater, rfl⟩, rfl⟩
    refine ⟨before, drawn, rest ++ [o], by simp, hname, htoken, ?_, ?_⟩
    · intro x hx
      rcases List.mem_append.mp hx with hx | hx
      · exact hlater x hx
      · rw [List.mem_singleton.mp hx]
        exact ho
    · rw [List.filterMap_append]
      cases hu : o.usedAt kind token <;> simp [hu]

/-- An operation that neither gives, takes nor uses a token. -/
theorem holds_concat_of_unused (ho : o.replaces kind name = false)
    (hu : o.usedAt kind token = none) :
    Holds (ops ++ [o]) kind name token createdAt lastUsedAt ↔
      Holds ops kind name token createdAt lastUsedAt := by
  rw [holds_concat ho]
  simp [hu]

/-- Only a client that may have a token has one. -/
theorem Holds.checked (h : Holds ops kind name token createdAt lastUsedAt) :
    checkClientName name = .ok () := by
  obtain ⟨before, uuids, later, -, hname, -⟩ := h
  exact hname

/-- The token of a name was drawn in the run. -/
theorem Holds.drawn (h : Holds ops kind name token createdAt lastUsedAt) :
    ∃ uuids ∈ ops.filterMap TokenOp.drawn, token = kind.tokenPrefix ++ uuids := by
  obtain ⟨before, uuids, later, rfl, -, htoken, -⟩ := h
  exact ⟨uuids, by simp [TokenOp.drawn], htoken⟩

/-- The token of a name is one of the run. -/
theorem Holds.token_mem (h : Holds ops kind name token createdAt lastUsedAt) :
    token ∈ ops.filterMap TokenOp.token := by
  obtain ⟨before, uuids, later, rfl, -, rfl, -⟩ := h
  simp [TokenOp.token]

end Holds

/-! ### The tables after a run -/

section Run

variable {sha256Hex : String → String} {ops : List TokenOp}

/-- What is drawn for a token is drawn once, and the tokens of the run have hashes of their own. -/
structure Fresh (sha256Hex : String → String) (ops : List TokenOp) : Prop where
  drawn : (ops.filterMap TokenOp.drawn).Nodup
  hashes : Set.InjOn sha256Hex {t | t ∈ ops.filterMap TokenOp.token}

theorem Fresh.of_append {later : List TokenOp} (h : Fresh sha256Hex (ops ++ later)) :
    Fresh sha256Hex ops where
  drawn := by
    have hd := h.drawn
    rw [List.filterMap_append] at hd
    exact hd.of_append_left
  hashes := by
    apply h.hashes.mono
    intro t ht
    show t ∈ (ops ++ later).filterMap TokenOp.token
    rw [List.filterMap_append]
    exact List.mem_append_left _ ht

theorem after_concat {o : TokenOp} : Tokens.after sha256Hex (ops ++ [o]) =
    (Tokens.after sha256Hex ops).next sha256Hex o := run_concat

/-- A row for a name that has a token. -/
def HeldRow (sha256Hex : String → String) (ops : List TokenOp) (kind : TokenKind)
    (r : ClientToken) : Prop :=
  ∃ token, r.sha256 = sha256Hex token ∧ Holds ops kind r.name token r.createdAt r.lastUsedAt

/-- The rows of a state are those of the names that have a token. -/
def RowsOf (sha256Hex : String → String) (s : Tokens) (ops : List TokenOp) : Prop :=
  ∀ kind r, r ∈ (s kind).rows.rows ↔ HeldRow sha256Hex ops kind r

variable {s : Tokens}

theorem HeldRow.checked {kind : TokenKind} {r : ClientToken} (h : HeldRow sha256Hex ops kind r) :
    checkClientName r.name = .ok () := by
  obtain ⟨token, -, hholds⟩ := h
  exact hholds.checked

theorem heldRow_concat {kind : TokenKind} {r : ClientToken} {o : TokenOp}
    (ho : o.replaces kind r.name = false) (hu : ∀ token, o.usedAt kind token = none) :
    HeldRow sha256Hex (ops ++ [o]) kind r ↔ HeldRow sha256Hex ops kind r := by
  apply exists_congr
  intro token
  rw [holds_concat_of_unused ho (hu token)]

/-- A token that was issued has the hash of no other of the run. -/
theorem Fresh.eq_of_hash {o : TokenOp} (h : Fresh sha256Hex (ops ++ [o])) {kind : TokenKind}
    {name token token' : String} {createdAt : Int} {lastUsedAt : Option Int}
    (hholds : Holds ops kind name token createdAt lastUsedAt) (ho : o.token = some token')
    (he : sha256Hex token = sha256Hex token') : token = token' := by
  apply h.hashes _ _ he
  · show token ∈ (ops ++ [o]).filterMap TokenOp.token
    rw [List.filterMap_append]
    exact List.mem_append_left _ hholds.token_mem
  · show token' ∈ (ops ++ [o]).filterMap TokenOp.token
    simp [ho]

/-- A token that is issued is stored under its name. -/
theorem RowsOf.put {kind : TokenKind} {name uuids : String} {now : Int}
    (h : RowsOf sha256Hex s ops) (hfresh : Fresh sha256Hex (ops ++ [.issue kind name uuids now])) :
    ∃ t, (s kind).put name (sha256Hex (kind.tokenPrefix ++ uuids)) now = .ok t ∧
      ∀ x, x ∈ t.rows.rows ↔ x ∈ (s kind).rows.rows ∧ x.name ≠ name ∨
        x = ⟨name, sha256Hex (kind.tokenPrefix ++ uuids), now, none⟩ := by
  have hno : ¬ ∃ r ∈ (s kind).rows.rows,
      r.sha256 = sha256Hex (kind.tokenPrefix ++ uuids) ∧ r.name ≠ name := by
    rintro ⟨r, hr, hsha, -⟩
    obtain ⟨token, htoken, hholds⟩ := (h kind r).mp hr
    have hsame : token = kind.tokenPrefix ++ uuids :=
      hfresh.eq_of_hash hholds rfl (htoken.symm.trans hsha)
    obtain ⟨drawn, hdrawn, rfl⟩ := hholds.drawn
    have huuids : drawn = uuids := by simpa [String.ext_iff] using hsame
    have hnodup := hfresh.drawn
    rw [List.filterMap_append, List.nodup_append] at hnodup
    exact hnodup.2.2 drawn hdrawn drawn (by simp [TokenOp.drawn, huuids]) rfl
  exact ⟨_, dif_neg hno, fun x ↦ TokenTable.mem_stored⟩

theorem heldRow_issue {kind : TokenKind} {uuids : String} {now : Int} {r : ClientToken} :
    HeldRow sha256Hex (ops ++ [.issue kind r.name uuids now]) kind r ↔
      checkClientName r.name = .ok () ∧
        r = ⟨r.name, sha256Hex (kind.tokenPrefix ++ uuids), now, none⟩ := by
  unfold HeldRow
  simp only [holds_issue]
  constructor
  · rintro ⟨token, hsha, hname, rfl, hat, hused⟩
    refine ⟨hname, ?_⟩
    rw [← hsha, ← hat, ← hused]
  · rintro ⟨hname, hr⟩
    rw [hr]
    exact ⟨_, rfl, hname, rfl, rfl, rfl⟩

/-- Issuing a token that is new. -/
theorem RowsOf.issue {kind : TokenKind} {name uuids : String} {now : Int}
    (h : RowsOf sha256Hex s ops) (hfresh : Fresh sha256Hex (ops ++ [.issue kind name uuids now])) :
    RowsOf sha256Hex (s.next sha256Hex (.issue kind name uuids now))
      (ops ++ [.issue kind name uuids now]) := by
  intro k r
  have hother (hk : ¬ (kind = k ∧ name = r.name)) :
      HeldRow sha256Hex (ops ++ [.issue kind name uuids now]) k r ↔ r ∈ (s k).rows.rows := by
    rw [heldRow_concat (by simpa [TokenOp.replaces] using hk) fun _ ↦ rfl, h k r]
  cases hname : checkClientName name with
  | error e =>
    have hnext : s.next sha256Hex (.issue kind name uuids now) = s := by
      simp [Tokens.next, Tokens.issueToken, hname, bind, Except.bind]
    rw [hnext]
    by_cases hk : kind = k ∧ name = r.name
    · obtain ⟨rfl, rfl⟩ := hk
      constructor
      · intro hr
        rw [((h kind r).mp hr).checked] at hname
        cases hname
      · intro hr
        rw [hr.checked] at hname
        cases hname
    · exact (hother hk).symm
  | ok u =>
    obtain ⟨t, ht, hmem⟩ := h.put hfresh
    have hnext : s.next sha256Hex (.issue kind name uuids now) = Function.update s kind t := by
      simp [Tokens.next, Tokens.issueToken, hname, ht, bind, Except.bind, pure, Except.pure]
    rw [hnext]
    by_cases hkind : kind = k
    · subst hkind
      rw [Function.update_self, hmem]
      by_cases hr : name = r.name
      · subst hr
        rw [heldRow_issue]
        simp [hname]
      · rw [hother (by simp [hr])]
        have hne : r ≠ ⟨name, sha256Hex (kind.tokenPrefix ++ uuids), now, none⟩ :=
          fun he ↦ hr (congrArg ClientToken.name he).symm
        simp [hne, Ne.symm hr]
    · rw [Function.update_of_ne (Ne.symm hkind), hother (by simp [hkind])]

/-- Revoking the token of a name. -/
theorem RowsOf.revoke {kind : TokenKind} {name : String} (h : RowsOf sha256Hex s ops) :
    RowsOf sha256Hex (s.next sha256Hex (.revoke kind name)) (ops ++ [.revoke kind name]) := by
  intro k r
  have hother (hk : ¬ (kind = k ∧ name = r.name)) :
      HeldRow sha256Hex (ops ++ [.revoke kind name]) k r ↔ r ∈ (s k).rows.rows := by
    rw [heldRow_concat (by simpa [TokenOp.replaces] using hk) fun _ ↦ rfl, h k r]
  simp only [Tokens.next, Tokens.revokeToken]
  by_cases hkind : kind = k
  · subst hkind
    rw [Function.update_self]
    by_cases hr : name = r.name
    · subst hr
      have hno : ¬ HeldRow sha256Hex (ops ++ [.revoke kind r.name]) kind r := by
        rintro ⟨token, -, hholds⟩
        exact not_holds_revoke hholds
      simp [TokenTable.drop, Table.deleteKey, hno]
    · rw [hother (by simp [hr])]
      simp [TokenTable.drop, Table.deleteKey, Ne.symm hr]
  · rw [Function.update_of_ne (Ne.symm hkind), hother (by simp [hkind])]

/-- A row, after a token with that hash was used. -/
def ClientToken.used (sha256 : String) (now : Int) (r : ClientToken) : ClientToken :=
  if r.sha256 = sha256 then { r with lastUsedAt := some now } else r

/-- The rows after a token was presented. -/
theorem mem_authenticate {kind : TokenKind} {token : String} {now : Int} {r : ClientToken} :
    r ∈ ((s.next sha256Hex (.authenticate kind token now)) kind).rows.rows ↔
      ∃ y ∈ (s kind).rows.rows, y.used (sha256Hex token) now = r := by
  simp only [Tokens.next, Tokens.authenticate, ClientToken.used]
  cases hclient : (s kind).clientOf (sha256Hex token) with
  | none =>
    have hno : ∀ y ∈ (s kind).rows.rows, y.sha256 ≠ sha256Hex token := by
      intro y hy hsha
      have hsome := TokenTable.clientOf_eq_some_iff.mpr ⟨y, hy, hsha, rfl⟩
      rw [hclient] at hsome
      cases hsome
    constructor
    · intro hr
      exact ⟨r, hr, if_neg (hno r hr)⟩
    · rintro ⟨y, hy, rfl⟩
      rw [if_neg (hno y hy)]
      exact hy
  | some name =>
    obtain ⟨x, hx, hsha, rfl⟩ := TokenTable.clientOf_eq_some_iff.mp hclient
    simp only [Function.update_self, TokenTable.mem_stamp]
    -- the row of that name is the row with that hash
    have hiff : ∀ y ∈ (s kind).rows.rows, y.name = x.name ↔ y.sha256 = sha256Hex token := by
      intro y hy
      constructor
      · intro hname
        rw [(s kind).rows.eq_of_key_eq hy hx hname]
        exact hsha
      · exact fun h ↦ (s kind).unique y hy x hx (h.trans hsha.symm)
    apply exists_congr
    intro y
    apply and_congr_right
    intro hy
    simp only [hiff y hy]

theorem used_eq_iff {sha256 : String} {now : Int} {y r : ClientToken} :
    y.used sha256 now = r ↔ y.name = r.name ∧ y.sha256 = r.sha256 ∧ y.createdAt = r.createdAt ∧
      r.lastUsedAt = (if y.sha256 = sha256 then some now else none).or y.lastUsedAt := by
  obtain ⟨name, hash, createdAt, lastUsedAt⟩ := y
  obtain ⟨name', hash', createdAt', lastUsedAt'⟩ := r
  unfold ClientToken.used
  by_cases h : hash = sha256
  · simp [h, eq_comm]
  · simp [h, eq_comm]

/-- The names that have a token, after one was presented. -/
theorem heldRow_authenticate {kind : TokenKind} {token : String} {now : Int} {r : ClientToken}
    (hfresh : Fresh sha256Hex (ops ++ [.authenticate kind token now])) :
    HeldRow sha256Hex (ops ++ [.authenticate kind token now]) kind r ↔
      ∃ y, HeldRow sha256Hex ops kind y ∧ y.used (sha256Hex token) now = r := by
  have huse : ∀ {name token' : String} {createdAt : Int} {used : Option Int},
      Holds ops kind name token' createdAt used →
      (TokenOp.authenticate kind token now).usedAt kind token' =
        if sha256Hex token' = sha256Hex token then some now else none := by
    intro name token' createdAt used hholds
    have hiff : token = token' ↔ sha256Hex token' = sha256Hex token :=
      ⟨fun h ↦ congrArg sha256Hex h.symm, fun h ↦ (hfresh.eq_of_hash hholds rfl h).symm⟩
    simp [TokenOp.usedAt, hiff]
  constructor
  · rintro ⟨token', hsha, hholds⟩
    obtain ⟨used, hholds, hat⟩ := (holds_concat rfl).mp hholds
    refine ⟨⟨r.name, r.sha256, r.createdAt, used⟩, ⟨token', hsha, hholds⟩, ?_⟩
    rw [used_eq_iff, hat, huse hholds, hsha]
    exact ⟨rfl, rfl, rfl, rfl⟩
  · rintro ⟨y, ⟨token', hsha, hholds⟩, hused⟩
    obtain ⟨hname, hhash, hcreated, hat⟩ := used_eq_iff.mp hused
    refine ⟨token', hhash.symm.trans hsha, (holds_concat rfl).mpr ⟨y.lastUsedAt, ?_, ?_⟩⟩
    · rw [← hname, ← hcreated]
      exact hholds
    · rw [hat, huse hholds, hsha]

/-- Presenting a token. -/
theorem RowsOf.authenticate {kind : TokenKind} {token : String} {now : Int}
    (h : RowsOf sha256Hex s ops)
    (hfresh : Fresh sha256Hex (ops ++ [.authenticate kind token now])) :
    RowsOf sha256Hex (s.next sha256Hex (.authenticate kind token now))
      (ops ++ [.authenticate kind token now]) := by
  intro k r
  by_cases hkind : kind = k
  · subst hkind
    rw [mem_authenticate, heldRow_authenticate hfresh]
    simp only [h kind]
  · have hsame : (s.next sha256Hex (.authenticate kind token now)) k = s k := by
      simp only [Tokens.next, Tokens.authenticate]
      split
      · exact Function.update_of_ne (Ne.symm hkind) _ _
      · rfl
    rw [hsame, heldRow_concat rfl (by simp [TokenOp.usedAt, hkind]), h k r]

/-- The tables after a run hold a row for each name that has a token. -/
theorem rowsOf_after (hfresh : Fresh sha256Hex ops) :
    RowsOf sha256Hex (Tokens.after sha256Hex ops) ops := by
  induction ops using List.reverseRecOn with
  | nil =>
    intro kind r
    constructor
    · intro hr
      cases hr
    · rintro ⟨token, -, hholds⟩
      cases hholds.token_mem
  | append_singleton ops o ih =>
    have h := ih hfresh.of_append
    rw [after_concat]
    cases o with
    | issue kind name uuids now => exact h.issue hfresh
    | revoke kind name => exact h.revoke
    | authenticate kind token now => exact h.authenticate hfresh

theorem authenticate_fst {kind : TokenKind} {token : String} {now : Int} :
    (s.authenticate sha256Hex kind token now).1 = (s kind).clientOf (sha256Hex token) := by
  unfold Tokens.authenticate
  split
  · next h => rw [h]
  · next h => rw [h]

/-- After a run a token authenticates the client that has it. -/
theorem authenticate_after {kind : TokenKind} {token name : String} {now : Int}
    (hfresh : Fresh sha256Hex (ops ++ [.authenticate kind token now])) :
    ((Tokens.after sha256Hex ops).authenticate sha256Hex kind token now).1 = some name ↔
      HasToken ops kind name token := by
  rw [authenticate_fst, TokenTable.clientOf_eq_some_iff]
  have hrows := rowsOf_after hfresh.of_append
  constructor
  · rintro ⟨r, hr, hsha, rfl⟩
    obtain ⟨token', hsha', hholds⟩ := (hrows kind r).mp hr
    have hsame := hfresh.eq_of_hash hholds rfl (hsha'.symm.trans hsha)
    exact ⟨r.createdAt, r.lastUsedAt, hsame ▸ hholds⟩
  · rintro ⟨createdAt, lastUsedAt, hholds⟩
    exact ⟨⟨name, sha256Hex token, createdAt, lastUsedAt⟩, (hrows kind _).mpr ⟨token, rfl, hholds⟩,
      rfl, rfl⟩

/-- In every run of issuing, revoking and authenticating, a token authenticates a client exactly
when it was issued to that client under that kind, and the client has since then neither got
another token nor lost this one. -/
theorem authenticate_iff (ops : List TokenOp) (kind : TokenKind) (token name : String) (now : Int)
    (hfresh : Fresh sha256Hex (ops ++ [.authenticate kind token now])) :
    ((Tokens.after sha256Hex ops).authenticate sha256Hex kind token now).1 = some name ↔
      ∃ before uuids createdAt later, ops = before ++ .issue kind name uuids createdAt :: later ∧
        checkClientName name = .ok () ∧ token = kind.tokenPrefix ++ uuids ∧
        ∀ o ∈ later, o.replaces kind name = false := by
  rw [authenticate_after hfresh]
  constructor
  · rintro ⟨createdAt, -, before, uuids, later, hops, hname, htoken, hlater, -⟩
    exact ⟨before, uuids, createdAt, later, hops, hname, htoken, hlater⟩
  · rintro ⟨before, uuids, createdAt, later, hops, hname, htoken, hlater⟩
    exact ⟨createdAt, _, before, uuids, later, hops, hname, htoken, hlater, rfl⟩

/-- What was drawn for a laptop. -/
def laptopUuids : String := "9f1c2d3e4a5b46c78d9e0f1a2b3c4d5e0a1b2c3d4e5f47a68b9c0d1e2f3a4b5c"

/-- The hash of the laptop's token; no other is taken. -/
def laptopHash (token : String) : String :=
  if token = "cbr_" ++ laptopUuids then
    "ed27a65f5bb8f85772940a4bfa86a62763e129f0504f84d88ff5c5b653d26473"
  else token

/-- A token that is issued and then shown. -/
theorem fresh_issue_authenticate {kind : TokenKind} {name uuids : String} {now now' : Int} :
    Fresh sha256Hex [.issue kind name uuids now,
      .authenticate kind (kind.tokenPrefix ++ uuids) now'] where
  drawn := List.nodup_singleton uuids
  hashes := by
    intro a ha b hb _
    have hall : ∀ t ∈ [kind.tokenPrefix ++ uuids, kind.tokenPrefix ++ uuids],
        t = kind.tokenPrefix ++ uuids := by simp
    rw [hall a ha, hall b hb]

/-- The laptop's token is the laptop's. -/
theorem authenticate_laptop :
    ((Tokens.after laptopHash [.issue .remote "laptop" laptopUuids 100]).authenticate laptopHash
      .remote ("cbr_" ++ laptopUuids) 110).1 = some "laptop" :=
  (authenticate_iff _ _ _ _ _ fresh_issue_authenticate).mpr
    ⟨[], laptopUuids, 100, [], rfl, by decide, rfl, by simp⟩

/-- The list after a run has each client that holds a token, in the order of their names, with when
the token was issued and when it was last used. -/
theorem listTokens_run (ops : List TokenOp) (kind : TokenKind) (hfresh : Fresh sha256Hex ops) :
    (∀ info, info ∈ (Tokens.after sha256Hex ops).listTokens kind ↔
      ∃ token, Holds ops kind info.name token info.createdAt info.lastUsedAt) ∧
    (((Tokens.after sha256Hex ops).listTokens kind).map TokenInfo.name).Pairwise (· < ·) := by
  have hrows := rowsOf_after hfresh kind
  constructor
  · intro info
    simp only [Tokens.listTokens, List.mem_map, List.mem_mergeSort]
    constructor
    · rintro ⟨r, hr, rfl⟩
      obtain ⟨token, -, hholds⟩ := (hrows r).mp hr
      exact ⟨token, hholds⟩
    · rintro ⟨token, hholds⟩
      exact ⟨⟨info.name, sha256Hex token, info.createdAt, info.lastUsedAt⟩,
        (hrows _).mpr ⟨token, rfl, hholds⟩, rfl⟩
  · let rows := (Tokens.after sha256Hex ops kind).rows
    let le := fun r r' : ClientToken ↦ decide (r.name ≤ r'.name)
    have hsorted : (rows.rows.mergeSort le).Pairwise fun r r' ↦ r.name ≤ r'.name := by
      apply (List.pairwise_mergeSort _ _ rows.rows).imp
      · intro a b hab
        simpa [le] using hab
      · intro a b c hab hbc
        simp only [le, decide_eq_true_eq] at hab hbc ⊢
        exact le_trans hab hbc
      · intro a b
        simpa [le] using le_total a.name b.name
    have hne : (rows.rows.mergeSort le).Pairwise fun r r' ↦ r.name ≠ r'.name :=
      List.pairwise_map.mp (((List.mergeSort_perm rows.rows le).map _).nodup_iff.mpr rows.nodup)
    rw [Tokens.listTokens, List.map_map, List.pairwise_map]
    exact hsorted.imp₂ (fun a b hle hne ↦ lt_of_le_of_ne hle hne) hne

/-- The laptop is listed, with the use of its token. -/
theorem listTokens_laptop :
    ⟨"laptop", 100, some 110⟩ ∈ (Tokens.after laptopHash [.issue .remote "laptop" laptopUuids 100,
      .authenticate .remote ("cbr_" ++ laptopUuids) 110]).listTokens .remote :=
  ((listTokens_run _ _ fresh_issue_authenticate).1 _).mpr
    ⟨"cbr_" ++ laptopUuids, [], laptopUuids, [_], rfl, by decide, rfl, by simp [TokenOp.replaces],
      by simp [TokenOp.usedAt, TokenKind.tokenPrefix]⟩

end Run

end Claudebase.Remote
