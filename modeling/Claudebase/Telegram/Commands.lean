import Claudebase.Base.Run
import Claudebase.Base.Text
import Claudebase.Telegram.Access

/-!
# The operator's commands on the access list

`src/access_cli.rs:32–226`. `pair`, `policy`, `allow` and `revoke` read the access file, change
it and write it back; a refusal writes nothing. What a command does to the allow list and the
policy is one effect on them, whatever else the file holds.
-/

namespace Claudebase.Telegram
open Claudebase.Base

/-- The marker `pair` leaves for the bot to confirm. -/
structure Approval where
  senderId : String
  chatId : String
  deriving DecidableEq, Repr

/-- A code as the operator may type it: blanks around it, a `#` before it, any case. -/
def pairingCode (unicode : Unicode) (input : String) : String :=
  String.ofList (unicode.toLowercase ((trim input.toList).dropWhile (· = '#')))

/-- The pending code that matches, in any case. -/
def Access.matching? (unicode : Unicode) (access : Access) (code : String) :
    Option (String × PendingEntry) :=
  access.pending.entries.find? fun e ↦ String.ofList (unicode.toLowercase e.1.toList) == code

/-- What `pair` says of a code that is not pending. -/
def notPending (access : Access) (pruned : Bool) (code : String) : String :=
  if pruned then
    "code `" ++ code ++ "` is not pending — it may have expired.\n" ++
      "Ask the sender to message the bot again for a fresh code."
  else if access.pending.entries.isEmpty then
    "no pairing is pending. The sender must message the bot first; the bot answers with a code."
  else
    "code `" ++ code ++ "` is not pending. Currently waiting: " ++
      ", ".intercalate (access.pending.entries.map Prod.fst)

/-- `pair`: the sender a pending code was issued to is allowed, and the code is used up. -/
def pair (unicode : Unicode) (input : String) (now : Int) (access : Access) :
    Except String (String × Approval × Access) :=
  let code := pairingCode unicode input
  if code.isEmpty then
    .error "pass the code the bot sent you: claudebase telegram pair <code>"
  else
    let pruned := pruneExpired access now
    match pruned.2.matching? unicode code with
    | none => .error (notPending pruned.2 pruned.1 code)
    | some (stored, entry) =>
      let allowFrom :=
        if pruned.2.allowFrom.contains entry.senderId then pruned.2.allowFrom
        else pruned.2.allowFrom ++ [entry.senderId]
      let reply := "paired " ++ entry.senderId ++ " (chat " ++ entry.chatId ++
        ") — the bot will confirm in Telegram within ~5s\nallowlist now has " ++
        toString allowFrom.length ++ " sender(s)\n\n" ++
        "Once everyone who should reach you is listed, lock it down:\n  " ++
        "claudebase telegram policy allowlist"
      .ok (reply, ⟨entry.senderId, entry.chatId⟩,
        { pruned.2 with allowFrom, pending := pruned.2.pending.retain fun k _ ↦ k != stored })

/-- The policies by name; `off` is `disabled`. -/
def parsePolicy (unicode : Unicode) (value : String) : Except String DmPolicy :=
  match String.ofList (unicode.toLowercase (trim value.toList)) with
  | "pairing" => .ok .pairing
  | "allowlist" => .ok .allowlist
  | "disabled" | "off" => .ok .disabled
  | other => .error ("unknown policy `" ++ other ++ "` — use pairing, allowlist or disabled")

/-- `policy_name`. -/
def policyName : DmPolicy → String
  | .pairing => "pairing"
  | .allowlist => "allowlist"
  | .disabled => "disabled"

/-- `policy_meaning`. -/
def policyMeaning : DmPolicy → String
  | .pairing => "unknown senders get a code; you approve each one by hand"
  | .allowlist => "only listed senders get through; everyone else is dropped silently"
  | .disabled => "all direct messages are dropped"

/-- `set_policy`: an empty allow list is not locked. -/
def setPolicy (unicode : Unicode) (value : String) (access : Access) :
    Except String (String × Access) := do
  let policy ← parsePolicy unicode value
  require (¬ (policy = .allowlist ∧ access.allowFrom = []))
    ("refusing to switch to `allowlist` while the allowlist is empty — that would lock out " ++
      "everyone, including you.\n" ++
      "Pair yourself first (message the bot, then `claudebase telegram pair <code>`).")
  return ("policy " ++ policyName access.dmPolicy ++ " → " ++ policyName policy ++ "\n  " ++
    policyMeaning policy ++ "\n(takes effect on the next inbound message; no restart)",
    { access with dmPolicy := policy })

/-- `allow`: a numeric id is listed; one that is listed already is not written again. -/
def allow (input : String) (access : Access) : Except String (String × Option Access) :=
  let senderId := String.ofList (trim input.toList)
  if senderId.isEmpty || !senderId.toList.all isAsciiDigit then
    .error "sender id must be the numeric Telegram user id (they can get it from @userinfobot)"
  else if access.allowFrom.contains senderId then .ok (senderId ++ " is already allowed", none)
  else
    let allowFrom := access.allowFrom ++ [senderId]
    .ok ("allowed " ++ senderId ++ " (" ++ toString allowFrom.length ++ " total)",
      some { access with allowFrom })

/-- `revoke`: an id that is not listed is refused. -/
def revoke (input : String) (access : Access) : Except String (String × Access) :=
  let senderId := String.ofList (trim input.toList)
  let allowFrom := access.allowFrom.filter (· ≠ senderId)
  if allowFrom.length = access.allowFrom.length then
    .error (senderId ++ " is not in the allowlist")
  else
    .ok ("revoked " ++ senderId ++ " (" ++ toString allowFrom.length ++ " remaining)",
      { access with allowFrom })

/-- A command line. -/
inductive Command where
  | pair (code : String)
  | setPolicy (value : String)
  | allow (senderId : String)
  | revoke (senderId : String)
  deriving DecidableEq, Repr

/-- What a command prints, and the file it writes, if it writes one. -/
def Command.execute (unicode : Unicode) (now : Int) (access : Access) :
    Command → Except String (String × Option Access)
  | .pair code => (Telegram.pair unicode code now access).map fun r ↦ (r.1, some r.2.2)
  | .setPolicy value => (Telegram.setPolicy unicode value access).map fun r ↦ (r.1, some r.2)
  | .allow senderId => Telegram.allow senderId access
  | .revoke senderId => (Telegram.revoke senderId access).map fun r ↦ (r.1, some r.2)

/-! ### Rights and effects -/

/-- What the gate grants: the policy and the allow list. -/
structure Rights where
  policy : DmPolicy
  allowed : List String
  deriving DecidableEq, Repr

/-- The rights an access file holds. -/
def Access.rights (access : Access) : Rights := ⟨access.dmPolicy, access.allowFrom⟩

/-- What a command does to them. -/
inductive Effect where
  | grant (senderId : String)
  | revoke (senderId : String)
  | policy (p : DmPolicy)
  deriving DecidableEq, Repr

/-- The rights after an effect. -/
def Effect.apply (rights : Rights) : Effect → Rights
  | .grant senderId =>
    if rights.allowed.contains senderId then rights
    else { rights with allowed := rights.allowed ++ [senderId] }
  | .revoke senderId => { rights with allowed := rights.allowed.filter (· ≠ senderId) }
  | .policy p => { rights with policy := p }

theorem Effect.apply_grant_of_mem {rights : Rights} {senderId : String}
    (h : senderId ∈ rights.allowed) : (grant senderId).apply rights = rights := by
  simp [apply, h]

theorem Effect.apply_grant_of_not_mem {rights : Rights} {senderId : String}
    (h : senderId ∉ rights.allowed) :
    (grant senderId).apply rights = { rights with allowed := rights.allowed ++ [senderId] } := by
  simp [apply, h]

/-- The effect a command is to have, on the file it has read. -/
def Command.effect? (unicode : Unicode) (now : Int) (access : Access) : Command → Option Effect
  | .pair code =>
    ((pruneExpired access now).2.matching? unicode (pairingCode unicode code)).map fun e ↦
      .grant e.2.senderId
  | .setPolicy value => (parsePolicy unicode value).toOption.map .policy
  | .allow senderId => some (.grant (String.ofList (trim senderId.toList)))
  | .revoke senderId => some (.revoke (String.ofList (trim senderId.toList)))

/-- Taking expired codes out leaves the rights. -/
@[simp] theorem rights_pruneExpired (access : Access) (now : Int) :
    (pruneExpired access now).2.rights = access.rights := rfl

theorem pair_eq_ok {unicode : Unicode} {input : String} {now : Int} {access access' : Access}
    {reply : String} {approval : Approval}
    (h : pair unicode input now access = .ok (reply, approval, access')) :
    ∃ stored entry,
      (pruneExpired access now).2.matching? unicode (pairingCode unicode input) =
        some (stored, entry) ∧
      approval = ⟨entry.senderId, entry.chatId⟩ ∧
      access'.rights = (Effect.grant entry.senderId).apply access.rights ∧
      access'.pending = (pruneExpired access now).2.pending.retain fun k _ ↦ k != stored := by
  unfold pair at h
  dsimp only at h
  split at h
  · cases h
  · split at h
    · cases h
    · next stored entry hmatch =>
      obtain ⟨-, rfl, rfl⟩ : _ ∧ _ ∧ _ := by simpa using h
      refine ⟨stored, entry, hmatch, rfl, ?_, rfl⟩
      by_cases hlisted : entry.senderId ∈ access.rights.allowed
      · rw [Effect.apply_grant_of_mem hlisted]
        exact congrArg (Rights.mk access.dmPolicy) (if_pos hlisted)
      · rw [Effect.apply_grant_of_not_mem hlisted]
        exact congrArg (Rights.mk access.dmPolicy) (if_neg hlisted)

theorem setPolicy_eq_ok {unicode : Unicode} {value : String} {access access' : Access}
    {reply : String} (h : setPolicy unicode value access = .ok (reply, access')) :
    ∃ p, parsePolicy unicode value = .ok p ∧ ¬ (p = .allowlist ∧ access.allowFrom = []) ∧
      access' = { access with dmPolicy := p } := by
  unfold setPolicy at h
  obtain ⟨p, hp, h⟩ := bind_eq_ok.mp h
  obtain ⟨_, hopen, h⟩ := bind_eq_ok.mp h
  have heq := pure_eq_ok.mp h
  exact ⟨p, hp, require_eq_ok.mp hopen, (congrArg Prod.snd heq).symm⟩

theorem allow_eq_ok {input : String} {access access' : Access} {reply : String}
    (h : allow input access = .ok (reply, some access')) :
    String.ofList (trim input.toList) ∉ access.allowFrom ∧
      access' = { access with
        allowFrom := access.allowFrom ++ [String.ofList (trim input.toList)] } := by
  unfold allow at h
  extract_lets senderId allowFrom at h
  split at h
  · cases h
  · split at h
    · cases h
    · next hnew =>
      obtain ⟨-, rfl⟩ : _ ∧ _ := by simpa using h
      exact ⟨by simpa using hnew, rfl⟩

theorem revoke_eq_ok {input : String} {access access' : Access} {reply : String}
    (h : revoke input access = .ok (reply, access')) :
    access' = { access with
      allowFrom := access.allowFrom.filter (· ≠ String.ofList (trim input.toList)) } := by
  unfold revoke at h
  extract_lets senderId allowFrom at h
  split at h
  · cases h
  · obtain ⟨-, rfl⟩ : _ ∧ _ := by simpa using h
    rfl

namespace Command

variable {unicode : Unicode} {now : Int} {access access' : Access} {reply : String}

/-- What is written by a `pair` that succeeds. -/
theorem execute_pair_ok {code : String}
    (h : (Command.pair code).execute unicode now access = .ok (reply, some access')) :
    ∃ stored entry,
      (pruneExpired access now).2.matching? unicode (pairingCode unicode code) =
        some (stored, entry) ∧
      access'.rights = (Effect.grant entry.senderId).apply access.rights ∧
      access'.pending = (pruneExpired access now).2.pending.retain fun k _ ↦ k != stored := by
  unfold execute at h
  obtain ⟨⟨reply', approval, written⟩, hpair, heq⟩ := map_eq_ok.mp h
  obtain rfl : written = access' := Option.some.inj (congrArg Prod.snd heq)
  obtain ⟨stored, entry, hmatch, -, hrights, hpending⟩ := pair_eq_ok hpair
  exact ⟨stored, entry, hmatch, hrights, hpending⟩

/-- What is written by a change of the policy that succeeds. -/
theorem execute_setPolicy_ok {value : String}
    (h : (Command.setPolicy value).execute unicode now access = .ok (reply, some access')) :
    ∃ p, parsePolicy unicode value = .ok p ∧ access' = { access with dmPolicy := p } := by
  unfold execute at h
  obtain ⟨⟨reply', written⟩, hset, heq⟩ := map_eq_ok.mp h
  obtain rfl : written = access' := Option.some.inj (congrArg Prod.snd heq)
  obtain ⟨p, hp, -, hwritten⟩ := setPolicy_eq_ok hset
  exact ⟨p, hp, hwritten⟩

/-- What is written by an `allow` that writes. -/
theorem execute_allow_ok {senderId : String}
    (h : (Command.allow senderId).execute unicode now access = .ok (reply, some access')) :
    String.ofList (trim senderId.toList) ∉ access.allowFrom ∧
      access' = { access with
        allowFrom := access.allowFrom ++ [String.ofList (trim senderId.toList)] } := by
  unfold execute at h
  exact allow_eq_ok h

/-- What is written by a `revoke` that succeeds. -/
theorem execute_revoke_ok {senderId : String}
    (h : (Command.revoke senderId).execute unicode now access = .ok (reply, some access')) :
    access' = { access with
      allowFrom := access.allowFrom.filter (· ≠ String.ofList (trim senderId.toList)) } := by
  unfold execute at h
  obtain ⟨⟨reply', written⟩, hrevoke, heq⟩ := map_eq_ok.mp h
  obtain rfl : written = access' := Option.some.inj (congrArg Prod.snd heq)
  exact revoke_eq_ok hrevoke

/-- What a command writes is what it read, with its effect on the rights. -/
theorem rights_execute {cmd : Command}
    (h : cmd.execute unicode now access = .ok (reply, some access')) :
    ∃ effect, cmd.effect? unicode now access = some effect ∧
      access'.rights = effect.apply access.rights := by
  cases cmd with
  | pair code =>
    obtain ⟨stored, entry, hmatch, hrights, -⟩ := execute_pair_ok h
    exact ⟨.grant entry.senderId, by simp [effect?, hmatch], hrights⟩
  | setPolicy value =>
    obtain ⟨p, hp, rfl⟩ := execute_setPolicy_ok h
    exact ⟨.policy p, by simp [effect?, hp, Except.toOption], rfl⟩
  | allow senderId =>
    obtain ⟨hnew, rfl⟩ := execute_allow_ok h
    refine ⟨.grant (String.ofList (trim senderId.toList)), rfl, ?_⟩
    have hnew : String.ofList (trim senderId.toList) ∉ access.rights.allowed := hnew
    rw [Effect.apply_grant_of_not_mem hnew]
    rfl
  | revoke senderId =>
    rw [execute_revoke_ok h]
    exact ⟨_, rfl, rfl⟩

end Command

end Claudebase.Telegram
