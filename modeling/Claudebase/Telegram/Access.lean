import Mathlib.Data.String.Basic
import Claudebase.Base.SortedMap

/-!
# The access gate

`src/daemon/channel_state.rs:55–341`. Who may reach a session through the bot: an allow
list under a policy, and the pairing codes issued to senders not on it yet. The gate decides
one message at a time and may issue a code; the allow list only changes from outside.
-/

namespace Claudebase.Telegram
open Claudebase.Base

/-- `PAIRING_CODE_TTL_MS`: a code lives for an hour. -/
def pairingCodeTtlMs : Int := 60 * 60 * 1000

/-- `PENDING_CAP`: more codes than this are not issued. -/
def pendingCap : Nat := 3

/-- `MAX_PAIRING_REPLIES`: how often a code is sent. -/
def maxPairingReplies : Nat := 2

/-- `DmPolicy`. -/
inductive DmPolicy where
  | pairing | allowlist | disabled
  deriving DecidableEq, Repr

/-- A code waiting for the operator, `PendingEntry`. -/
structure PendingEntry where
  senderId : String
  chatId : String
  createdAt : Int
  expiresAt : Int
  replies : Nat
  deriving DecidableEq, Repr

/-- The contents of `access.json` the gate reads. -/
structure Access where
  dmPolicy : DmPolicy
  allowFrom : List String
  pending : SortedMap String PendingEntry

/-- `Access::default`: pairing, nobody allowed. -/
def Access.default : Access := ⟨.pairing, [], .empty⟩

/-- `prune_expired`; the flag says whether an entry went. -/
def pruneExpired (access : Access) (now : Int) : Bool × Access :=
  let pending := access.pending.retain fun _ e ↦ e.expiresAt > now
  (pending.size != access.pending.size, { access with pending })

/-- `GateAction`. -/
inductive GateAction where
  | deliver
  | drop
  | pair (code : String) (isResend : Bool)
  deriving DecidableEq, Repr

/-- `gate_callback`: a button tap is let in or dropped. -/
def gateCallback (access : Access) (senderId : String) : Bool :=
  access.dmPolicy != .disabled && access.allowFrom.contains senderId

/-- The code pending for a sender. -/
def Access.codeOf? (access : Access) (senderId : String) : Option (String × PendingEntry) :=
  access.pending.entries.find? fun e ↦ e.2.senderId == senderId

/-- `gate_dm`: what happens to a message. A new code is `newCode`, if the random source
gives one. -/
def gateDm (access : Access) (senderId chatId : String) (now : Int) (newCode : Option String) :
    GateAction × Access :=
  if access.dmPolicy = .disabled then (.drop, access)
  else if access.allowFrom.contains senderId then (.deliver, access)
  else if access.dmPolicy = .allowlist then (.drop, access)
  else
    match access.codeOf? senderId with
    | some (code, p) =>
      if maxPairingReplies ≤ p.replies then (.drop, access)
      else
        (.pair code true, { access with
          pending := access.pending.modify code fun e ↦ { e with replies := e.replies + 1 } })
    | none =>
      if pendingCap ≤ access.pending.size then (.drop, access)
      else
        match newCode with
        | none => (.drop, access)
        | some code =>
          (.pair code false, { access with
            pending := access.pending.insert code
              ⟨senderId, chatId, now, now + pairingCodeTtlMs, 1⟩ })

/-- `format_pair_reply`. -/
def formatPairReply (code : String) (isResend : Bool) : String :=
  let lead := if isResend then "Still pending" else "Pairing required"
  lead ++ " — run in your terminal:\n\nclaudebase telegram pair " ++ code

/-! ### What the gate decides -/

/-- A sender is let in: listed, under a policy that is not disabled. -/
def Access.Admits (access : Access) (senderId : String) : Prop :=
  access.dmPolicy ≠ .disabled ∧ senderId ∈ access.allowFrom

instance (access : Access) (senderId : String) : Decidable (access.Admits senderId) :=
  inferInstanceAs (Decidable (_ ∧ _))

/-- A tap passes exactly when its sender is let in. -/
theorem gateCallback_iff {access : Access} {senderId : String} :
    gateCallback access senderId = true ↔ access.Admits senderId := by
  simp [gateCallback, Access.Admits]

/-- A message is delivered exactly when its sender is let in. -/
theorem gateDm_deliver_iff {access : Access} {senderId chatId : String} {now : Int}
    {newCode : Option String} :
    (gateDm access senderId chatId now newCode).1 = .deliver ↔ access.Admits senderId := by
  unfold gateDm Access.Admits
  by_cases hpolicy : access.dmPolicy = .disabled
  · simp [hpolicy]
  · by_cases hlisted : senderId ∈ access.allowFrom
    · simp [hpolicy, hlisted]
    · rw [if_neg hpolicy, if_neg (by simpa using hlisted)]
      simp only [hlisted, and_false, iff_false]
      split
      · simp
      · split
        · split
          · simp
          · simp
        · split
          · simp
          · split
            · simp
            · simp

/-- The gate sends a pending code again: the entry counts one reply more. -/
structure Resent (access access' : Access) (senderId code : String) (entry : PendingEntry) :
    Prop where
  pending : (code, entry) ∈ access.pending.entries
  senderId : entry.senderId = senderId
  replies : entry.replies < maxPairingReplies
  after : access' = { access with
    pending := access.pending.modify code fun e ↦ { e with replies := e.replies + 1 } }

/-- The gate issues a code to a sender who has none. -/
structure Issued (access access' : Access) (senderId chatId code : String) (now : Int) : Prop where
  unknown : ∀ e ∈ access.pending.entries, e.2.senderId ≠ senderId
  room : access.pending.size < pendingCap
  after : access' = { access with
    pending := access.pending.insert code ⟨senderId, chatId, now, now + pairingCodeTtlMs, 1⟩ }

/-- What the gate has done when it answers with a code. -/
theorem gateDm_pair {access : Access} {senderId chatId code : String} {now : Int}
    {newCode : Option String} {isResend : Bool}
    (h : (gateDm access senderId chatId now newCode).1 = .pair code isResend) :
    (isResend = true ∧ ∃ entry,
      Resent access (gateDm access senderId chatId now newCode).2 senderId code entry) ∨
    (isResend = false ∧
      Issued access (gateDm access senderId chatId now newCode).2 senderId chatId code now) := by
  unfold gateDm at h ⊢
  split at h
  · cases h
  · next hpolicy =>
    rw [if_neg hpolicy]
    split at h
    · cases h
    · next hlisted =>
      rw [if_neg hlisted]
      split at h
      · cases h
      · next hallow =>
        rw [if_neg hallow]
        cases hcode : access.codeOf? senderId with
        | some found =>
          obtain ⟨stored, entry⟩ := found
          rw [hcode] at h
          dsimp only at h ⊢
          split at h
          · cases h
          · next hreplies =>
            obtain ⟨rfl, rfl⟩ : stored = code ∧ true = isResend := by simpa using h
            rw [if_neg hreplies]
            refine Or.inl ⟨rfl, entry, List.mem_of_find?_eq_some hcode, ?_, ?_, rfl⟩
            · simpa using List.find?_some hcode
            · omega
        | none =>
          rw [hcode] at h
          dsimp only at h ⊢
          split at h
          · cases h
          · next hroom =>
            rw [if_neg hroom]
            cases hnew : newCode with
            | none =>
              rw [hnew] at h
              cases h
            | some drawn =>
              rw [hnew] at h
              obtain ⟨rfl, rfl⟩ : drawn = code ∧ false = isResend := by simpa using h
              refine Or.inr ⟨rfl, fun e he ↦ ?_, by omega, rfl⟩
              simpa using List.find?_eq_none.mp hcode e he

end Claudebase.Telegram
