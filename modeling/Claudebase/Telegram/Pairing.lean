import Claudebase.Telegram.AccessFile

/-!
# Pairing

`src/daemon/channel_state.rs:229–341`, `src/daemon/telegram.rs:801–851,1168–1199`,
`src/access_cli.rs:32–99`. A stranger who writes to the bot is answered with a code and nothing
else; the operator lets them in by typing the code back. Batches and commands are applied one
after the other to one access list, which starts empty.
-/

namespace Claudebase.Telegram
open Claudebase.Base

/-! ### Codes sent -/

/-- A pairing code sent to a chat, newly issued or once more. -/
structure Sending where
  code : String
  senderId : String
  chatId : Int
  isResend : Bool
  deriving DecidableEq, Repr

/-- The reply that carries it. -/
def Sending.reply (s : Sending) : Int × Option Int × String :=
  (s.chatId, none, formatPairReply s.code s.isResend)

/-- The sendings of a code from its last issue on. -/
def sinceIssue (code : String) (sent : List Sending) : List Sending :=
  sent.foldl (fun since s ↦
    if s.code = code then (if s.isResend then since ++ [s] else [s]) else since) []

theorem sinceIssue_concat (code : String) (sent : List Sending) (s : Sending) :
    sinceIssue code (sent ++ [s]) =
      if s.code = code then (if s.isResend then sinceIssue code sent ++ [s] else [s])
      else sinceIssue code sent := by
  simp [sinceIssue]

/-- A code has not been sent too often since its last issue, nor to two senders. -/
structure Bounded (since : List Sending) : Prop where
  length : since.length ≤ maxPairingReplies
  senderId : ∀ s ∈ since, ∀ s' ∈ since, s.senderId = s'.senderId

namespace Batch

/-- The code an update is answered with. -/
def sending? (env : Env) (b : Batch) (u : Update) : Option Sending :=
  match u.callbackQuery, u.message with
  | none, some m =>
    match (gateDm b.access (toString m.userId) (toString m.chatId) env.now
      (env.pairingCode b.seen)).1 with
    | .pair code isResend => some ⟨code, toString m.userId, m.chatId, isResend⟩
    | _ => none
  | _, _ => none

/-- The codes a batch is answered with. -/
def sendings (uuids : Uuids) (env : Env) (db : Db) (access : Access) (batch : List Update) :
    List Sending :=
  (steps uuids env db access batch).filterMap fun t ↦ t.before.sending? env t.op

/-- Nothing has come of an update, but possibly a code sent in reply. -/
structure Refused (env : Env) (t : Step Batch Update) : Prop where
  db : t.after.db = t.before.db
  messagesInserted : t.after.messagesInserted = t.before.messagesInserted
  notifications : t.after.notifications = t.before.notifications
  callbackAcks : t.after.callbackAcks = t.before.callbackAcks
  keyboardEdits : t.after.keyboardEdits = t.before.keyboardEdits
  keyboards : t.after.keyboards = t.before.keyboards
  pairReplies : t.after.pairReplies = t.before.pairReplies ++
    ((t.before.sending? env t.op).map Sending.reply).toList

end Batch

/-- Who an update is from. -/
def Update.sender? (u : Update) : Option String :=
  match u.callbackQuery, u.message with
  | some cb, _ => some (toString cb.sender.id)
  | none, some m => some (toString m.userId)
  | none, none => none

namespace Batch

variable (uuids : Uuids) (env : Env)

theorem sending?_of_message {b : Batch} {u : Update} {m : Message} (hcb : u.callbackQuery = none)
    (hm : u.message = some m) : b.sending? env u =
      match (gateDm b.access (toString m.userId) (toString m.chatId) env.now
        (env.pairingCode b.seen)).1 with
      | .pair code isResend => some ⟨code, toString m.userId, m.chatId, isResend⟩
      | _ => none := by
  unfold sending?
  rw [hcb, hm]

/-- The gate keeps strangers out. -/
theorem refused_processUpdate {b : Batch} {u : Update}
    (h : ∀ id ∈ u.sender?, ¬ b.access.Admits id) :
    Refused env ⟨b, u, processUpdate uuids env b u⟩ := by
  cases hcb : u.callbackQuery with
  | some cb =>
    have hgate : gateCallback b.access (toString cb.sender.id) = false := by
      rw [← Bool.not_eq_true, gateCallback_iff]
      exact h _ (by simp [Update.sender?, hcb])
    have hdropped : b.processCallback env cb = b := by
      unfold processCallback
      rw [hgate]
      rfl
    unfold processUpdate
    rw [hcb]
    dsimp only
    rw [hdropped]
    exact ⟨rfl, rfl, rfl, rfl, rfl, rfl, by simp [sending?, hcb]⟩
  | none =>
    cases hm : u.message with
    | none =>
      unfold processUpdate
      rw [hcb, hm]
      exact ⟨rfl, rfl, rfl, rfl, rfl, rfl, by simp [sending?, hcb, hm]⟩
    | some m =>
      have hnot : ¬ b.access.Admits (toString m.userId) := h _ (by simp [Update.sender?, hcb, hm])
      have hsending := sending?_of_message env (b := b) hcb hm
      unfold processUpdate
      rw [hcb, hm]
      dsimp only
      unfold processMessage
      dsimp only
      split
      · next hgate =>
        rw [hgate] at hsending
        exact ⟨rfl, rfl, rfl, rfl, rfl, rfl, by simp [hsending]⟩
      · next code isResend hgate =>
        rw [hgate] at hsending
        exact ⟨rfl, rfl, rfl, rfl, rfl, rfl, by simp [hsending, reply, Sending.reply]⟩
      · next hgate => exact absurd (gateDm_deliver_iff.mp hgate) hnot

/-- The access state after an update is marked to be written as soon as a code was sent. -/
theorem accessDirty_processUpdate (b : Batch) (u : Update) :
    (processUpdate uuids env b u).accessDirty =
      (b.accessDirty || (b.sending? env u).isSome) := by
  cases hcb : u.callbackQuery with
  | some cb =>
    unfold processUpdate
    rw [hcb]
    simpa [sending?, hcb] using (access_processCallback b env cb).2
  | none =>
    cases hm : u.message with
    | none =>
      unfold processUpdate
      rw [hcb, hm]
      simp [sending?, hcb, hm]
    | some m =>
      rw [sending?_of_message env hcb hm]
      unfold processUpdate
      rw [hcb, hm]
      dsimp only
      unfold processMessage
      dsimp only
      split
      · next hgate => rw [hgate, Option.isSome_none, Bool.or_false]
      · next hgate => rw [hgate, Option.isSome_some, Bool.or_true]
      · next hgate =>
        rw [hgate, Option.isSome_none, Bool.or_false]
        split
        · exact (access_deliver b uuids env m _).2
        · exact (access_deliver b uuids env m _).2
        · rfl

end Batch

/-! ### Codes pending -/

/-- What holds of the access state and the codes sent so far. Every pending entry counts at
least the sendings of its code since the issue, which went to its sender. -/
structure Rationed (access : Access) (sent : List Sending) : Prop where
  capacity : access.pending.size ≤ pendingCap
  single : ∀ e ∈ access.pending.entries, ∀ e' ∈ access.pending.entries,
    e.2.senderId = e'.2.senderId → e = e'
  issued : ∀ e ∈ access.pending.entries,
    ∃ s ∈ sent, s.code = e.1 ∧ s.senderId = e.2.senderId ∧ s.isResend = false
  counted : ∀ e ∈ access.pending.entries, (sinceIssue e.1 sent).length ≤ e.2.replies ∧
    ∀ s ∈ sinceIssue e.1 sent, s.senderId = e.2.senderId
  bounded : ∀ code earlier, earlier <+: sent → Bounded (sinceIssue code earlier)

/-- Entries may go. -/
theorem Rationed.of_sublist {access access' : Access} {sent : List Sending}
    (h : Rationed access sent)
    (hsub : access'.pending.entries.Sublist access.pending.entries) : Rationed access' sent where
  capacity := hsub.length_le.trans h.capacity
  single e he e' he' := h.single e (hsub.subset he) e' (hsub.subset he')
  issued e he := h.issued e (hsub.subset he)
  counted e he := h.counted e (hsub.subset he)
  bounded := h.bounded

/-- One more sending keeps the bound when it does so for its own code. -/
theorem bounded_concat {sent : List Sending} {s : Sending}
    (h : ∀ code earlier, earlier <+: sent → Bounded (sinceIssue code earlier))
    (hs : Bounded (sinceIssue s.code (sent ++ [s]))) (code : String) (earlier : List Sending)
    (hearlier : earlier <+: sent ++ [s]) : Bounded (sinceIssue code earlier) := by
  rcases List.prefix_concat_iff.mp hearlier with rfl | hearlier
  · by_cases hcode : s.code = code
    · rwa [← hcode]
    · rw [sinceIssue_concat, if_neg hcode]
      exact h code sent (List.prefix_refl sent)
  · exact h code earlier hearlier

/-- A code sent again. -/
theorem Rationed.resent {access access' : Access} {sent : List Sending} {entry : PendingEntry}
    {s : Sending} (h : Rationed access sent) (hresend : s.isResend = true)
    (hr : Resent access access' s.senderId s.code entry) : Rationed access' (sent ++ [s]) := by
  obtain ⟨hpending, hsender, hreplies, rfl⟩ := hr
  have hsince : sinceIssue s.code (sent ++ [s]) = sinceIssue s.code sent ++ [s] := by
    rw [sinceIssue_concat, if_pos rfl, if_pos hresend]
  obtain ⟨hlength, hto⟩ := h.counted _ hpending
  have hto' : ∀ s' ∈ sinceIssue s.code sent ++ [s], s'.senderId = entry.senderId := by
    intro s' hs'
    rcases List.mem_append.mp hs' with hs' | hs'
    · exact hto s' hs'
    · rw [List.mem_singleton.mp hs', hsender]
  have hentry : ∀ {e : String × PendingEntry},
      e ∈ (access.pending.modify s.code fun e ↦ { e with replies := e.replies + 1 }).entries →
      ∃ old, (e.1, old) ∈ access.pending.entries ∧ e.2.senderId = old.senderId ∧
        e.2.replies = if e.1 = s.code then old.replies + 1 else old.replies := by
    intro e he
    obtain ⟨old, hold, heq⟩ := SortedMap.mem_modify.mp he
    refine ⟨old, hold, ?_, ?_⟩
    · rw [heq]
      split
      · rfl
      · rfl
    · rw [heq]
      split
      · rfl
      · rfl
  constructor
  · simpa using h.capacity
  · intro e he e' he' heq
    obtain ⟨old, hold, hsame, -⟩ := hentry he
    obtain ⟨old', hold', hsame', -⟩ := hentry he'
    have hone := h.single _ hold _ hold' (by rw [← hsame, ← hsame', heq])
    exact SortedMap.eq_of_fst_eq _ he he' (Prod.mk.inj hone).1
  · intro e he
    obtain ⟨old, hold, hsame, -⟩ := hentry he
    obtain ⟨s', hs', hcode, hto, hnew⟩ := h.issued _ hold
    exact ⟨s', List.mem_append_left _ hs', hcode, by rw [hto, hsame], hnew⟩
  · intro e he
    obtain ⟨old, hold, hsame, hcount⟩ := hentry he
    by_cases hcode : e.1 = s.code
    · -- its own entry
      rw [hcode] at hold
      obtain rfl : old = entry := congrArg Prod.snd (access.pending.eq_of_fst_eq hold hpending rfl)
      rw [hcode, hsince, hsame, hcount, if_pos hcode, List.length_append, List.length_singleton]
      exact ⟨Nat.add_le_add_right hlength 1, hto'⟩
    · rw [sinceIssue_concat, if_neg (Ne.symm hcode), hsame, hcount, if_neg hcode]
      exact h.counted _ hold
  · apply bounded_concat h.bounded
    rw [hsince]
    constructor
    · rw [List.length_append, List.length_singleton]
      exact (Nat.add_le_add_right hlength 1).trans hreplies
    · intro s₁ hs₁ s₂ hs₂
      rw [hto' s₁ hs₁, hto' s₂ hs₂]

/-- A code issued, perhaps one that is pending already. -/
theorem Rationed.issue {access access' : Access} {sent : List Sending} {s : Sending}
    {chatId : String} {now : Int} (h : Rationed access sent) (hnew : s.isResend = false)
    (hi : Issued access access' s.senderId chatId s.code now) : Rationed access' (sent ++ [s]) := by
  obtain ⟨hunknown, hroom, rfl⟩ := hi
  have hsince : sinceIssue s.code (sent ++ [s]) = [s] := by
    rw [sinceIssue_concat, if_pos rfl, if_neg (by simp [hnew])]
  constructor
  · exact (SortedMap.size_insert_le _ _ _).trans hroom
  · intro e he e' he' heq
    rcases SortedMap.mem_insert.mp he with rfl | ⟨hold, -⟩
    · rcases SortedMap.mem_insert.mp he' with rfl | ⟨hold', -⟩
      · rfl
      · exact absurd heq.symm (hunknown _ hold')
    · rcases SortedMap.mem_insert.mp he' with rfl | ⟨hold', -⟩
      · exact absurd heq (hunknown _ hold)
      · exact h.single e hold e' hold' heq
  · intro e he
    rcases SortedMap.mem_insert.mp he with rfl | ⟨hold, -⟩
    · exact ⟨s, List.mem_append_right _ List.mem_cons_self, rfl, rfl, hnew⟩
    · obtain ⟨s', hs', hs⟩ := h.issued e hold
      exact ⟨s', List.mem_append_left _ hs', hs⟩
  · intro e he
    rcases SortedMap.mem_insert.mp he with rfl | ⟨hold, hcode⟩
    · dsimp only
      rw [hsince]
      exact ⟨le_refl 1, fun s' hs' ↦ by rw [List.mem_singleton.mp hs']⟩
    · rw [sinceIssue_concat, if_neg (Ne.symm hcode)]
      exact h.counted e hold
  · apply bounded_concat h.bounded
    rw [hsince]
    refine ⟨Nat.le_succ 1, fun s₁ hs₁ s₂ hs₂ ↦ ?_⟩
    rw [List.mem_singleton.mp hs₁, List.mem_singleton.mp hs₂]

namespace Batch

variable (uuids : Uuids) (env : Env)

/-- An update sends at most one code, and counts it. -/
theorem rationed_processUpdate {b : Batch} {sent : List Sending} (h : Rationed b.access sent)
    (u : Update) : Rationed (processUpdate uuids env b u).access
      (sent ++ (b.sending? env u).toList) := by
  have hquiet : ∀ {access : Access}, access = b.access → b.sending? env u = none →
      Rationed access (sent ++ (b.sending? env u).toList) := by
    intro access haccess hnone
    rw [haccess, hnone, Option.toList_none, List.append_nil]
    exact h
  cases hcb : u.callbackQuery with
  | some cb =>
    unfold processUpdate
    rw [hcb]
    exact hquiet (access_processCallback b env cb).1 (by simp [sending?, hcb])
  | none =>
    cases hm : u.message with
    | none =>
      unfold processUpdate
      rw [hcb, hm]
      exact hquiet rfl (by simp [sending?, hcb, hm])
    | some m =>
      have hsending := sending?_of_message env (b := b) hcb hm
      have haccess : (processUpdate uuids env b u).access =
          (b.processMessage uuids env m).access := by
        unfold processUpdate
        rw [hcb, hm]
      rw [haccess, access_processMessage]
      split
      · next code isResend hgate =>
        rw [hgate] at hsending
        rw [hsending, Option.toList_some]
        rcases gateDm_pair hgate with ⟨rfl, entry, hresent⟩ | ⟨rfl, hissued⟩
        · exact h.resent (s := ⟨code, toString m.userId, m.chatId, true⟩) rfl hresent
        · exact h.issue (s := ⟨code, toString m.userId, m.chatId, false⟩) rfl hissued
      · next hgate =>
        apply hquiet rfl
        rw [hsending]
        split
        · next code isResend hpair => exact absurd hpair (hgate code isResend)
        · rfl

/-- Over a whole batch. -/
theorem rationed_run (batch : List Update) {b : Batch} {sent : List Sending}
    (h : Rationed b.access sent) : Rationed (run (processUpdate uuids env) b batch).access
      (sent ++ (trace (processUpdate uuids env) b batch).filterMap
        fun t ↦ t.before.sending? env t.op) := by
  induction batch generalizing b sent with
  | nil => simpa [trace, run] using h
  | cons u batch ih =>
    have hrest := ih (rationed_processUpdate uuids env h u)
    rw [List.append_assoc] at hrest
    rw [trace, List.filterMap_cons]
    dsimp only
    cases hsending : b.sending? env u with
    | none =>
      rw [hsending] at hrest
      exact hrest
    | some s =>
      rw [hsending] at hrest
      exact hrest

/-- A batch that sends a code marks the access state. -/
theorem accessDirty_run (batch : List Update) (b : Batch) :
    (run (processUpdate uuids env) b batch).accessDirty =
      (b.accessDirty || !((trace (processUpdate uuids env) b batch).filterMap
        fun t ↦ t.before.sending? env t.op).isEmpty) := by
  induction batch generalizing b with
  | nil => simp [trace, run]
  | cons u batch ih =>
    have hrest := ih (processUpdate uuids env b u)
    rw [accessDirty_processUpdate] at hrest
    rw [trace, List.filterMap_cons]
    refine Eq.trans hrest ?_
    dsimp only
    cases b.sending? env u with
    | none => simp
    | some s => simp

end Batch

/-! ### The access list over a run -/

/-- The access list and the codes sent so far. -/
structure Gatehouse where
  access : Access
  sent : List Sending

namespace Gatehouse

/-- Nobody allowed yet, no code pending. -/
def start (policy : DmPolicy) : Gatehouse := ⟨⟨policy, [], .empty⟩, []⟩

/-- A batch is processed, on whatever the database holds; the operator enters a command. -/
inductive Op where
  | batch (env : Env) (db : Db) (updates : List Update)
  | command (cmd : Command) (now : Int)

variable (unicode : Unicode) (uuids : Uuids)

/-- One step: a batch writes the access list when it has changed it, a command when it
succeeds. -/
def next (s : Gatehouse) : Op → Gatehouse
  | .batch env db updates =>
    let done := Batch.process uuids env db s.access updates
    { access := if done.accessDirty then done.access else s.access
      sent := s.sent ++ Batch.sendings uuids env db s.access updates }
  | .command cmd now =>
    match cmd.execute unicode now s.access with
    | .ok (_, some access) => { s with access }
    | _ => s

/-- A step by which a sender gets on the list: the operator allows the id, or types a code that
was issued to it and has not expired. -/
inductive LetIn (unicode : Unicode) (id : String) : Step Gatehouse Op → Prop
  | allow {s s' : Gatehouse} {input : String} {now : Int}
      (hid : String.ofList (trim input.toList) = id) :
      LetIn unicode id ⟨s, .command (.allow input) now, s'⟩
  | pair {s s' : Gatehouse} {input : String} {now : Int} {stored : String} {entry : PendingEntry}
      (hpending : (stored, entry) ∈ s.access.pending.entries)
      (hcode : String.ofList (unicode.toLowercase stored.toList) = pairingCode unicode input)
      (hsender : entry.senderId = id) (hfresh : now < entry.expiresAt)
      (hissued : ∃ sending ∈ s.sent,
        sending.code = stored ∧ sending.senderId = id ∧ sending.isResend = false) :
      LetIn unicode id ⟨s, .command (.pair input) now, s'⟩

/-- What the gate promises of a step: nothing comes of a stranger's update, a sender is let in
by the operator only, few codes are pending, and none has been sent too often. -/
structure Guarded (t : Step Gatehouse Op) : Prop where
  refused : ∀ env db updates, t.op = .batch env db updates →
    ∀ bt ∈ Batch.steps uuids env db t.before.access updates,
      (∀ id ∈ bt.op.sender?, ¬ t.before.access.Admits id) → Batch.Refused env bt
  listed : ∀ id ∈ t.after.access.allowFrom,
    id ∈ t.before.access.allowFrom ∨ LetIn unicode id t
  capacity : t.after.access.pending.size ≤ pendingCap
  single : ∀ e ∈ t.after.access.pending.entries, ∀ e' ∈ t.after.access.pending.entries,
    e.2.senderId = e'.2.senderId → e = e'
  bounded : ∀ code earlier, earlier <+: t.after.sent → Bounded (sinceIssue code earlier)

/-! ### Steps -/

theorem rationed_start (policy : DmPolicy) :
    Rationed (start policy).access (start policy).sent := by
  have hnone : ∀ {e : String × PendingEntry}, e ∉ (start policy).access.pending.entries :=
    List.not_mem_nil
  constructor
  · exact Nat.zero_le _
  · exact fun e he ↦ absurd he hnone
  · exact fun e he ↦ absurd he hnone
  · exact fun e he ↦ absurd he hnone
  · intro code earlier hearlier
    obtain rfl := List.prefix_nil.mp hearlier
    exact ⟨Nat.zero_le _, fun s hs ↦ absurd hs List.not_mem_nil⟩

/-- A batch. -/
theorem rationed_batch {s : Gatehouse} (h : Rationed s.access s.sent) (env : Env) (db : Db)
    (updates : List Update) :
    Rationed (s.next unicode uuids (.batch env db updates)).access
      (s.next unicode uuids (.batch env db updates)).sent := by
  have hpruned : Rationed (pruneExpired s.access env.now).2 s.sent :=
    h.of_sublist List.filter_sublist
  have hrun := Batch.rationed_run uuids env updates
    (b := .start db (pruneExpired s.access env.now).2 (pruneExpired s.access env.now).1) hpruned
  have hdirty := Batch.accessDirty_run uuids env updates
    (.start db (pruneExpired s.access env.now).2 (pruneExpired s.access env.now).1)
  have hoffset : ∀ b : Batch, b.advanceOffset.access = b.access ∧
      b.advanceOffset.accessDirty = b.accessDirty := by
    intro b
    unfold Batch.advanceOffset
    split
    · exact ⟨rfl, rfl⟩
    · exact ⟨rfl, rfl⟩
  unfold next
  dsimp only
  unfold Batch.process
  cases hempty : updates.isEmpty with
  | true =>
    obtain rfl := List.isEmpty_iff.mp hempty
    simpa [Batch.sendings, Batch.steps, trace, Batch.start] using h
  | false =>
    simp only [Bool.false_eq_true, if_false]
    rw [(hoffset _).1, (hoffset _).2]
    unfold Batch.updates Batch.sendings Batch.steps
    dsimp only
    split
    · exact hrun
    · next hclean =>
      rw [hdirty, Bool.not_eq_true, Bool.or_eq_false_iff, Bool.not_eq_false',
        List.isEmpty_iff] at hclean
      rw [hclean.2, List.append_nil]
      exact h

/-- What a command leaves pending was pending before. -/
theorem sublist_execute {now : Int} {access access' : Access} {cmd : Command} {reply : String}
    (h : cmd.execute unicode now access = .ok (reply, some access')) :
    access'.pending.entries.Sublist access.pending.entries := by
  cases cmd with
  | pair code =>
    obtain ⟨stored, entry, -, -, hpending⟩ := Command.execute_pair_ok h
    rw [hpending]
    exact List.filter_sublist.trans List.filter_sublist
  | setPolicy value =>
    obtain ⟨p, -, rfl⟩ := Command.execute_setPolicy_ok h
    exact List.Sublist.refl _
  | allow senderId =>
    obtain ⟨-, rfl⟩ := Command.execute_allow_ok h
    exact List.Sublist.refl _
  | revoke senderId =>
    rw [Command.execute_revoke_ok h]

/-- Every step keeps the codes rationed. -/
theorem rationed_next {s : Gatehouse} (h : Rationed s.access s.sent) (op : Op) :
    Rationed (s.next unicode uuids op).access (s.next unicode uuids op).sent := by
  cases op with
  | batch env db updates => exact rationed_batch unicode uuids h env db updates
  | command cmd now =>
    unfold next
    dsimp only
    split
    · next reply access hdone => exact h.of_sublist (sublist_execute unicode hdone)
    · exact h

/-- The sender a pending code was issued to. -/
theorem letIn_pair {s s' : Gatehouse} {input id : String} {now : Int} {access : Access}
    {reply : String} (hs : Rationed s.access s.sent)
    (h : (Command.pair input).execute unicode now s.access = .ok (reply, some access))
    (hid : id ∈ access.allowFrom) : id ∈ s.access.allowFrom ∨
      LetIn unicode id ⟨s, .command (.pair input) now, s'⟩ := by
  obtain ⟨stored, entry, hmatch, hrights, -⟩ := Command.execute_pair_ok h
  have hid : id ∈ ((Effect.grant entry.senderId).apply s.access.rights).allowed := by
    rw [← hrights]
    exact hid
  by_cases hlisted : entry.senderId ∈ s.access.rights.allowed
  · rw [Effect.apply_grant_of_mem hlisted] at hid
    exact Or.inl hid
  · rw [Effect.apply_grant_of_not_mem hlisted, List.mem_append, List.mem_singleton] at hid
    refine hid.imp_right fun hnew ↦ ?_
    obtain ⟨hpending, hfresh⟩ := SortedMap.mem_retain.mp (List.mem_of_find?_eq_some hmatch)
    obtain ⟨sending, hsending, hcode, hto, hissue⟩ := hs.issued _ hpending
    refine .pair hpending ?_ hnew.symm (by simpa using hfresh)
      ⟨sending, hsending, hcode, hto.trans hnew.symm, hissue⟩
    simpa using List.find?_some hmatch

/-- Only the operator adds to the list. -/
theorem listed_next {s : Gatehouse} (h : Rationed s.access s.sent) (op : Op) (id : String)
    (hid : id ∈ (s.next unicode uuids op).access.allowFrom) :
    id ∈ s.access.allowFrom ∨ LetIn unicode id ⟨s, op, s.next unicode uuids op⟩ := by
  cases op with
  | batch env db updates =>
    have hrights : (s.next unicode uuids (.batch env db updates)).access.rights =
        s.access.rights := by
      unfold next
      dsimp only
      split
      · exact Batch.rights_process uuids env db s.access updates
      · rfl
    have hallowed : (s.next unicode uuids (.batch env db updates)).access.allowFrom =
        s.access.allowFrom := congrArg Rights.allowed hrights
    rw [hallowed] at hid
    exact Or.inl hid
  | command cmd now =>
    unfold next at hid ⊢
    dsimp only at hid ⊢
    split at hid
    · next reply access hdone =>
      cases cmd with
      | pair input => exact letIn_pair unicode h hdone hid
      | setPolicy value =>
        obtain ⟨p, -, rfl⟩ := Command.execute_setPolicy_ok hdone
        exact Or.inl hid
      | allow input =>
        obtain ⟨-, rfl⟩ := Command.execute_allow_ok hdone
        rcases List.mem_append.mp hid with hid | hid
        · exact Or.inl hid
        · exact Or.inr (.allow (List.mem_singleton.mp hid).symm)
      | revoke input =>
        rw [Command.execute_revoke_ok hdone] at hid
        exact Or.inl (List.mem_filter.mp hid).1
    · exact Or.inl hid

/-- What comes of an update is decided by the list as it was before the batch. -/
theorem refused_of_mem_steps {access : Access} {env : Env} {db : Db} {updates : List Update}
    {bt : Step Batch Update} (hbt : bt ∈ Batch.steps uuids env db access updates)
    (hsender : ∀ id ∈ bt.op.sender?, ¬ access.Admits id) : Batch.Refused env bt := by
  have hrights : bt.before.access.rights = access.rights :=
    (invariant_of_trace (I := fun b : Batch ↦ b.access.rights = access.rights)
      (rights_pruneExpired access env.now)
      (fun t ht hbefore ↦ by
        rw [after_of_mem_trace ht, Batch.rights_processUpdate]
        exact hbefore) bt hbt).1
  have hadmits : ∀ id, bt.before.access.Admits id ↔ access.Admits id := by
    intro id
    have hpolicy : bt.before.access.dmPolicy = access.dmPolicy := congrArg Rights.policy hrights
    have hallowed : bt.before.access.allowFrom = access.allowFrom :=
      congrArg Rights.allowed hrights
    simp [Access.Admits, hpolicy, hallowed]
  have hafter := after_of_mem_trace hbt
  obtain ⟨b, u, b'⟩ := bt
  obtain rfl : b' = Batch.processUpdate uuids env b u := hafter
  exact Batch.refused_processUpdate uuids env fun id hid ↦ fun ha ↦
    hsender id hid ((hadmits id).mp ha)

end Gatehouse

open Gatehouse in
/-- The gate never lets a stranger in, over every run of batches and commands. -/
theorem stranger_kept_out (unicode : Unicode) (uuids : Uuids) (policy : DmPolicy)
    (ops : List Gatehouse.Op) :
    (∀ t ∈ trace (Gatehouse.next unicode uuids) (.start policy) ops, Guarded unicode uuids t) ∧
    ∀ id ∈ (run (Gatehouse.next unicode uuids) (.start policy) ops).access.allowFrom,
      ∃ t ∈ trace (Gatehouse.next unicode uuids) (.start policy) ops, LetIn unicode id t := by
  have hguarded : ∀ t ∈ trace (Gatehouse.next unicode uuids) (.start policy) ops,
      Guarded unicode uuids t := by
    intro t ht
    obtain ⟨hbefore, hafter⟩ := invariant_of_trace
      (I := fun s : Gatehouse ↦ Rationed s.access s.sent) (rationed_start policy)
      (fun t ht hbefore ↦ by
        rw [after_of_mem_trace ht]
        exact rationed_next unicode uuids hbefore t.op) t ht
    constructor
    · intro env db updates _ bt hbt hsender
      exact refused_of_mem_steps uuids hbt hsender
    · intro id hid
      have hstep := after_of_mem_trace ht
      obtain ⟨s, op, s'⟩ := t
      obtain rfl : s' = s.next unicode uuids op := hstep
      exact listed_next unicode uuids hbefore op id hid
    · exact hafter.capacity
    · exact hafter.single
    · exact hafter.bounded
  refine ⟨hguarded, fun id hid ↦ ?_⟩
  obtain ⟨t, ht, hnew, hlisted⟩ := exists_step_of_run
    (P := fun s : Gatehouse ↦ id ∈ s.access.allowFrom) (s := .start policy)
    (List.not_mem_nil (a := id)) hid
  exact ⟨t, ht, ((hguarded t ht).listed id hlisted).resolve_left hnew⟩

namespace Gatehouse

/-- Two strangers write, the first twice, and the second draws the first one's code. -/
def twoStrangers : List Update :=
  [AccessFile.strangerUpdate,
    ⟨2, some ⟨11, some ⟨8, none⟩, 8, 0, some "hello?", none, none⟩, none, Or.inr rfl⟩,
    ⟨3, some ⟨12, some ⟨9, none⟩, 9, 0, some "hi", none, none⟩, none, Or.inr rfl⟩]

/-- A stranger writes, the operator types the code, and the next message is let in. -/
def pairedRun : List Op :=
  [.batch AccessFile.drawEnv .empty [AccessFile.strangerUpdate],
    .command (.pair " #ABC123 ") 0,
    .batch AccessFile.drawEnv .empty [AccessFile.strangerUpdate]]

end Gatehouse

open Gatehouse in
/-- A stranger is let in by the code sent to it. -/
theorem stranger_kept_out_paired :
    (run (Gatehouse.next .ascii .longer) (.start .pairing) pairedRun).access.allowFrom = ["8"] ∧
    ∃ t ∈ trace (Gatehouse.next .ascii .longer) (.start .pairing) pairedRun,
      LetIn .ascii "8" t := by
  have hlisted : (run (Gatehouse.next .ascii .longer) (.start .pairing) pairedRun).access.allowFrom =
      ["8"] := by decide
  refine ⟨hlisted, (stranger_kept_out .ascii .longer .pairing pairedRun).2 "8" ?_⟩
  rw [hlisted]
  exact List.mem_cons_self

open Gatehouse in
/-- A code drawn twice has been sent three times. -/
theorem stranger_kept_out_drawn_twice :
    let s := run (Gatehouse.next .ascii .longer) (.start .pairing)
      [.batch AccessFile.drawEnv .empty twoStrangers]
    maxPairingReplies < s.sent.countP (fun sending ↦ sending.code == "abc123") := by
  decide

end Claudebase.Telegram
