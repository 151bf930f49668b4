import Claudebase.Base.Json
import Claudebase.Telegram.Inbound

/-!
# Asking the operator

`handle_chat_ask`, `src/daemon/server.rs:2515–2688`, and
`validate_callback_data_budget`, `src/daemon/pending_asks.rs:271–299`. A question is checked,
sent as a keyboard, and stored once Telegram has taken it. Every button carries the id of its
question and, behind a prefix for a multi-select one, the value it stands for.
-/

namespace Claudebase.Telegram
open Claudebase.Base

/-- `DEFAULT_TTL_MS`: a question is open for a day. -/
def defaultTtlMs : Int := 24 * 60 * 60 * 1000

/-- The most bytes a button may carry. -/
def callbackDataLimit : Nat := 64

/-- A refused tool call. -/
structure ToolError where
  code : Int
  message : String
  deriving DecidableEq, Repr

/-- Why a keyboard has not been sent. -/
inductive SendError where
  | notInitialised
  | failed (reason : String)
  | ackLost
  deriving DecidableEq, Repr

/-- How `chat_ask` reports it. -/
def SendError.message : SendError → String
  | .notInitialised => "telegram outbound not initialised"
  | .failed reason => "telegram send failed: " ++ reason
  | .ackLost => "telegram send ack lost"

/-- One option: its label and its value. -/
def readOption (seen : List String) (entry : Json) : Except ToolError (String × String) := do
  let label := (entry.str? "label").getD ""
  require (label ≠ "") ⟨-32602, "each option needs a non-empty 'label'"⟩
  let value := (entry.str? "value").getD ""
  require (value ≠ "") ⟨-32602, "each option needs a non-empty 'value'"⟩
  require (value ∉ seen) ⟨-32602, "option values must be unique"⟩
  return (label, value)

/-- The options in order, their values all different. -/
def readOptions (seen : List String) : List Json → Except ToolError (List (String × String))
  | [] => pure []
  | entry :: entries => do
    let o ← readOption seen entry
    let rest ← readOptions (o.2 :: seen) entries
    return o :: rest

/-- `validate_callback_data_budget`: an option whose button would carry too much is reported.
`debug` spells a text with quotes. -/
def validateCallbackDataBudget (debug : String → String) (askId : String) (multi : Bool)
    (options : List (String × String)) : Except String Unit :=
  let overhead := byteLength askId + byteLength (if multi then ":toggle:" else ":")
  match options.find? fun o ↦ callbackDataLimit < overhead + byteLength o.2 with
  | none => .ok ()
  | some o =>
    .error ("callback_data budget exceeded for option \"" ++ o.1 ++ "\" (value=" ++ debug o.2 ++
      ", total=" ++ toString (overhead + byteLength o.2) ++ " > 64 bytes); shorten value to <= " ++
      toString (callbackDataLimit - overhead) ++ " bytes")

/-- What the button of a value carries. -/
def callbackData (askId : String) (multi : Bool) (value : String) : String :=
  if multi then askId ++ ":toggle:" ++ value else askId ++ ":" ++ value

/-- The options of a request: between one and eight. -/
def requestedOptions (options : Option Json) : Except ToolError (List Json) :=
  match options.bind Json.asArray? with
  | none => .error ⟨-32602, "options must be an array"⟩
  | some entries =>
    if entries = [] ∨ 8 < entries.length then
      .error ⟨-32602, "options must be a non-empty array of up to 8 entries"⟩
    else .ok entries

/-- `handle_chat_ask`. The ids drawn before are `taken`, the session behind the connection is
`requester`, and `send` says what became of the keyboard. -/
def handleChatAsk (uuids : Uuids) (debug : String → String) (db : Db) (taken : List String)
    (seed : Nat) (args : Json) (requester : Option String)
    (send : KeyboardOutbound → Except SendError Int) (now : Int) :
    Except ToolError (PendingAsk × Db) := do
  let thread := (args.str? "thread").getD ""
  let question := (args.str? "question").getD ""
  let multi := ((args.get? "multi").bind Json.asBool?).getD false
  require ((stripPrefix "telegram:" thread).isSome) ⟨-32602, "thread must start with 'telegram:'"⟩
  let chatId ← okOr (parseI64 (trimStartMatches "telegram:".toList thread.toList))
    ⟨-32602, "thread chat_id must be integer"⟩
  require (trim question.toList ≠ []) ⟨-32602, "question must be non-empty"⟩
  let entries ← requestedOptions (args.get? "options")
  let options ← readOptions [] entries
  let askId := uuids.new taken seed
  let _ ← (validateCallbackDataBudget debug askId multi options).mapError (ToolError.mk (-32602))
  let agentId ← okOr requester
    ⟨-32603, "no alive agent_registry row for this connection — call agent_register first"⟩
  let topic := (args.str? "message_thread_id").bind fun s ↦ parseI64 s.toList
  let buttons := options.map fun o ↦ (o.1, callbackData askId multi o.2)
  let messageId ← (send ⟨chatId, topic, question, buttons⟩).mapError fun e ↦
    ⟨-32603, e.message⟩
  let ask : PendingAsk :=
    ⟨askId, chatId, topic, messageId, agentId, question, options, multi, none, now,
      now + defaultTtlMs⟩
  let db' ← okOr (db.insertPending ask) ⟨-32603, "pending_asks insert failed"⟩
  return (ask, db')

/-- A question asked carries the id drawn for it, nothing selected, and is stored. -/
theorem handleChatAsk_eq_ok {uuids : Uuids} {debug : String → String} {db db' : Db}
    {taken : List String} {seed : Nat} {args : Json} {requester : Option String}
    {send : KeyboardOutbound → Except SendError Int} {now : Int} {ask : PendingAsk}
    (h : handleChatAsk uuids debug db taken seed args requester send now = .ok (ask, db')) :
    ask.askId = uuids.new taken seed ∧ ask.selectedValues = none ∧
      ask.expiresAt = now + defaultTtlMs ∧ db.insertPending ask = some db' := by
  unfold handleChatAsk at h
  obtain ⟨_, _, h⟩ := bind_eq_ok.mp h
  obtain ⟨chatId, _, h⟩ := bind_eq_ok.mp h
  obtain ⟨_, _, h⟩ := bind_eq_ok.mp h
  obtain ⟨entries, _, h⟩ := bind_eq_ok.mp h
  obtain ⟨options, _, h⟩ := bind_eq_ok.mp h
  obtain ⟨_, _, h⟩ := bind_eq_ok.mp h
  obtain ⟨agentId, _, h⟩ := bind_eq_ok.mp h
  obtain ⟨messageId, _, h⟩ := bind_eq_ok.mp h
  obtain ⟨db'', hstored, h⟩ := bind_eq_ok.mp h
  obtain ⟨rfl, rfl⟩ := Prod.mk.inj (pure_eq_ok.mp h)
  exact ⟨rfl, rfl, rfl, okOr_eq_ok.mp hstored⟩

/-! ### Taps on a question -/

namespace Batch

/-- The question a tap names, with what it says to it. -/
def named? (cb : CallbackQuery) : Option (String × String) :=
  let data := cb.data.getD ""
  if (stripPrefix "start:" data).isSome || (stripPrefix "startswitch:" data).isSome then none
  else (splitAtFirst [':'] data.toList).map fun p ↦ (String.ofList p.1, String.ofList p.2)

/-- The question an update reaches: the one a tap names, when the gate lets the tap in. -/
def reached? (b : Batch) (u : Update) : Option (String × String) :=
  u.callbackQuery.bind fun cb ↦
    if gateCallback b.access (toString cb.sender.id) then named? cb else none

/-- Nothing has come of an update. -/
structure Idle (t : Step Batch Update) : Prop where
  db : t.after.db = t.before.db
  messagesInserted : t.after.messagesInserted = t.before.messagesInserted
  notifications : t.after.notifications = t.before.notifications
  pairReplies : t.after.pairReplies = t.before.pairReplies
  keyboardEdits : t.after.keyboardEdits = t.before.keyboardEdits
  keyboards : t.after.keyboards = t.before.keyboards

/-- The answer to a question is published. -/
def Publishes (ask : PendingAsk) (answer : CallbackAnswer) (t : Step Batch Update) : Prop :=
  ∃ frame, frame.content = answer.preamble ask.askId ∧
    t.after.notifications = t.before.notifications ++ [(telegramThread ask.chatId, frame)]

/-! #### Questions left alone -/

theorem pendingAsks_handleSwitch (db : Db) (host : Host) (chatId : Int) (threadId : Option Int)
    (sender : Int) (name : String) (now : Int) :
    (handleSwitch db host chatId threadId sender name now).2.pendingAsks = db.pendingAsks := by
  unfold handleSwitch
  split
  · rfl
  · extract_lets bind
    split
    · rfl
    · split
      · rfl
      · split
        · rfl
        · rfl

theorem pendingAsks_tapStart (b : Batch) (env : Env) (cb : CallbackQuery) (ref : MessageRef)
    (suffix : String) : (b.tapStart env cb ref suffix).db.pendingAsks = b.db.pendingAsks := by
  unfold tapStart
  split
  · rfl
  · dsimp only
    split
    · rfl
    · rfl
  · rfl

theorem pendingAsks_processMessage (b : Batch) (uuids : Uuids) (env : Env) (m : Message) :
    (b.processMessage uuids env m).db.pendingAsks = b.db.pendingAsks := by
  have hdeliver : ∀ content, (b.deliver uuids env m content).db.pendingAsks = b.db.pendingAsks := by
    intro content
    unfold deliver
    extract_lets stored b'
    split
    · next cmd _ =>
      cases cmd with
      | start => rfl
      | whoami => rfl
      | agents => rfl
      | switch name => exact pendingAsks_handleSwitch b'.db _ _ _ _ _ _
    · unfold route
      dsimp only
      cases b'.db.resolveRouting m.chatId m.messageThreadId with
      | none => rfl
      | some agentId => rfl
  unfold processMessage
  dsimp only
  split
  · rfl
  · rfl
  · split
    · exact hdeliver _
    · exact hdeliver _
    · rfl

/-! #### What a tap does -/

variable (uuids : Uuids) (env : Env) {b : Batch} {u : Update}

/-- A tap on a question is acknowledged and handled by the question's kind. -/
theorem processUpdate_of_reached {askId suffix : String} (h : b.reached? u = some (askId, suffix)) :
    ∃ cb, processUpdate uuids env b u =
      { (b.acknowledge cb).tapAsk env cb askId suffix with
        maxId := max b.maxId u.updateId, seen := b.seen + 1 } := by
  unfold reached? at h
  obtain ⟨cb, hcb, h⟩ := Option.bind_eq_some_iff.mp h
  split at h
  · next hgate =>
    have hempty : cb.data.getD "" ≠ "" := by
      intro hdata
      have hnone : named? cb = none := by
        unfold named?
        rw [hdata]
        rfl
      rw [hnone] at h
      cases h
    unfold named? at h
    dsimp only at h
    split at h
    · cases h
    · next hstart =>
      rw [Bool.or_eq_true, not_or, Bool.not_eq_true, Bool.not_eq_true, Option.isSome_eq_false_iff,
        Option.isNone_iff_eq_none, Option.isSome_eq_false_iff, Option.isNone_iff_eq_none] at hstart
      obtain ⟨parts, hparts, heq⟩ := Option.map_eq_some_iff.mp h
      obtain ⟨rfl, rfl⟩ := Prod.mk.inj heq
      refine ⟨cb, ?_⟩
      unfold processUpdate
      rw [hcb]
      dsimp only
      unfold processCallback
      rw [hgate, if_neg (by simp)]
      dsimp only
      rw [if_neg (by simpa using hempty), hstart.1, hstart.2]
      dsimp only
      rw [hparts]
  · cases h

/-- Everything but a tap on a question leaves the questions alone. -/
theorem pendingAsks_processUpdate (h : b.reached? u = none) :
    (processUpdate uuids env b u).db.pendingAsks = b.db.pendingAsks := by
  unfold processUpdate
  dsimp only
  split
  · next cb hcb =>
    unfold processCallback
    split
    · rfl
    · next hgate =>
      have hgate : gateCallback b.access (toString cb.sender.id) = true := by simpa using hgate
      have hnamed : named? cb = none := by
        unfold reached? at h
        rw [hcb, Option.bind_some, hgate] at h
        exact h
      dsimp only
      split
      · rfl
      · split
        · cases cb.message with
          | none => rfl
          | some ref => exact pendingAsks_tapStart (b.acknowledge cb) env cb ref _
        · cases cb.message with
          | none => rfl
          | some ref => exact pendingAsks_handleSwitch _ _ _ _ _ _ _
        · next hstart hswitch =>
          unfold named? at hnamed
          dsimp only at hnamed
          rw [hstart, hswitch] at hnamed
          split
          · rfl
          · next parts hparts =>
            rw [hparts] at hnamed
            cases hnamed
  · next m _ hm => exact pendingAsks_processMessage b uuids env m
  · rfl

/-- A question that is not stored. -/
theorem idle_of_unknown {askId suffix : String} (h : b.reached? u = some (askId, suffix))
    (hrow : b.db.getPending askId = none) : Idle ⟨b, u, processUpdate uuids env b u⟩ := by
  obtain ⟨cb, heq⟩ := processUpdate_of_reached uuids env h
  have htap : (b.acknowledge cb).tapAsk env cb askId suffix = b.acknowledge cb := by
    unfold tapAsk
    rw [show (b.acknowledge cb).db.getPending askId = none from hrow]
  rw [heq, htap]
  exact ⟨rfl, rfl, rfl, rfl, rfl, rfl⟩

/-- Any tap answers a single-select question. -/
theorem answered_single {askId suffix : String} {ask : PendingAsk}
    (h : b.reached? u = some (askId, suffix)) (hrow : b.db.getPending askId = some ask)
    (hsingle : ask.multi = false) :
    Publishes ask (.single suffix) ⟨b, u, processUpdate uuids env b u⟩ ∧
      (processUpdate uuids env b u).db.pendingAsks = b.db.pendingAsks.deleteKey askId := by
  obtain ⟨cb, heq⟩ := processUpdate_of_reached uuids env h
  obtain rfl : ask.askId = askId := (Table.get?_eq_some_iff.mp hrow).2
  have htap : (b.acknowledge cb).tapAsk env cb ask.askId suffix =
      (b.acknowledge cb).finalize env cb ask (.single suffix) := by
    unfold tapAsk
    rw [show (b.acknowledge cb).db.getPending ask.askId = some ask from hrow]
    simp [hsingle]
  rw [heq, htap]
  exact ⟨⟨_, rfl, rfl⟩, rfl⟩

/-- `Done` answers a multi-select question with its selection. -/
theorem answered_multi {askId : String} {ask : PendingAsk}
    (h : b.reached? u = some (askId, "done")) (hrow : b.db.getPending askId = some ask)
    (hmulti : ask.multi = true) :
    Publishes ask (.multi (ask.selectedValues.getD [])) ⟨b, u, processUpdate uuids env b u⟩ ∧
      (processUpdate uuids env b u).db.pendingAsks = b.db.pendingAsks.deleteKey askId := by
  obtain ⟨cb, heq⟩ := processUpdate_of_reached uuids env h
  obtain rfl : ask.askId = askId := (Table.get?_eq_some_iff.mp hrow).2
  have htap : (b.acknowledge cb).tapAsk env cb ask.askId "done" =
      (b.acknowledge cb).finalize env cb ask (.multi (ask.selectedValues.getD [])) := by
    unfold tapAsk
    rw [show (b.acknowledge cb).db.getPending ask.askId = some ask from hrow]
    simp [hmulti]
  rw [heq, htap]
  exact ⟨⟨_, rfl, rfl⟩, rfl⟩

/-- The other buttons of a multi-select question change its selection. -/
theorem toggled_multi {askId value : String} {ask : PendingAsk}
    (h : b.reached? u = some (askId, "toggle:" ++ value)) (hrow : b.db.getPending askId = some ask)
    (hmulti : ask.multi = true) :
    (processUpdate uuids env b u).notifications = b.notifications ∧
      (processUpdate uuids env b u).keyboardEdits ≠ b.keyboardEdits ∧
      (processUpdate uuids env b u).db =
        b.db.updateSelectedValues askId (toggle (ask.selectedValues.getD []) value) := by
  obtain ⟨cb, heq⟩ := processUpdate_of_reached uuids env h
  have hdone : "toggle:" ++ value ≠ "done" := by
    intro hsame
    have hchars := congrArg String.toList hsame
    simp at hchars
  have hstrip : stripPrefix "toggle:" ("toggle:" ++ value) = some value :=
    stripPrefix_eq_some_iff.mpr rfl
  rw [heq]
  unfold tapAsk
  rw [show (b.acknowledge cb).db.getPending askId = some ask from hrow]
  dsimp only
  rw [if_neg (by simp [hmulti]), if_neg hdone, hstrip]
  exact ⟨rfl, by simp [acknowledge], rfl⟩

/-- A tap on a multi-select question that no button of it sends. -/
theorem idle_of_malformed {askId suffix : String} {ask : PendingAsk}
    (h : b.reached? u = some (askId, suffix)) (hrow : b.db.getPending askId = some ask)
    (hmulti : ask.multi = true) (hdone : suffix ≠ "done")
    (htoggle : stripPrefix "toggle:" suffix = none) :
    Idle ⟨b, u, processUpdate uuids env b u⟩ := by
  obtain ⟨cb, heq⟩ := processUpdate_of_reached uuids env h
  have htap : (b.acknowledge cb).tapAsk env cb askId suffix = b.acknowledge cb := by
    unfold tapAsk
    rw [show (b.acknowledge cb).db.getPending askId = some ask from hrow]
    simp [hmulti, hdone, htoggle]
  rw [heq, htap]
  exact ⟨rfl, rfl, rfl, rfl, rfl, rfl⟩

/-- A selection without repeats stays one, and the value tapped changes sides. -/
theorem nodup_toggle {current : List String} {value : String} (h : current.Nodup) :
    (toggle current value).Nodup := by
  unfold toggle
  split
  · exact h.erase value
  · next hnew => exact h.append (List.nodup_singleton value) (by simpa using hnew)

theorem mem_toggle {current : List String} {value v : String} (h : current.Nodup) :
    v ∈ toggle current value ↔ if value = v then v ∉ current else v ∈ current := by
  unfold toggle
  by_cases heq : value = v
  · subst heq
    by_cases hmem : value ∈ current
    · simp [hmem, h.mem_erase_iff]
    · simp [hmem]
  · by_cases hmem : value ∈ current
    · simp [hmem, heq, h.mem_erase_iff, Ne.symm heq]
    · simp [hmem, heq, Ne.symm heq]

end Batch

end Claudebase.Telegram
