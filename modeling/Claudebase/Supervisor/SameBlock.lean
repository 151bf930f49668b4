import Claudebase.Supervisor.Classify
import Claudebase.Supervisor.Labels

/-!
# Which messages look the same whichever way they come

A message that is read from the backlog is pasted under one of three labels: the operator's, the
operator's dictated, and that of a peer. A message of the drain is pasted as one of an agent.
-/

namespace Claudebase.Supervisor
open Claudebase.Base
open Telegram (ChatMessage ChannelFrame TelegramMessageMeta telegramThread)

/-- What stands before a message between agents is one line, and names the sender when it is read
back. -/
structure PreambleReadsBack (parse : String → Option Json) (print : Json → String)
    (fromAgentId targetAgentId messageId : String) : Prop where
  oneLine : ∀ drained,
    '\n' ∉ (print (agentPreamble fromAgentId targetAgentId messageId drained)).toList
  sender : ∀ drained, ∃ v a2a,
    parse (print (agentPreamble fromAgentId targetAgentId messageId drained)) = some v ∧
      v.get? "agent_to_agent" = some a2a ∧ a2a.str? "from_agent_id" = some fromAgentId

/-! ### What is pasted -/

section

variable {unicode : Unicode}

theorem render_inj {source source' : Source} {content content' : String} :
    render unicode source content = render unicode source' content' ↔
      source.label unicode = source'.label unicode ∧ content = content' := by
  constructor
  · intro h
    have hsame := render_append_inj (h.trans (String.append_empty).symm)
    rwa [String.append_empty] at hsame
  · rintro ⟨hlabel, rfl⟩
    unfold render
    rw [hlabel]

theorem sanitizeNick_peer : sanitizeNick unicode "peer" = "peer" := by
  simp [sanitizeNick, unicode.isAlphanumeric_ascii, nickLimit]

theorem label_agent_inj {nick nick' : String} :
    (Source.agent nick).label unicode = (Source.agent nick').label unicode ↔
      sanitizeNick unicode nick = sanitizeNick unicode nick' := by
  rw [label_agent, label_agent, String.append_left_inj, String.append_right_inj]

/-- Only what comes from an agent is labelled as such. -/
theorem label_agent_ne {source : Source} (h : ∀ nick, source ≠ .agent nick) (nick : String) :
    (Source.agent nick).label unicode ≠ source.label unicode := by
  intro hsame
  have hchars := congrArg String.toList hsame
  cases source with
  | agent nick => exact absurd rfl (h nick)
  | callback label => cases label <;> simp at hchars
  | _ => simp at hchars

end

variable {parse : String → Option Json} {print : Json → String} {db : Registry.Db}
  {unicode : Unicode} {e : Envelope}

theorem pasteLive_channelNotification (content : String) (fields : List (String × Json)) :
    pasteLive parse db unicode (channelNotification content fields) =
      if content = "" then none
      else some (render unicode
        (classifyWith db (.obj fields) (splitAgentPreamble parse content).2).2
        (splitAgentPreamble parse content).1) := rfl

/-- What a row is pasted as. -/
theorem pasteBacklog_row (m : Sent) :
    pasteBacklog unicode (m.threadId e) (chatMessageJson (m.row e)) =
      if m.content = "" then none
      else some (render unicode (if m.isVoice then .telegramVoice
        else if (m.threadId e).startsWith "telegram:" then .telegram else .agent "peer") m.content) := by
  have hcontent : (chatMessageJson (m.row e)).str? "content" = some m.content := rfl
  have hvoice : (((chatMessageJson (m.row e)).path? ["meta", "voice"]).bind Json.asBool?).getD false
      = m.isVoice := by
    cases hv : m.isVoice <;> cases ht : m.topic <;>
      simp [chatMessageJson, Sent.row, Json.path?, Json.get?, List.lookup_cons, Json.asBool?, hv, ht]
  unfold pasteBacklog backlogMessage?
  rw [hcontent, hvoice]
  by_cases hempty : m.content = ""
  · rw [if_pos hempty, Option.filter_some_neg (by simpa using hempty)]
    rfl
  · rw [if_neg hempty, Option.filter_some_pos (by simpa using hempty)]
    rfl

theorem splitAgentPreamble_preamble {fromAgentId : String} (content : String)
    (h : PreambleReadsBack parse print fromAgentId e.targetAgentId e.messageId) (drained : Bool) :
    splitAgentPreamble parse (print
      (agentPreamble fromAgentId e.targetAgentId e.messageId drained) ++ "\n\n" ++ content) =
        (content, some fromAgentId) := by
  obtain ⟨v, a2a, hparse, hget, hfrom⟩ := h.sender drained
  have hsplit := @splitAtFirst_append_of_not_mem '\n' ['\n'] _ content.toList (h.oneLine drained)
  have hchars : ∀ head : String, (head ++ "\n\n" ++ content).toList =
      head.toList ++ (['\n', '\n'] ++ content.toList) := by
    intro head
    simp
  unfold splitAgentPreamble
  rw [hchars, hsplit]
  simp [hparse, hget, hfrom]

/-- A frame between agents. -/
theorem pasteLive_agentToAgent {fromAgentId : String} (content : String)
    (h : PreambleReadsBack parse print fromAgentId e.targetAgentId e.messageId) (drained : Bool) :
    pasteLive parse db unicode (buildChannelNotificationAgentToAgent print content fromAgentId
      e.targetAgentId e.messageId drained e.ts) =
        some (render unicode (.agent (nickFor db fromAgentId)) content) := by
  unfold buildChannelNotificationAgentToAgent
  rw [pasteLive_channelNotification, splitAgentPreamble_preamble content h drained]
  have hne : ∀ head : String, head ++ "\n\n" ++ content ≠ "" := by
    intro head hempty
    have hchars := congrArg String.toList hempty
    simp at hchars
  rw [if_neg (hne _)]
  simp [classifyWith, Json.str?, Json.get?, List.lookup_cons, Json.asStr?, Inbox.agentThread]

theorem pasteLive_callback (body : String) (label : Option String) :
    pasteLive parse db unicode (buildChannelNotificationCallback body label e.targetAgentId
      e.messageId e.ts) =
        if body = "" then none
        else some (render unicode (.callback (label.filter fun l ↦ l ≠ ""))
          (splitAgentPreamble parse body).1) := by
  unfold buildChannelNotificationCallback
  rw [pasteLive_channelNotification]
  cases label <;> simp [classifyWith, Json.str?, Json.get?, List.lookup_cons, Json.asStr?, Json.ofOption]

theorem pasteLive_pool (line pool reqId : String) (callType : Option String) :
    pasteLive parse db unicode (buildChannelNotificationPool line pool reqId callType
      e.targetAgentId e.messageId e.ts) =
        if line = "" then none
        else some (render unicode (.poolJob pool reqId (callType.filter fun c ↦ c ≠ ""))
          (splitAgentPreamble parse line).1) := by
  unfold buildChannelNotificationPool
  rw [pasteLive_channelNotification]
  cases callType <;> simp [classifyWith, Json.str?, Json.get?, List.lookup_cons, Json.asStr?, Json.ofOption]

theorem pasteLive_reminder (content : String) (entryId : Int) :
    pasteLive parse db unicode (buildChannelNotificationReminder content entryId e.targetAgentId
      e.messageId e.ts) =
        if content = "" then none
        else some (render unicode (.reminder (toString entryId))
          (splitAgentPreamble parse content).1) := by
  unfold buildChannelNotificationReminder
  rw [pasteLive_channelNotification]
  simp [classifyWith, Json.str?, Json.get?, List.lookup_cons, Json.asStr?]

/-- The number of a chat is not the name of a thread. -/
theorem not_startsWith_of_parseI64 {s : String} {n : Int} (h : parseI64 s.toList = some n) :
    s.startsWith "agent:" = false ∧ s.startsWith "telegram:" = false := by
  simp only [String.startsWith_string_eq_false_iff]
  constructor
  · rintro ⟨rest, hrest⟩
    rw [← hrest] at h
    cases h
  · rintro ⟨rest, hrest⟩
    rw [← hrest] at h
    cases h

/-- A bare number is a chat of the operator's. -/
theorem classifyWith_of_parseI64 {fields : Json} {chat : String} {n : Int} (hint : Option String)
    (hsource : fields.str? "source" = none) (hthread : fields.str? "thread" = none)
    (hchat : fields.str? "chat_id" = some chat) (hn : parseI64 chat.toList = some n) :
    (classifyWith db fields hint).2 =
      if ((fields.get? "voice").bind Json.asBool?).getD false then .telegramVoice
      else .telegram := by
  obtain ⟨hagent, htelegram⟩ := not_startsWith_of_parseI64 hn
  unfold classifyWith
  dsimp only
  rw [hsource, hthread, hchat]
  simp [hagent, htelegram, hn]

theorem pasteLive_telegramNotification {frame : ChannelFrame} {n : Int}
    (hn : parseI64 frame.chatId.toList = some n) :
    pasteLive parse db unicode (telegramNotification frame) =
      if frame.content = "" then none
      else some (render unicode (if frame.voice then .telegramVoice else .telegram)
        (splitAgentPreamble parse frame.content).1) := by
  obtain ⟨content, chatId, messageId, user, userId, ts, voice, threadId, target⟩ := frame
  unfold telegramNotification
  rw [pasteLive_channelNotification]
  cases voice <;> cases threadId <;> cases target <;>
    rw [classifyWith_of_parseI64 _ rfl rfl rfl hn] <;> rfl

theorem pasteLive_telegram (fields : TelegramMessageMeta) (content : String)
    (hmin : -9223372036854775808 ≤ fields.chatId) (hmax : fields.chatId < 9223372036854775808) :
    pasteLive parse db unicode (telegramNotification
      (Telegram.buildChannelNotificationTelegram content fields (some e.targetAgentId))) =
        if content = "" then none
        else some (render unicode (if fields.isVoice then .telegramVoice else .telegram)
          (splitAgentPreamble parse content).1) := by
  have hchat : parseI64 (toString fields.chatId).toList = some fields.chatId :=
    parseI64_decimal hmin hmax
  exact @pasteLive_telegramNotification parse db unicode
    (Telegram.buildChannelNotificationTelegram content fields (some e.targetAgentId)) _ hchat

/-! ### The same or not -/

theorem splitAgentPreamble_eq_self (content : String) :
    (splitAgentPreamble parse content).1 = content ↔ ¬ HasPreamble parse content := by
  unfold splitAgentPreamble
  constructor
  · rintro hsame ⟨head, rest, v, a2a, hsplit, hparse, hget⟩
    simp only [hsplit, hparse, Option.bind_some, hget] at hsame
    -- what is left is shorter than the text
    have hshort := length_after_splitAtFirst (by simp) hsplit
    rw [← congrArg String.toList hsame, String.toList_ofList] at hshort
    omega
  · intro hnone
    split
    · rfl
    · next head rest hsplit =>
      split
      · rfl
      · next a2a hget =>
        obtain ⟨v, hparse, hget⟩ := Option.bind_eq_some_iff.mp hget
        exact absurd ⟨head, rest, v, a2a, hsplit, hparse, hget⟩ hnone

theorem startsWith_telegram_agentThread (agentId : String) :
    (Inbox.agentThread agentId).startsWith "telegram:" = false := by
  simp [Inbox.agentThread]

theorem looksSame_agentSend {fromAgentId : String} (content : String)
    (h : PreambleReadsBack parse print fromAgentId e.targetAgentId e.messageId) :
    LooksSame parse print db unicode e (.agentSend fromAgentId content) ↔
      content ≠ "" ∧ sanitizeNick unicode (nickFor db fromAgentId) = "peer" := by
  have hlive := @pasteLive_agentToAgent parse print db unicode e fromAgentId content h
  have hdrain : pasteLive parse db unicode ((Sent.agentSend fromAgentId content).drainFrame print e) =
      pasteLive parse db unicode ((Sent.agentSend fromAgentId content).frame print e) :=
    (hlive true).trans (hlive false).symm
  have hpasted : pasteLive parse db unicode ((Sent.agentSend fromAgentId content).frame print e) =
      some (render unicode (.agent (nickFor db fromAgentId)) content) := hlive false
  have hthread : ((Sent.agentSend fromAgentId content).threadId e).startsWith "telegram:" = false :=
    startsWith_telegram_agentThread e.targetAgentId
  unfold LooksSame
  rw [pasteBacklog_row, hthread, hpasted]
  by_cases hempty : content = ""
  · simp [Sent.content, hempty]
  · simp only [Sent.content, Sent.isVoice, hempty, Bool.false_eq_true, ↓reduceIte, ne_eq,
      not_false_eq_true, true_and, Option.some.injEq, render_inj, label_agent_inj, sanitizeNick_peer,
      and_true, hdrain, hpasted, implies_true]
    exact eq_comm

theorem looksSame_telegram (fields : TelegramMessageMeta) (content : String)
    (hchat : (Sent.telegram fields content).ChatFits) :
    LooksSame parse print db unicode e (.telegram fields content) ↔ ¬ HasPreamble parse content := by
  have hpasted : pasteLive parse db unicode ((Sent.telegram fields content).frame print e) =
      if content = "" then none
      else some (render unicode (if fields.isVoice then .telegramVoice else .telegram)
        (splitAgentPreamble parse content).1) := pasteLive_telegram fields content hchat.1 hchat.2
  have hthread : ((Sent.telegram fields content).threadId e).startsWith "telegram:" = true := by
    simp [Sent.threadId, telegramThread]
  have hnone : splitAgentPreamble parse "" = ("", none) := rfl
  rw [← splitAgentPreamble_eq_self]
  unfold LooksSame
  rw [pasteBacklog_row, hthread, hpasted]
  by_cases hempty : content = ""
  · subst hempty
    rw [hnone]
    exact iff_of_true ⟨rfl, False.elim⟩ rfl
  · simp only [Sent.content, Sent.isVoice, Sent.InInbox, hempty, ↓reduceIte, Option.some.injEq,
      render_inj, true_and, false_implies, and_true]
    exact eq_comm

/-- The drain makes a message of an agent of everything. -/
theorem not_looksSame {m : Sent} {source : Source} {content : String}
    (hsource : ∀ nick, source ≠ .agent nick) (hinbox : m.InInbox)
    (hread : PreambleReadsBack parse print m.fromAgent e.targetAgentId e.messageId)
    (hpasted : pasteLive parse db unicode (m.frame print e) =
      if m.content = "" then none else some (render unicode source content)) :
    ¬ LooksSame parse print db unicode e m := by
  rintro ⟨-, hdrain⟩
  have hdrained := hdrain hinbox
  unfold Sent.drainFrame at hdrained
  rw [pasteLive_agentToAgent m.content hread true, hpasted] at hdrained
  split at hdrained
  · cases hdrained
  · exact label_agent_ne hsource _ (render_inj.mp (Option.some.inj hdrained)).1

/-- A message looks the same whichever way it comes if and only if it says all of what it is. -/
theorem looksSame_iff (m : Sent) (hchat : m.ChatFits) (hread : m.InInbox →
      PreambleReadsBack parse print m.fromAgent e.targetAgentId e.messageId) :
    LooksSame parse print db unicode e m ↔ SaysAll parse db unicode m := by
  cases m with
  | agentSend fromAgentId content => exact looksSame_agentSend content (hread trivial)
  | callback label body =>
    exact iff_of_false (not_looksSame (by intro _ h; cases h) trivial (hread trivial) (pasteLive_callback body label))
      id
  | poolJob pool reqId callType line =>
    exact iff_of_false (not_looksSame (by intro _ h; cases h) trivial (hread trivial)
      (pasteLive_pool line pool reqId callType)) id
  | reminder entryId content =>
    exact iff_of_false (not_looksSame (by intro _ h; cases h) trivial (hread trivial)
      (pasteLive_reminder content entryId)) id
  | telegram fields content => exact looksSame_telegram fields content hchat

/-- A line of JSON as it is written before the message `m1` of `peer` to `worker`. -/
def peerPreamble (drained : Bool) : String :=
  "\x7b\"agent_to_agent\":\x7b\"drained_from_dnd\":" ++ toString drained ++
    ",\"from_agent_id\":\"peer\",\"message_id\":\"m1\",\"target_agent_id\":\"worker\"," ++
    "\"thread\":\"agent:worker\"\x7d\x7d"

theorem peer_reads_back : PreambleReadsBack
    (fun text ↦ if text = peerPreamble true then some (agentPreamble "peer" "worker" "m1" true)
      else if text = peerPreamble false then some (agentPreamble "peer" "worker" "m1" false)
      else none)
    (fun v ↦ peerPreamble
      (((v.path? ["agent_to_agent", "drained_from_dnd"]).bind Json.asBool?).getD false))
    "peer" "worker" "m1" := by
  constructor
  · intro drained
    cases drained <;> decide +kernel
  · intro drained
    cases drained
    · exact ⟨_, _, (if_neg (by decide +kernel)).trans (if_pos rfl), rfl, rfl⟩
    · exact ⟨_, _, if_pos rfl, rfl, rfl⟩

theorem looksSame_iff_peer :
    LooksSame
      (fun text ↦ if text = peerPreamble true then some (agentPreamble "peer" "worker" "m1" true)
        else if text = peerPreamble false then some (agentPreamble "peer" "worker" "m1" false)
        else none)
      (fun v ↦ peerPreamble
        (((v.path? ["agent_to_agent", "drained_from_dnd"]).bind Json.asBool?).getD false))
      .empty .ascii ⟨"worker", "m1", 0, "2026-08-01T00:00:00.000Z"⟩ (.agentSend "peer" "ready") :=
  (looksSame_iff (.agentSend "peer" "ready") trivial fun _ ↦ peer_reads_back).mpr
    ⟨by decide, by decide⟩

/-- The result of a build that comes back under the name of a peer. -/
theorem looksSame_iff_callback : ¬ ∃ parse print db, LooksSame parse print db .ascii
    ⟨"worker", "m1", 0, "2026-08-01T00:00:00.000Z"⟩ (.callback (some "ci") "build failed") := by
  rintro ⟨parse, print, db, hbacklog, -⟩
  have hlive := @pasteLive_callback parse db .ascii
    ⟨"worker", "m1", 0, "2026-08-01T00:00:00.000Z"⟩ "build failed" (some "ci")
  have hrest : (splitAgentPreamble parse "build failed").1 = "build failed" := rfl
  rw [hrest] at hlive
  rw [pasteBacklog_row] at hbacklog
  exact absurd (hbacklog.trans hlive) (by decide +kernel)

end Claudebase.Supervisor
