import Claudebase.Telegram.Batch

/-!
# What the inbound path does

A tap that is let in does what it asks for: its question is answered and closed, its
selection kept, its switch made. A message that is let in is stored once, as a row nobody
has been handed yet; nothing else writes a message. A batch appends such rows and leaves the
others, the parked notes and, until its end, the offset alone.
-/

namespace Claudebase.Telegram
open Claudebase.Base

namespace Batch

/-! ### What a tap does -/

theorem sameInbox_finalize (b : Batch) (env : Env) (cb : CallbackQuery) (ask : PendingAsk)
    (answer : CallbackAnswer) : SameInbox b.db (b.finalize env cb ask answer).db := ⟨rfl, rfl, rfl⟩

theorem sameInbox_tapAsk (b : Batch) (env : Env) (cb : CallbackQuery) (askId suffix : String) :
    SameInbox b.db (b.tapAsk env cb askId suffix).db := by
  unfold tapAsk
  split
  · exact .refl _
  · split
    · exact sameInbox_finalize b env cb _ _
    · dsimp only
      split
      · exact sameInbox_finalize b env cb _ _
      · split
        · exact .refl _
        · exact ⟨rfl, rfl, rfl⟩

theorem sameInbox_tapStart (b : Batch) (env : Env) (cb : CallbackQuery) (ref : MessageRef)
    (suffix : String) : SameInbox b.db (b.tapStart env cb ref suffix).db := by
  unfold tapStart
  split
  · exact .refl _
  · dsimp only
    split
    · exact .refl _
    · exact .refl _
  · exact .refl _

theorem sameInbox_tapSwitch (b : Batch) (env : Env) (cb : CallbackQuery) (ref : MessageRef)
    (name : String) : SameInbox b.db (b.tapSwitch env cb ref name).db :=
  sameInbox_handleSwitch _ _ _ _ _ _ _

/-- A tap changes no message and no note. -/
theorem sameInbox_processCallback (b : Batch) (env : Env) (cb : CallbackQuery) :
    SameInbox b.db (b.processCallback env cb).db := by
  unfold processCallback
  split
  · exact .refl _
  · dsimp only
    split
    · exact .refl _
    · split
      · cases cb.message with
        | none => exact .refl _
        | some ref => exact sameInbox_tapStart (b.acknowledge cb) env cb ref _
      · cases cb.message with
        | none => exact .refl _
        | some ref => exact sameInbox_tapSwitch (b.acknowledge cb) env cb ref _
      · split
        · exact .refl _
        · exact sameInbox_tapAsk (b.acknowledge cb) env cb _ _

/-- The question a tap is about, with what it says to it. -/
def asked? (db : Db) (cb : CallbackQuery) : Option (PendingAsk × String) :=
  let data := cb.data.getD ""
  if (stripPrefix "start:" data).isSome || (stripPrefix "startswitch:" data).isSome then none
  else
    (splitAtFirst [':'] data.toList).bind fun parts ↦
      (db.getPending (String.ofList parts.1)).map fun ask ↦ (ask, String.ofList parts.2)

/-- A question is answered: the answer goes to its chat and the question is closed. -/
structure Answered (ask : PendingAsk) (answer : CallbackAnswer) (before after : Batch) : Prop where
  closed : after.db.getPending ask.askId = none
  published : ∃ frame, frame.content = answer.preamble ask.askId ∧
    after.notifications = before.notifications ++ [(telegramThread ask.chatId, frame)]

/-- What a tap asks for has been done. -/
structure Applied (cb : CallbackQuery) (before after : Batch) : Prop where
  acknowledged : cb.id ∈ after.callbackAcks
  answered : ∀ ask value, asked? before.db cb = some (ask, value) → ask.multi = false →
    Answered ask (.single value) before after
  finished : ∀ ask, asked? before.db cb = some (ask, "done") → ask.multi = true →
    Answered ask (.multi (ask.selectedValues.getD [])) before after
  toggled : ∀ ask suffix value, asked? before.db cb = some (ask, suffix) → ask.multi = true →
    stripPrefix "toggle:" suffix = some value → after.db.getPending ask.askId =
      some { ask with selectedValues := some (toggle (ask.selectedValues.getD []) value) }
  switched : ∀ ref name, cb.message = some ref → stripPrefix "start:" (cb.data.getD "") = none →
    stripPrefix "startswitch:" (cb.data.getD "") = some name →
    ∃ host now, after.db =
      (handleSwitch before.db host ref.chatId ref.messageThreadId cb.sender.id name now).2

theorem answered_finalize (b : Batch) (env : Env) (cb : CallbackQuery) (ask : PendingAsk)
    (answer : CallbackAnswer) : Answered ask answer b (b.finalize env cb ask answer) :=
  ⟨Table.get?_deleteKey_self, _, rfl, rfl⟩

theorem callbackAcks_tapAsk (b : Batch) (env : Env) (cb : CallbackQuery) (askId suffix : String) :
    (b.tapAsk env cb askId suffix).callbackAcks = b.callbackAcks := by
  unfold tapAsk
  split
  · rfl
  · split
    · rfl
    · dsimp only
      split
      · rfl
      · split
        · rfl
        · rfl

theorem mem_callbackAcks_tapStart (b : Batch) (env : Env) (cb : CallbackQuery) (ref : MessageRef)
    (suffix : String) : cb.id ∈ (b.tapStart env cb ref suffix).callbackAcks := by
  unfold tapStart
  split
  · simp [acknowledge]
  · dsimp only
    split
    · simp [acknowledge]
    · simp [acknowledge]
  · simp [acknowledge]

/-- A tap whose data names no question and no session only has to be acknowledged. -/
theorem Applied.of_acknowledged {cb : CallbackQuery} {b b' : Batch} (h : cb.id ∈ b'.callbackAcks)
    (hask : asked? b.db cb = none)
    (hswitch : stripPrefix "start:" (cb.data.getD "") = none →
      stripPrefix "startswitch:" (cb.data.getD "") = none ∨ cb.message = none) :
    Applied cb b b' where
  acknowledged := h
  answered _ _ hasked _ := by rw [hask] at hasked; cases hasked
  finished _ hasked _ := by rw [hask] at hasked; cases hasked
  toggled _ _ _ hasked _ _ := by rw [hask] at hasked; cases hasked
  switched ref name hmsg hstart hname := by
    rcases hswitch hstart with hno | hno
    · rw [hno] at hname
      cases hname
    · rw [hno] at hmsg
      cases hmsg

/-- Acknowledging comes before what the tap asks for. -/
theorem Applied.of_acknowledge {cb : CallbackQuery} {b b' : Batch}
    (h : Applied cb (b.acknowledge cb) b') : Applied cb b b' where
  acknowledged := h.acknowledged
  answered ask value hq hsingle :=
    ⟨(h.answered ask value hq hsingle).closed, (h.answered ask value hq hsingle).published⟩
  finished ask hq hmulti := ⟨(h.finished ask hq hmulti).closed, (h.finished ask hq hmulti).published⟩
  toggled := h.toggled
  switched := h.switched

/-- A tap on a question. -/
theorem applied_tapAsk {b : Batch} {env : Env} {cb : CallbackQuery} {askId suffix : String}
    (hack : cb.id ∈ b.callbackAcks)
    (hasked : asked? b.db cb = (b.db.getPending askId).map fun ask ↦ (ask, suffix))
    (hswitch : stripPrefix "startswitch:" (cb.data.getD "") = none) :
    Applied cb b (b.tapAsk env cb askId suffix) := by
  cases hpending : b.db.getPending askId with
  | none =>
    rw [hpending] at hasked
    apply Applied.of_acknowledged _ hasked (fun _ ↦ Or.inl hswitch)
    rw [callbackAcks_tapAsk]
    exact hack
  | some ask =>
    rw [hpending] at hasked
    obtain rfl : ask.askId = askId := (Table.get?_eq_some_iff.mp hpending).2
    constructor
    · rw [callbackAcks_tapAsk]
      exact hack
    · intro ask' value hq hsingle
      obtain ⟨rfl, rfl⟩ : ask = ask' ∧ suffix = value := by simpa [hasked] using hq
      rw [tapAsk, hpending]
      simp only [hsingle, Bool.not_false, if_true]
      exact answered_finalize b env cb ask _
    · intro ask' hq hmulti
      obtain ⟨rfl, rfl⟩ : ask = ask' ∧ suffix = "done" := by simpa [hasked] using hq
      rw [tapAsk, hpending]
      simp only [hmulti, Bool.not_true, if_true]
      exact answered_finalize b env cb ask _
    · intro ask' suffix' value hq hmulti hvalue
      obtain ⟨rfl, rfl⟩ : ask = ask' ∧ suffix = suffix' := by simpa [hasked] using hq
      have hdone : suffix ≠ "done" := by
        rintro rfl
        have hno : stripPrefix "toggle:" "done" = none := by decide
        rw [hno] at hvalue
        cases hvalue
      unfold tapAsk
      rw [hpending]
      dsimp only
      rw [if_neg (by simp [hmulti]), if_neg hdone, hvalue]
      dsimp only
      rw [Db.getPending_updateSelectedValues, hpending]
      rfl
    · intro ref name _ _ hname
      rw [hswitch] at hname
      cases hname

/-- A tap that is let in does what it asks for. -/
theorem applied_processCallback {b : Batch} {env : Env} {cb : CallbackQuery}
    (h : b.access.Admits (toString cb.sender.id)) : Applied cb b (b.processCallback env cb) := by
  have hack : cb.id ∈ (b.acknowledge cb).callbackAcks := by simp [acknowledge]
  unfold processCallback
  rw [if_neg (by rw [gateCallback_iff.mpr h]; decide)]
  dsimp only
  split
  · next hdata =>
    have hempty : cb.data.getD "" = "" := by simpa using hdata
    refine .of_acknowledged hack ?_ ?_
    · unfold asked?
      rw [hempty]
      rfl
    · intro _
      rw [hempty]
      exact Or.inl (by decide)
  · split
    · next suffix hstart =>
      have hask : asked? b.db cb = none := by simp [asked?, hstart]
      refine .of_acknowledged ?_ hask (fun hno ↦ by rw [hstart] at hno; cases hno)
      cases cb.message with
      | none => exact hack
      | some ref => exact mem_callbackAcks_tapStart (b.acknowledge cb) env cb ref _
    · next name hstart hname =>
      have hask : asked? b.db cb = none := by simp [asked?, hname]
      cases hmsg : cb.message with
      | none => exact .of_acknowledged hack hask (fun _ ↦ Or.inr hmsg)
      | some ref =>
        constructor
        · exact List.mem_append_right _ List.mem_cons_self
        · intro ask value hq
          rw [hask] at hq
          cases hq
        · intro ask hq
          rw [hask] at hq
          cases hq
        · intro ask suffix value hq
          rw [hask] at hq
          cases hq
        · intro ref' name' href _ hname'
          rw [hmsg] at href
          rw [hname] at hname'
          cases href
          cases hname'
          exact ⟨env.host, env.clock b.seen, rfl⟩
    · next hstart hname =>
      split
      · next hsplit =>
        have hask : asked? b.db cb = none := by simp [asked?, hstart, hname, hsplit]
        exact .of_acknowledged hack hask (fun _ ↦ Or.inl hname)
      · next parts hsplit =>
        have hask : asked? b.db cb = (b.db.getPending (String.ofList parts.1)).map
            fun ask ↦ (ask, String.ofList parts.2) := by simp [asked?, hstart, hname, hsplit]
        exact (applied_tapAsk hack hask hname).of_acknowledge

/-! ### What a message does -/

/-- The row a message with this content becomes; only its id and its time are open. -/
structure RowOf (m : Message) (content : String) (row : ChatMessage) : Prop where
  threadId : row.threadId = telegramThread m.chatId
  fromAgent : row.fromAgent = "telegram:" ++ m.userDisplay
  content : row.content = content
  replyTo : row.replyTo = none
  isVoice : row.isVoice = m.voice.isSome
  messageThreadId : row.messageThreadId = m.messageThreadId
  deliveredAt : row.deliveredAt = none

/-- What is stored of a message: its text, or that it was an unreadable note. -/
def content? (m : Message) : Option String := m.text.or (m.voice.map fun _ ↦ voiceShimText)

/-- The messages of `db'` are those of `db` and then `new`. -/
structure Appends (new : List ChatMessage) (db db' : Db) : Prop where
  rows : db'.chatMessages.rows = db.chatMessages.rows ++ new
  pendingVoice : db'.pendingVoice = db.pendingVoice
  lastUpdateId : db'.lastUpdateId = db.lastUpdateId

theorem Appends.of_sameInbox {db db' : Db} (h : SameInbox db db') : Appends [] db db' :=
  ⟨by rw [h.chatMessages, List.append_nil], h.pendingVoice, h.lastUpdateId⟩

theorem Appends.trans {new new' : List ChatMessage} {db db' db'' : Db} (h : Appends new db db')
    (h' : Appends new' db' db'') : Appends (new ++ new') db db'' :=
  ⟨by rw [h'.rows, h.rows, List.append_assoc], h'.pendingVoice.trans h.pendingVoice,
    h'.lastUpdateId.trans h.lastUpdateId⟩

theorem sameInbox_runCommand (b : Batch) (env : Env) (m : Message) (cmd : BotCommand) :
    SameInbox b.db (b.runCommand env m cmd).db := by
  cases cmd with
  | whoami => exact .refl _
  | agents => exact .refl _
  | switch name => exact sameInbox_handleSwitch _ _ _ _ _ _ _
  | start => exact .refl _

theorem sameInbox_route (b : Batch) (env : Env) (m : Message) (content : String) :
    SameInbox b.db (b.route env m content).db := by
  unfold route
  dsimp only
  cases b.db.resolveRouting m.chatId m.messageThreadId with
  | none => exact .refl _
  | some agentId => exact sameInbox_stampLastUserId _ _ _

/-- A message let in is stored once. -/
theorem appends_deliver (b : Batch) (uuids : Uuids) (env : Env) (m : Message) (content : String) :
    ∃ row, RowOf m content row ∧ Appends [row] b.db (b.deliver uuids env m content).db := by
  unfold deliver
  extract_lets stored b'
  have hstored : Appends [stored.1] b.db b'.db := ⟨rfl, rfl, rfl⟩
  refine ⟨stored.1, ⟨rfl, rfl, rfl, rfl, rfl, rfl, rfl⟩, ?_⟩
  have hrest : ∀ {db' : Db}, SameInbox b'.db db' → Appends [stored.1] b.db db' := by
    intro db' h
    exact hstored.trans (.of_sameInbox h)
  split
  · exact hrest (sameInbox_runCommand b' env m _)
  · exact hrest (sameInbox_route b' env m content)

/-- A message is stored when its sender is let in and it has a text or a note. -/
theorem appends_processMessage (uuids : Uuids) (env : Env) {b : Batch} {m : Message}
    {content : String} (h : b.access.Admits (toString m.userId)) (hc : content? m = some content) :
    ∃ row, RowOf m content row ∧ Appends [row] b.db (b.processMessage uuids env m).db := by
  have hgate : (gateDm b.access (toString m.userId) (toString m.chatId) env.now
      (env.pairingCode b.seen)).1 = .deliver := gateDm_deliver_iff.mpr h
  unfold processMessage
  dsimp only
  rw [hgate]
  dsimp only
  unfold content? at hc
  cases htext : m.text with
  | some text =>
    obtain rfl : text = content := by simpa [htext] using hc
    exact appends_deliver b uuids env m text
  | none =>
    cases hvoice : m.voice with
    | some voice =>
      obtain rfl : voiceShimText = content := by simpa [htext, hvoice] using hc
      exact appends_deliver b uuids env m voiceShimText
    | none => simp [htext, hvoice] at hc

/-- Any other message changes no row. -/
theorem sameInbox_processMessage {b : Batch} {uuids : Uuids} {env : Env} {m : Message}
    (h : ¬ (b.access.Admits (toString m.userId) ∧ (content? m).isSome)) :
    SameInbox b.db (b.processMessage uuids env m).db := by
  unfold processMessage
  dsimp only
  split
  · exact .refl _
  · exact .refl _
  · next hgate =>
    have hadmits : b.access.Admits (toString m.userId) := gateDm_deliver_iff.mp hgate
    have hnone : content? m = none := Option.not_isSome_iff_eq_none.mp fun hs ↦ h ⟨hadmits, hs⟩
    unfold content? at hnone
    split
    · next text htext => simp [htext] at hnone
    · next voice htext hvoice => simp [htext, hvoice] at hnone
    · exact .refl _

/-! ### What a batch does -/

/-- Rows written for inbound messages. -/
def Inbound (row : ChatMessage) : Prop := ∃ m content, RowOf m content row

/-- An update writes nothing but the one row of its message. -/
theorem appends_processUpdate (uuids : Uuids) (env : Env) (b : Batch) (u : Update) :
    ∃ new, new.length ≤ 1 ∧ (∀ row ∈ new, Inbound row) ∧
      Appends new b.db (processUpdate uuids env b u).db := by
  have hnothing : ∀ {db' : Db}, SameInbox b.db db' →
      ∃ new, new.length ≤ 1 ∧ (∀ row ∈ new, Inbound row) ∧ Appends new b.db db' :=
    fun h ↦ ⟨[], by simp, by simp, .of_sameInbox h⟩
  unfold processUpdate
  dsimp only
  split
  · exact hnothing (sameInbox_processCallback b env _)
  · next m _ hm =>
    by_cases h : b.access.Admits (toString m.userId) ∧ (content? m).isSome
    · obtain ⟨content, hc⟩ := Option.isSome_iff_exists.mp h.2
      obtain ⟨row, hrow, happ⟩ := appends_processMessage uuids env h.1 hc
      refine ⟨[row], le_refl 1, fun row' hrow' ↦ ?_, happ⟩
      obtain rfl : row' = row := List.mem_singleton.mp hrow'
      exact ⟨m, content, hrow⟩
    · exact hnothing (sameInbox_processMessage h)
  · exact hnothing (.refl _)

/-- An update with a tap that is let in. -/
theorem applied_processUpdate (uuids : Uuids) (env : Env) {b : Batch} {u : Update}
    {cb : CallbackQuery} (hu : u.callbackQuery = some cb)
    (h : b.access.Admits (toString cb.sender.id)) : Applied cb b (processUpdate uuids env b u) := by
  have happlied : Applied cb b (b.processCallback env cb) := applied_processCallback h
  unfold processUpdate
  rw [hu]
  dsimp only
  constructor
  · exact happlied.acknowledged
  · intro ask value hq hsingle
    exact ⟨(happlied.answered ask value hq hsingle).closed,
      (happlied.answered ask value hq hsingle).published⟩
  · intro ask hq hmulti
    exact ⟨(happlied.finished ask hq hmulti).closed, (happlied.finished ask hq hmulti).published⟩
  · exact happlied.toggled
  · exact happlied.switched

/-- An update with a message that is let in. -/
theorem stored_processUpdate (uuids : Uuids) (env : Env) {b : Batch} {u : Update} {m : Message}
    {content : String} (hu : u.message = some m) (hc : content? m = some content)
    (h : b.access.Admits (toString m.userId)) : ∃ row, RowOf m content row ∧
      (processUpdate uuids env b u).db.chatMessages.rows = b.db.chatMessages.rows ++ [row] := by
  have hcb : u.callbackQuery = none := u.exclusive.resolve_left (by simp [hu])
  obtain ⟨row, hrow, happ⟩ := appends_processMessage uuids env h hc
  refine ⟨row, hrow, ?_⟩
  unfold processUpdate
  rw [hcb, hu]
  exact happ.rows

/-- What steps of a batch may do to its messages: append inbound ones. -/
def Extends (b b' : Batch) : Prop :=
  ∃ new, (∀ row ∈ new, Inbound row) ∧ Appends new b.db b'.db

theorem extends_refl (b : Batch) : Extends b b := ⟨[], by simp, .of_sameInbox (.refl _)⟩

theorem extends_trans (b b' b'' : Batch) (h : Extends b b') (h' : Extends b' b'') :
    Extends b b'' := by
  obtain ⟨new, hnew, happ⟩ := h
  obtain ⟨new', hnew', happ'⟩ := h'
  refine ⟨new ++ new', fun row hrow ↦ ?_, happ.trans happ'⟩
  exact (List.mem_append.mp hrow).elim (hnew row) (hnew' row)

theorem extends_processUpdate (uuids : Uuids) (env : Env) (b : Batch) (u : Update) :
    Extends b (processUpdate uuids env b u) := by
  obtain ⟨new, -, hnew, happ⟩ := appends_processUpdate uuids env b u
  exact ⟨new, hnew, happ⟩

/-- The messages after a batch: those before, then inbound ones. -/
theorem extends_updates (uuids : Uuids) (env : Env) (db : Db) (access : Access)
    (batch : List Update) : ∃ new, (∀ row ∈ new, Inbound row) ∧
      Appends new db (updates uuids env db access batch).db := by
  have h := rel_run extends_refl extends_trans (extends_processUpdate uuids env)
    (start db (pruneExpired access env.now).2 (pruneExpired access env.now).1) batch
  exact h

/-- Moving the offset changes nothing else. -/
theorem advanceOffset_db (b : Batch) : b.advanceOffset.db.chatMessages = b.db.chatMessages ∧
    b.advanceOffset.db.pendingVoice = b.db.pendingVoice ∧
    b.advanceOffset.db.lastUpdateId = max b.db.lastUpdateId b.maxId := by
  unfold advanceOffset
  split
  · next h => exact ⟨rfl, rfl, (max_eq_right (le_of_lt h)).symm⟩
  · next h => exact ⟨rfl, rfl, (max_eq_left (not_lt.mp h)).symm⟩

end Batch

end Claudebase.Telegram
