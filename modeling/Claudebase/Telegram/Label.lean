import Claudebase.Supervisor.SameBlock
import Claudebase.Telegram.Outbound
import Claudebase.Telegram.Ownership

/-!
# Whose words carry the operator's label

`src/daemon/subscribe_client.rs:266–346,505–567`, `src/daemon/telegram.rs:1201–1307`,
`src/daemon/server.rs:1168–1283`. The replies of agents, the commands the bot answers and the
operator's messages are rows of one thread. What is published on it comes from an update that was
let in; a backlog is whatever is unmarked.
-/

namespace Claudebase.Telegram
open Claudebase.Base
open Supervisor (Source splitAgentPreamble HasPreamble)

/-- A text comes from an update that was let in and that the bot has not answered itself: from its
message, or from what was built for its tap. -/
inductive FromOperator (t : Step Batch Update) (content : String) : Prop
  | message (m : Message) (hmessage : t.op.message = some m)
      (hadmits : t.before.access.Admits (toString m.userId))
      (hcontent : Batch.content? m = some content) (hcommand : parseBotCommand content = none)
  | tap (cb : CallbackQuery) (hcb : t.op.callbackQuery = some cb)
      (hadmits : t.before.access.Admits (toString cb.sender.id))
      (hbuilt : ∃ b ∈ broadcastsOf t, b.frame.content = content)

namespace Batch

variable (uuids : Uuids) (env : Env)

/-- A message is notified of with its text, when it is let in and no command. -/
theorem notifications_of_message (b : Batch) (m : Message) :
    ∃ new, (b.processMessage uuids env m).notifications = b.notifications ++ new ∧
      ∀ n ∈ new, b.access.Admits (toString m.userId) ∧ content? m = some n.2.content ∧
        parseBotCommand n.2.content = none := by
  have hnone : ∃ new : List (String × ChannelFrame), b.notifications = b.notifications ++ new ∧
      ∀ n ∈ new, b.access.Admits (toString m.userId) ∧ content? m = some n.2.content ∧
        parseBotCommand n.2.content = none :=
    ⟨[], (List.append_nil _).symm, fun _ hn ↦ absurd hn List.not_mem_nil⟩
  have hdeliver : b.access.Admits (toString m.userId) → ∀ content, content? m = some content →
      ∃ new, (b.deliver uuids env m content).notifications = b.notifications ++ new ∧
        ∀ n ∈ new, b.access.Admits (toString m.userId) ∧ content? m = some n.2.content ∧
          parseBotCommand n.2.content = none := by
    intro hadmits content hcontent
    unfold deliver
    extract_lets stored b'
    split
    · next cmd _ =>
      cases cmd with
      | start => exact hnone
      | whoami => exact hnone
      | agents => exact hnone
      | switch name => exact hnone
    · next hcommand =>
      refine ⟨_, rfl, ?_⟩
      intro n hn
      obtain rfl := List.mem_singleton.mp hn
      exact ⟨hadmits, hcontent, hcommand⟩
  unfold processMessage
  dsimp only
  split
  · exact hnone
  · exact hnone
  · next hgate =>
    have hadmits : b.access.Admits (toString m.userId) := gateDm_deliver_iff.mp hgate
    split
    · next text htext => exact hdeliver hadmits text (by simp [content?, htext])
    · next voice htext hvoice =>
      exact hdeliver hadmits voiceShimText (by simp [content?, htext, hvoice])
    · exact hnone

/-- Nothing is published but what comes from the operator. -/
theorem fromOperator_of_broadcast {b : Batch} {u : Update} {x : Broadcast}
    (h : x ∈ broadcastsOf ⟨b, u, processUpdate uuids env b u⟩) :
    FromOperator ⟨b, u, processUpdate uuids env b u⟩ x.frame.content := by
  cases hcb : u.callbackQuery with
  | some cb =>
    by_cases hgate : gateCallback b.access (toString cb.sender.id) = true
    · exact .tap cb hcb (gateCallback_iff.mp hgate) ⟨x, h, rfl⟩
    · have hsame : (processUpdate uuids env b u).notifications = b.notifications := by
        unfold processUpdate processCallback
        rw [hcb]
        dsimp only
        rw [if_pos (by simpa using hgate)]
      unfold broadcastsOf at h
      dsimp only at h
      rw [hsame, List.drop_length] at h
      cases h
  | none =>
    cases hm : u.message with
    | none =>
      have hsame : (processUpdate uuids env b u).notifications = b.notifications := by
        unfold processUpdate
        rw [hcb, hm]
      unfold broadcastsOf at h
      dsimp only at h
      rw [hsame, List.drop_length] at h
      cases h
    | some m =>
      obtain ⟨new, hnew, hfrom⟩ := notifications_of_message uuids env b m
      have hnew' : (processUpdate uuids env b u).notifications = b.notifications ++ new := by
        unfold processUpdate
        rw [hcb, hm]
        exact hnew
      unfold broadcastsOf at h
      dsimp only at h
      rw [hnew', List.drop_left] at h
      obtain ⟨n, hn, rfl⟩ := List.mem_map.mp h
      obtain ⟨hadmits, hcontent, hcommand⟩ := hfrom n hn
      exact .message m hm hadmits hcontent hcommand

/-- What is stored for an update, unless it is a command, comes from the operator. -/
theorem fromOperator_of_stored {t : Step Batch Update} {m : ChatMessage}
    (ht : t.after = processUpdate uuids env t.before t.op) (h : StoredBy t m)
    (hcommand : parseBotCommand m.content = none) : FromOperator t m.content := by
  obtain ⟨row, hrows, hsame⟩ := h
  have hnew : ¬ SameInbox t.before.db t.after.db := by
    intro hinbox
    have hlen := congrArg List.length hrows
    rw [hinbox.chatMessages] at hlen
    simp at hlen
  rw [ht] at hrows hnew
  unfold processUpdate at hrows hnew
  dsimp only at hrows hnew
  split at hrows
  · next cb hcb =>
    rw [hcb] at hnew
    exact absurd (sameInbox_processCallback t.before env cb) hnew
  · next msg hcb hmsg =>
    rw [hcb, hmsg] at hnew
    have hin : t.before.access.Admits (toString msg.userId) ∧ (content? msg).isSome := by
      by_contra hout
      exact hnew (sameInbox_processMessage hout)
    obtain ⟨content, hcontent⟩ := Option.isSome_iff_exists.mp hin.2
    obtain ⟨row', hrow', happ⟩ := appends_processMessage uuids env hin.1 hcontent
    have hsplit := hrows.symm.trans happ.rows
    obtain rfl : row = row' := by simpa using hsplit
    have htext : m.content = content := by
      rw [hsame]
      exact hrow'.content
    rw [htext] at hcommand ⊢
    exact .message msg hmsg hin.1 hcontent hcommand
  · next hcb hmsg =>
    rw [hcb, hmsg] at hnew
    exact absurd (.refl _) hnew

end Batch

/-! ### Dictated notes -/

/-- Only what stands on the threads of the bridge is dictated. -/
def NotesOnThreads (db : Db) : Prop :=
  ∀ m ∈ db.chatMessages.rows, m.isVoice = true → m.threadId.startsWith "telegram:" = true

theorem NotesOnThreads.of_append {db db' : Db} (h : NotesOnThreads db) {new : List ChatMessage}
    (hrows : db'.chatMessages.rows = db.chatMessages.rows ++ new)
    (hnew : ∀ m ∈ new, m.isVoice = true → m.threadId.startsWith "telegram:" = true) :
    NotesOnThreads db' := by
  intro m hm
  rw [hrows, List.mem_append] at hm
  exact hm.elim (h m) (hnew m)

theorem NotesOnThreads.markDelivered {db : Db} (h : NotesOnThreads db) (id : String) (now : Int) :
    NotesOnThreads (db.markDelivered id now) := by
  intro m' hm'
  obtain ⟨m, hm, rfl⟩ := Db.mem_markDelivered.mp hm'
  split
  · exact h m hm
  · exact h m hm

theorem NotesOnThreads.drainBacklog {db : Db} (h : NotesOnThreads db) (threadId : String)
    (now : Int) : NotesOnThreads (db.drainBacklog threadId now).2 := by
  intro m' hm'
  obtain ⟨m, hm, rfl⟩ := Db.mem_drainBacklog.mp hm'
  split
  · exact h m hm
  · exact h m hm

theorem NotesOnThreads.process {db : Db} (h : NotesOnThreads db) (uuids : Uuids) (env : Env)
    (access : Access) (batch : List Update) :
    NotesOnThreads (Batch.process uuids env db access batch).db := by
  unfold Batch.process
  split
  · exact h
  · obtain ⟨new, hnew, happ⟩ := Batch.extends_updates uuids env db access batch
    refine @NotesOnThreads.of_append _ _ h new ?_ ?_
    · rw [(Batch.advanceOffset_db _).1]
      exact happ.rows
    · intro m hm _
      obtain ⟨msg, content, hrow⟩ := hnew m hm
      rw [hrow.threadId]
      simp [telegramThread]

theorem notesOnThreads_next {uuids : Uuids} {telegram : Service} {s : Daemon}
    (h : NotesOnThreads s.db) (op : Daemon.Op) : NotesOnThreads (s.next uuids telegram op).db := by
  unfold Daemon.next
  split
  · unfold Daemon.pollCycle
    split
    · exact h
    · refine invariant_of_run (I := fun s : Daemon ↦ NotesOnThreads s.db) h ?_
      intro c hc hbefore
      rw [after_of_mem_trace hc]
      cases c.op with
      | process batch => exact hbefore.process uuids _ _ batch
      | park u => exact hbefore
      | advance maxId => exact hbefore
      | unpark updateId => exact hbefore
      | collect => exact hbefore
  · unfold Daemon.transcribe
    split
    · exact h
    · exact h
  · unfold Daemon.handleChatPost
    extract_lets thread replyTo stored
    have hstored : NotesOnThreads stored.2 := by
      refine @NotesOnThreads.of_append _ _ h [stored.1] rfl ?_
      intro m hm hvoice
      rw [List.mem_singleton.mp hm] at hvoice
      cases hvoice
    split
    · exact h
    · split
      · exact hstored
      · exact hstored
  · unfold Daemon.sendNext
    split
    · exact h
    · split
      · exact h.markDelivered _ _
      · exact h
  · exact h.drainBacklog _ _
  · exact h
  · exact h
  · exact h
  · exact h

namespace Exchange

/-! ### Runs -/

/-- The labels of the operator. -/
def IsOperators (source : Source) : Prop := source = .telegram ∨ source = .telegramVoice

/-- A text that has come from the operator. -/
def Spoken (s : Exchange) (content : String) : Prop :=
  ∃ t ∈ s.daemon.log, FromOperator t content

/-- A session subscribes to a thread of the bridge on which an unmarked row was not stored for an
update, or holds a command. -/
def TakesStray (t : Step Exchange Op) : Prop :=
  ∃ agentId threadId now, t.op = .drain agentId threadId now ∧ t.before.daemon.running = true ∧
    threadId ∈ (t.before.lines agentId).listening ∧ threadId.startsWith "telegram:" = true ∧
    ∃ m ∈ t.before.daemon.db.chatMessages.rows, m.threadId = threadId ∧ m.deliveredAt = none ∧
      ¬ (parseBotCommand m.content = none ∧ ∃ u ∈ t.before.daemon.log, StoredBy u m)

/-- A session reads a text that begins as a message between agents does. -/
def CutsText (parse : String → Option Json) (t : Step Exchange Op) : Prop :=
  ∃ agentId i readable now b, t.op = .read agentId i readable now ∧
    (t.before.lines agentId).carried[i]? = some (.frame b) ∧ b.frame.isFor agentId = true ∧
    HasPreamble parse b.frame.content

/-- Whatever carries the operator's label, or will, has come from the operator. -/
structure Attributed (uuids : Uuids) (s : Exchange) : Prop where
  log : ∀ t ∈ s.daemon.log, Daemon.Genuine uuids s.daemon t
  notes : NotesOnThreads s.daemon.db
  awaiting : ∀ b ∈ s.awaiting, s.Spoken b.frame.content
  frames : ∀ id b, .frame b ∈ (s.lines id).carried → s.Spoken b.frame.content
  backlogs : ∀ id threadId messages, .backlog threadId messages ∈ (s.lines id).carried →
    ∀ m ∈ messages, IsOperators (backlogSource threadId m) → s.Spoken m.content
  injected : ∀ x ∈ s.injected, IsOperators x.source → s.Spoken x.content

variable {uuids : Uuids} {telegram : Service} {parse : String → Option Json}

theorem attributed_fresh : fresh.Attributed uuids := by
  constructor
  · exact fun t ht ↦ absurd ht List.not_mem_nil
  · exact fun m hm ↦ absurd hm List.not_mem_nil
  · exact fun b hb ↦ absurd hb List.not_mem_nil
  · exact fun id b hb ↦ absurd hb List.not_mem_nil
  · exact fun id threadId messages hb ↦ absurd hb List.not_mem_nil
  · exact fun x hx ↦ absurd hx List.not_mem_nil

theorem Spoken.next {s : Exchange} {content : String} (h : s.Spoken content) (op : Op) :
    (s.next uuids telegram parse op).Spoken content := by
  obtain ⟨t, ht, hfrom⟩ := h
  refine ⟨t, ?_, hfrom⟩
  cases @daemonStep_next uuids telegram parse s op with
  | stays hdaemon => rwa [hdaemon]
  | own o hop hdaemon =>
    rw [hdaemon]
    exact (Daemon.log_prefix uuids telegram s.daemon o).subset ht
  | drained agentId threadId now hop hdaemon => rwa [hdaemon]

/-- Notes stay on their threads. -/
theorem notesOnThreads_exchange {s : Exchange} (h : NotesOnThreads s.daemon.db) (op : Op) :
    NotesOnThreads (s.next uuids telegram parse op).daemon.db := by
  cases @daemonStep_next uuids telegram parse s op with
  | stays hdaemon =>
    rw [hdaemon]
    exact h
  | own o hop hdaemon =>
    rw [hdaemon]
    exact notesOnThreads_next h o
  | drained agentId threadId now hop hdaemon =>
    rw [hdaemon]
    exact h.drainBacklog threadId now

/-- A row of a backlog under the operator's label stands on a thread of the bridge. -/
theorem startsWith_of_isOperators {db : Db} {m : ChatMessage} (hnotes : NotesOnThreads db)
    (hm : m ∈ db.chatMessages.rows) (h : IsOperators (backlogSource m.threadId m)) :
    m.threadId.startsWith "telegram:" = true := by
  unfold backlogSource at h
  split at h
  · next hvoice => exact hnotes m hm hvoice
  · split at h
    · next hthread => exact hthread
    · rcases h with h | h
      · cases h
      · cases h

/-- A step that takes nothing stray and cuts no text. -/
theorem Attributed.next {s : Exchange} (h : s.Attributed uuids) (op : Op)
    (hstray : ¬ TakesStray ⟨s, op, s.next uuids telegram parse op⟩)
    (hcuts : ¬ CutsText parse ⟨s, op, s.next uuids telegram parse op⟩) :
    (s.next uuids telegram parse op).Attributed uuids := by
  have hlog := @genuine_next uuids telegram parse s h.log op
  have hspoken : ∀ {content}, s.Spoken content →
      (s.next uuids telegram parse op).Spoken content := fun hs ↦ hs.next op
  constructor
  · exact hlog
  · exact notesOnThreads_exchange h.notes op
  · intro b hb
    rcases mem_awaiting_next hb with hb | ⟨t, ht, hb⟩
    · exact hspoken (h.awaiting b hb)
    · obtain ⟨env, hstep⟩ := (hlog t ht).step
      have heq : t = ⟨t.before, t.op, Batch.processUpdate uuids env t.before t.op⟩ := by
        rw [← hstep]
      refine ⟨t, ht, ?_⟩
      rw [heq] at hb ⊢
      exact Batch.fromOperator_of_broadcast uuids env hb
  · intro id b hb
    cases comes_next hb with
    | before hb => exact hspoken (h.frames id b hb)
    | published _ hop hb => exact hspoken (h.awaiting b hb)
  · intro id threadId messages hb m hm hlabel
    cases comes_next hb with
    | before hb => exact hspoken (h.backlogs id threadId messages hb m hm hlabel)
    | drained _ now hop hrunning hlistening =>
      obtain ⟨hrow, rfl, hmark⟩ := mem_backlog.mp hm
      have hthread := startsWith_of_isOperators h.notes hrow hlabel
      -- an unmarked row of the thread was stored for an update, and is no command
      by_contra hnone
      refine hstray ⟨id, m.threadId, now, hop, hrunning, hlistening, hthread, m, hrow, rfl, hmark, ?_⟩
      rintro ⟨hcommand, t, ht, hstored⟩
      obtain ⟨env, hstep⟩ := (h.log t ht).step
      have hspoke : s.Spoken m.content :=
        ⟨t, ht, Batch.fromOperator_of_stored uuids env hstep hstored hcommand⟩
      exact hnone (hspoken hspoke)
  · intro x hx hlabel
    rcases mem_injected_next hx with hx | ⟨agentId, i, readable, now, c, hop, hc, hx⟩
    · exact hspoken (h.injected x hx hlabel)
    · have hmem : c ∈ (s.lines agentId).carried := List.mem_of_getElem? hc
      cases c with
      | frame b =>
        unfold inject at hx
        dsimp only at hx
        split at hx
        · next hfor =>
          obtain rfl := List.mem_singleton.mp hx
          have hwhole : ¬ HasPreamble parse b.frame.content := by
            intro hpreamble
            exact hcuts ⟨agentId, i, readable, now, b, hop, hc, (Bool.and_eq_true_iff.mp hfor).1,
              hpreamble⟩
          dsimp only
          rw [(Supervisor.splitAgentPreamble_eq_self b.frame.content).mpr hwhole]
          exact hspoken (h.frames agentId b hmem)
        · cases hx
      | backlog threadId messages =>
        unfold inject at hx
        obtain ⟨m, hm, rfl⟩ := List.mem_map.mp hx
        exact hspoken (h.backlogs agentId threadId messages hmem m (mem_of_mem_ownBacklog hm) hlabel)

end Exchange

open Exchange in
/-- In every run whose subscriptions take nothing stray and whose reads cut no text, the operator's
labels stand on what has come from the operator. -/
theorem operator_label (uuids : Uuids) (telegram : Service) (parse : String → Option Json)
    (ops : List Exchange.Op)
    (h : ∀ t ∈ trace (Exchange.next uuids telegram parse) .fresh ops,
      ¬ TakesStray t ∧ ¬ CutsText parse t) :
    ∀ t ∈ trace (Exchange.next uuids telegram parse) .fresh ops,
      ∀ x ∈ t.after.injected, IsOperators x.source → t.after.Spoken x.content := by
  intro t ht
  have hattributed : t.after.Attributed uuids := by
    refine (invariant_of_trace (I := Exchange.Attributed uuids) attributed_fresh ?_ t ht).2
    intro t ht hbefore
    obtain ⟨hstray, hcuts⟩ := h t ht
    have hafter := after_of_mem_trace ht
    have heq : t = ⟨t.before, t.op, t.before.next uuids telegram parse t.op⟩ := by
      rw [← hafter]
    rw [heq] at hstray hcuts
    rw [hafter]
    exact hbefore.next t.op hstray hcuts
  exact hattributed.injected

namespace Exchange

/-- The session `b` subscribes while nothing is stored and reads what is published. -/
def liveRun : List Op :=
  [.daemon (.start 0), .daemon (.others .empty topicRegistry .empty), .listen "b" "telegram:7",
    .drain "b" "telegram:7" 1, .daemon (.poll 1 Daemon.operatorAccess Link.tickEnv .complete),
    .publish, .read "b" 1 (fun _ ↦ true) 1]

/-- An agent replies, and its session subscribes before the reply is sent. -/
def echoRun : List Op :=
  [.daemon (.start 0), .daemon (.others .empty Link.boundRegistry .empty),
    .daemon (.chatPost .chatReply Daemon.doneArgs 0 1)] ++ subscribing "me"

/-- The operator asks the bot which session is bound. -/
def whoamiUpdate : Update :=
  ⟨1, some ⟨10, some ⟨7, some "operator"⟩, 7, 0, some "/whoami", none, some 4⟩, none, Or.inr rfl⟩

end Exchange

open Exchange in
theorem operator_label_live :
    (run topicNext .fresh liveRun).injected = [⟨"b", some "i", .telegram, "hello"⟩] ∧
      (run topicNext .fresh liveRun).Spoken "hello" := by
  have hinjected : (run topicNext .fresh liveRun).injected = [⟨"b", some "i", .telegram, "hello"⟩] := by
    decide +kernel
  refine ⟨hinjected, ?_⟩
  have hquiet : ∀ t ∈ trace topicNext .fresh liveRun,
      (match t.op with | .drain _ _ _ => true | _ => false) = true →
        t.before.daemon.db.chatMessages.rows = [] := by
    decide
  refine operator_label .longer (onlyUpdate topicUpdate) (fun _ ↦ none) liveRun ?_
    ⟨_, _, run topicNext .fresh liveRun⟩ (mem_trace_append liveRun.dropLast _ [])
    ⟨"b", some "i", .telegram, "hello"⟩ ?_ (Or.inl rfl)
  · intro t ht
    constructor
    · rintro ⟨agentId, threadId, now, hop, -, -, -, m, hm, -⟩
      rw [hquiet t ht (by rw [hop])] at hm
      cases hm
    · rintro ⟨agentId, i, readable, now, b, -, -, -, head, rest, v, a2a, -, hparse, -⟩
      cases hparse
  · dsimp only
    rw [hinjected]
    exact List.mem_cons_self

open Exchange in
/-- A session reads its own unsent reply as the operator's words, and a command the bot answered. -/
theorem operator_label_echo :
    (run topicNext .fresh echoRun).injected = [⟨"me", some "i", .telegram, "done"⟩] ∧
      ¬ (run topicNext .fresh echoRun).Spoken "done" ∧
      (run (Exchange.next .longer (onlyUpdate whoamiUpdate) fun _ ↦ none) .fresh
        (topicRun ++ subscribing "b")).injected = [⟨"b", some "i", .telegram, "/whoami"⟩] ∧
      ¬ (run (Exchange.next .longer (onlyUpdate whoamiUpdate) fun _ ↦ none) .fresh
        (topicRun ++ subscribing "b")).Spoken "/whoami" := by
  refine ⟨by decide +kernel, ?_, by decide +kernel, ?_⟩
  · rintro ⟨t, ht, -⟩
    cases ht
  · rintro ⟨t, ht, hfrom⟩
    obtain rfl := List.mem_singleton.mp ht
    cases hfrom with
    | message m hmessage hadmits hcontent hcommand => exact absurd hcommand (by decide)
    | tap cb hcb hadmits hbuilt => cases hcb

end Claudebase.Telegram
