import Claudebase.Supervisor.SameBlock
import Claudebase.Telegram.Ask
import Claudebase.Telegram.Exchange

/-!
# Answers on their way to the session that asked

`src/daemon/telegram.rs:1053–1096`, `src/daemon/chat.rs:399–502`,
`src/daemon/subscribe_client.rs:436–464,505–567`. The tap that answers a question deletes its row and
publishes the answer on the thread of the chat, addressed to the session that asked if that is alive.
The answer is not stored: it reaches whoever listens, and only the addressed session takes it.
-/

namespace Claudebase.Telegram
open Claudebase.Base
open Supervisor (splitAgentPreamble HasPreamble)

/-- A tap answers a question for good: any tap a single-select one, `done` a multi-select one. -/
inductive Finalises (t : Step Batch Update) (ask : PendingAsk) : CallbackAnswer → Prop
  | single (suffix : String) (hreached : t.before.reached? t.op = some (ask.askId, suffix))
      (hrow : t.before.db.getPending ask.askId = some ask) (hsingle : ask.multi = false) :
      Finalises t ask (.single suffix)
  | multi (hreached : t.before.reached? t.op = some (ask.askId, "done"))
      (hrow : t.before.db.getPending ask.askId = some ask) (hmulti : ask.multi = true) :
      Finalises t ask (.multi (ask.selectedValues.getD []))

/-- A notification is the answer to a question, for the session that asked. -/
structure Answers (b : Broadcast) (ask : PendingAsk) (answer : CallbackAnswer) : Prop where
  content : b.frame.content = answer.preamble ask.askId
  target : b.frame.targetAgentId = some ask.requestingAgentId

namespace Batch

variable (uuids : Uuids) (env : Env)

/-- The answer is published for the session that asked as long as it is alive. -/
theorem answers_of_finalises {b : Batch} {u : Update} {ask : PendingAsk} {answer : CallbackAnswer}
    (h : Finalises ⟨b, u, processUpdate uuids env b u⟩ ask answer)
    (halive : b.db.aliveOf ask.requestingAgentId = true) :
    ∃ x ∈ broadcastsOf ⟨b, u, processUpdate uuids env b u⟩, Answers x ask answer := by
  have hpublished : ∀ (cb : CallbackQuery) (b' : Batch),
      b'.notifications = ((b.acknowledge cb).finalize env cb ask answer).notifications →
      processUpdate uuids env b u = b' →
      ∃ x ∈ broadcastsOf ⟨b, u, processUpdate uuids env b u⟩, Answers x ask answer := by
    intro cb b' hsame heq
    rw [heq]
    unfold broadcastsOf
    dsimp only
    rw [hsame]
    unfold finalize notify
    dsimp only
    rw [show (b.acknowledge cb).notifications = b.notifications from rfl, List.drop_left]
    refine ⟨_, List.mem_cons_self, ?_⟩
    constructor
    · rfl
    · unfold buildChannelNotificationCallbackResponse buildChannelNotificationTelegram
      rw [show (b.acknowledge cb).db = b.db from rfl, halive]
      rfl
  cases h with
  | single suffix hreached hrow hsingle =>
    obtain ⟨cb, heq⟩ := processUpdate_of_reached uuids env hreached
    refine hpublished cb _ ?_ heq
    unfold tapAsk
    rw [show (b.acknowledge cb).db.getPending ask.askId = some ask from hrow]
    simp [hsingle]
  | multi hreached hrow hmulti =>
    obtain ⟨cb, heq⟩ := processUpdate_of_reached uuids env hreached
    refine hpublished cb _ ?_ heq
    unfold tapAsk
    rw [show (b.acknowledge cb).db.getPending ask.askId = some ask from hrow]
    simp [hmulti]

end Batch

/-- A text that begins as no JSON value does is not cut. -/
theorem not_hasPreamble_answer {parse : String → Option Json}
    (hparse : ∀ text : String, "[chat_ask".toList <+: text.toList → parse text = none)
    (askId : String) (answer : CallbackAnswer) : ¬ HasPreamble parse (answer.preamble askId) := by
  rintro ⟨head, rest, v, a2a, hsplit, hread, -⟩
  have hstart : "[chat_ask".toList <+: (answer.preamble askId).toList := by
    unfold CallbackAnswer.preamble
    cases answer with
    | single value => simp
    | multi values => simp
  have hparts := splitAtFirst_eq hsplit
  have hhead : head <+: (answer.preamble askId).toList := by
    rw [hparts, List.append_assoc]
    exact List.prefix_append head _
  have hnone : "[chat_ask".toList <+: head := by
    rcases List.prefix_or_prefix_of_prefix hstart hhead with h | ⟨more, hmore⟩
    · exact h
    · cases more with
      | nil =>
        rw [List.append_nil] at hmore
        rw [hmore]
      | cons c more =>
        -- the empty line would begin inside the start of the text
        exfalso
        obtain ⟨tail, htail⟩ := hstart
        rw [← hmore, hparts, List.append_assoc, List.append_assoc, List.append_cancel_left_eq] at htail
        obtain ⟨rfl, -⟩ := List.cons.inj htail
        have hmem : '\n' ∈ "[chat_ask".toList := by
          rw [← hmore]
          exact List.mem_append_right _ List.mem_cons_self
        exact absurd hmem (by decide)
  have hfail : parse (String.ofList head) = none := by
    apply hparse
    simpa using hnone
  rw [hfail] at hread
  cases hread

namespace Exchange

/-! ### Where an answer is -/

/-- An answer has been handed to the session that asked, or is on its way to it. -/
inductive Underway (s : Exchange) (ask : PendingAsk) (answer : CallbackAnswer) : Prop
  | handed (x : Injected) (hx : x ∈ s.injected) (hsession : x.agentId = ask.requestingAgentId)
      (hcontent : x.content = answer.preamble ask.askId)
  | awaiting (b : Broadcast) (hb : b ∈ s.awaiting) (h : Answers b ask answer)
  | carried (b : Broadcast) (hb : .frame b ∈ (s.lines ask.requestingAgentId).carried)
      (h : Answers b ask answer)

/-- An answer is stored, and nobody has been handed it. -/
def StoredAnswer (s : Exchange) (ask : PendingAsk) (answer : CallbackAnswer) : Prop :=
  ∃ m ∈ s.daemon.db.chatMessages.rows, m.deliveredAt = none ∧
    m.content = answer.preamble ask.askId

/-- A question has been answered for good. -/
def Finalised (s : Exchange) (ask : PendingAsk) (answer : CallbackAnswer) : Prop :=
  ∃ u ∈ s.daemon.log, Finalises u ask answer

/-- A poll cycle that gets to its end. -/
def Completes (op : Daemon.Op) : Prop := ∃ upTo access env, op = .poll upTo access env .complete

/-- A step that loses an answer: the question is answered while the session that asked is not
registered as alive, or in a cycle that does not get to its end; the daemon goes down before the
answer is published; the session does not listen then; or it loses the answer on the way, or cannot
ask the database whether the chat is its own when it reads it. -/
inductive LosesAnswer (t : Step Exchange Op) : Prop
  | unaddressed (op : Daemon.Op) (u : Step Batch Update) (ask : PendingAsk)
      (answer : CallbackAnswer) (hop : t.op = .daemon op)
      (hu : u ∈ t.after.daemon.log.drop t.before.daemon.log.length) (h : Finalises u ask answer)
      (hlost : ¬ (u.before.db.aliveOf ask.requestingAgentId = true ∧ Completes op))
  | crashed (b : Broadcast) (ask : PendingAsk) (answer : CallbackAnswer)
      (hop : t.op = .daemon .crash) (hrunning : t.before.daemon.running = true)
      (hb : b ∈ t.before.awaiting)
      (hfinal : t.before.Finalised ask answer) (h : Answers b ask answer)
  | unheard (b : Broadcast) (rest : List Broadcast) (ask : PendingAsk) (answer : CallbackAnswer)
      (hop : t.op = .publish) (hb : t.before.awaiting = b :: rest)
      (hfinal : t.before.Finalised ask answer) (h : Answers b ask answer)
      (hdeaf : b.threadId ∉ (t.before.lines ask.requestingAgentId).listening)
  | withheld (i : Nat) (readable : Option Int → Bool) (now : Int) (b : Broadcast) (ask : PendingAsk)
      (answer : CallbackAnswer) (hop : t.op = .read ask.requestingAgentId i readable now)
      (hb : (t.before.lines ask.requestingAgentId).carried[i]? = some (.frame b))
      (hfinal : t.before.Finalised ask answer) (h : Answers b ask answer)
      (hno : t.before.daemon.db.owns readable ask.requestingAgentId b.threadId none = false)
  | overwritten (i : Nat) (b : Broadcast) (ask : PendingAsk) (answer : CallbackAnswer)
      (hop : t.op = .lag ask.requestingAgentId i)
      (hb : (t.before.lines ask.requestingAgentId).carried[i]? = some (.frame b))
      (hfinal : t.before.Finalised ask answer) (h : Answers b ask answer)
  | disconnected (b : Broadcast) (ask : PendingAsk) (answer : CallbackAnswer)
      (hop : t.op = .disconnect ask.requestingAgentId)
      (hb : .frame b ∈ (t.before.lines ask.requestingAgentId).carried)
      (hfinal : t.before.Finalised ask answer) (h : Answers b ask answer)

/-! ### What a step leaves of it -/

variable {uuids : Uuids} {telegram : Service} {parse : String → Option Json}

/-- What has been pasted stays. -/
theorem mem_injected_of_mem {s : Exchange} (op : Op) {x : Injected} (h : x ∈ s.injected) :
    x ∈ (s.next uuids telegram parse op).injected := by
  unfold next
  split
  · exact h
  · exact h
  · split
    · exact h
    · exact h
  · split
    · exact h
    · exact h
  · split
    · exact h
    · exact h
  · split
    · exact h
    · exact List.mem_append_left _ h
  · split
    · exact h
    · exact h
  · exact h

/-- What is to be published stays until it is, unless the daemon goes down. -/
theorem mem_awaiting_of_mem {s : Exchange} (op : Op) {b : Broadcast} (h : b ∈ s.awaiting) :
    b ∈ (s.next uuids telegram parse op).awaiting ∨
      (op = .daemon .crash ∧ s.daemon.running = true) ∨
        op = .publish ∧ ∃ rest, s.awaiting = b :: rest := by
  unfold next
  split
  · exact Or.inl h
  · next o _ =>
    dsimp only
    unfold Link.toPublish
    split
    · exact Or.inl (List.mem_append_left _ h)
    · next hrunning _ => exact Or.inr (Or.inl ⟨rfl, hrunning⟩)
    · exact Or.inl h
  · split
    · exact Or.inl h
    · next b' rest hawaiting =>
      rw [hawaiting] at h
      rcases List.mem_cons.mp h with rfl | h
      · exact Or.inr (Or.inr ⟨rfl, rest, hawaiting⟩)
      · exact Or.inl h
  · split
    · exact Or.inl h
    · exact Or.inl h
  · split
    · exact Or.inl h
    · exact Or.inl h
  · split
    · exact Or.inl h
    · exact Or.inl h
  · split
    · exact Or.inl h
    · exact Or.inl h
  · exact Or.inl h

/-- What is taken out of a list is there, or was at the place. -/
theorem mem_eraseIdx_or {α : Type*} {l : List α} {a : α} (h : a ∈ l) (i : Nat) :
    a ∈ l.eraseIdx i ∨ l[i]? = some a := by
  induction l generalizing i with
  | nil => cases h
  | cons b l ih =>
    cases i with
    | zero =>
      rcases List.mem_cons.mp h with rfl | h
      · exact Or.inr rfl
      · exact Or.inl h
    | succ i =>
      rcases List.mem_cons.mp h with rfl | h
      · exact Or.inl List.mem_cons_self
      · exact (ih h i).imp_left (List.mem_cons_of_mem b)

/-- What is on its way to a session stays until it reads it or loses it. -/
theorem mem_carried_of_mem {s : Exchange} (op : Op) {id : String} {c : Carried}
    (h : c ∈ (s.lines id).carried) :
    c ∈ ((s.next uuids telegram parse op).lines id).carried ∨
      (∃ i readable now, op = .read id i readable now ∧ (s.lines id).carried[i]? = some c) ∨
      (∃ i, op = .lag id i ∧ (s.lines id).carried[i]? = some c) ∨ op = .disconnect id := by
  unfold next
  split
  · exact Or.inl h
  · left
    dsimp only
    split
    · exact h
    · exact h
  · split
    · exact Or.inl h
    · exact Or.inl (List.mem_append_left _ h)
  · left
    split
    · rw [lines_onLine]
      split
      · next hid => exact hid ▸ h
      · exact h
    · exact h
  · left
    split
    · rw [lines_onLine]
      split
      · next hid => exact List.mem_append_left _ (hid ▸ h)
      · exact h
    · exact h
  · next agentId i readable now =>
    split
    · exact Or.inl h
    · rw [lines_onLine]
      split
      · next hid =>
        subst hid
        rcases mem_eraseIdx_or h i with hleft | hread
        · exact Or.inl hleft
        · exact Or.inr (Or.inl ⟨i, readable, now, rfl, hread⟩)
      · exact Or.inl h
  · next agentId i =>
    split
    · rw [lines_onLine]
      split
      · next hid =>
        subst hid
        rcases mem_eraseIdx_or h i with hleft | hread
        · exact Or.inl hleft
        · exact Or.inr (Or.inr (Or.inl ⟨i, rfl, hread⟩))
      · exact Or.inl h
    · exact Or.inl h
  · next agentId =>
    rw [lines_onLine]
    split
    · next hid =>
      subst hid
      exact Or.inr (Or.inr (Or.inr rfl))
    · exact Or.inl h

/-- A frame for the session that reads it, of a chat that is its own. -/
theorem inject_frame {agentId : String} {owns : Option Int → Bool} (now : Int) {b : Broadcast}
    (hfor : b.frame.isFor agentId = true) (howns : owns none = true)
    (hwhole : (splitAgentPreamble parse b.frame.content).1 = b.frame.content) :
    inject parse agentId owns now (.frame b) = [⟨agentId, b.row,
      if b.frame.voice then .telegramVoice else .telegram, b.frame.content⟩] := by
  have hopen : (b.frame.isFor agentId && owns none) = true := by
    rw [hfor, howns]
    rfl
  unfold inject
  dsimp only
  rw [if_pos hopen, hwhole]

/-- A step that loses no answer keeps each on its way. -/
theorem Underway.next {s : Exchange} {ask : PendingAsk} {answer : CallbackAnswer}
    (h : s.Underway ask answer)
    (hparse : ∀ text : String, "[chat_ask".toList <+: text.toList → parse text = none)
    (hfinal : s.Finalised ask answer) (op : Op)
    (hloses : ¬ LosesAnswer ⟨s, op, s.next uuids telegram parse op⟩) :
    (s.next uuids telegram parse op).Underway ask answer := by
  cases h with
  | handed x hx hsession hcontent => exact .handed x (mem_injected_of_mem op hx) hsession hcontent
  | awaiting b hb h =>
    rcases mem_awaiting_of_mem op hb with hb' | ⟨hop, hrunning⟩ | ⟨hop, rest, hawaiting⟩
    · exact .awaiting b hb' h
    · exact absurd (.crashed b ask answer hop hrunning hb hfinal h) hloses
    · by_cases hlistening : b.threadId ∈ (s.lines ask.requestingAgentId).listening
      · refine .carried b ?_ h
        subst hop
        unfold Exchange.next
        rw [hawaiting]
        refine List.mem_append_right _ (List.mem_map.mpr ⟨b.threadId, ?_, rfl⟩)
        exact List.mem_filter.mpr ⟨hlistening, beq_self_eq_true b.threadId⟩
      · exact absurd (.unheard b rest ask answer hop hawaiting hfinal h hlistening) hloses
  | carried b hb h =>
    rcases mem_carried_of_mem op hb with hb' | ⟨i, readable, now, hop, hread⟩ | ⟨i, hop, hread⟩ | hop
    · exact .carried b hb' h
    · cases hno : s.daemon.db.owns readable ask.requestingAgentId b.threadId none with
      | false => exact absurd (.withheld i readable now b ask answer hop hread hfinal h hno) hloses
      | true =>
        have hwhole : (splitAgentPreamble parse b.frame.content).1 = b.frame.content :=
          (Supervisor.splitAgentPreamble_eq_self b.frame.content).mpr
            (h.content ▸ not_hasPreamble_answer hparse ask.askId answer)
        have hnonempty : b.frame.content ≠ "" := by
          rw [h.content]
          intro hempty
          have hchars := congrArg String.toList hempty
          unfold CallbackAnswer.preamble at hchars
          cases answer with
          | single value => simp at hchars
          | multi values => simp at hchars
        have hfor : b.frame.isFor ask.requestingAgentId = true := by
          unfold ChannelFrame.isFor
          rw [h.target]
          simpa using hnonempty
        subst hop
        refine .handed ⟨ask.requestingAgentId, b.row,
          if b.frame.voice then .telegramVoice else .telegram, b.frame.content⟩ ?_ rfl h.content
        have hinject := inject_frame now hfor hno hwhole
        unfold Exchange.next
        dsimp only
        rw [hread]
        refine List.mem_append_right _ ?_
        dsimp only [Carried.threadId]
        rw [hinject]
        exact List.mem_cons_self
    · exact absurd (.overwritten i b ask answer hop hread hfinal h) hloses
    · exact absurd (.disconnected b ask answer hop hb hfinal h) hloses

/-- A step in which a question is answered, and not lost, puts the answer on its way. -/
theorem underway_of_finalises {s : Exchange} {op : Op} {ask : PendingAsk} {answer : CallbackAnswer}
    {u : Step Batch Update} (hu : u ∈ (s.next uuids telegram parse op).daemon.log)
    (hnew : u ∉ s.daemon.log)
    (hstep : ∃ env, u.after = Batch.processUpdate uuids env u.before u.op)
    (h : Finalises u ask answer)
    (hloses : ¬ LosesAnswer ⟨s, op, s.next uuids telegram parse op⟩) :
    (s.next uuids telegram parse op).Underway ask answer := by
  cases @daemonStep_next uuids telegram parse s op with
  | stays hdaemon => exact absurd (hdaemon ▸ hu) hnew
  | drained agentId threadId now hop hdaemon => exact absurd (by rwa [hdaemon] at hu) hnew
  | own o hop hdaemon =>
    subst hop
    have hprefix := Daemon.log_prefix uuids telegram s.daemon o
    have hdrop : u ∈ (s.next uuids telegram parse (.daemon o)).daemon.log.drop
        s.daemon.log.length := by
      rw [hdaemon] at hu ⊢
      obtain ⟨new, hlog⟩ := hprefix
      rw [← hlog] at hu ⊢
      rw [List.drop_left]
      exact (List.mem_append.mp hu).resolve_left hnew
    have hfine : u.before.db.aliveOf ask.requestingAgentId = true ∧ Completes o := by
      by_contra hlost
      exact hloses (.unaddressed o u ask answer rfl hdrop h hlost)
    obtain ⟨halive, upTo, access, env, rfl⟩ := hfine
    obtain ⟨env', hstep⟩ := hstep
    have heq : u = ⟨u.before, u.op, Batch.processUpdate uuids env' u.before u.op⟩ := by
      rw [← hstep]
    obtain ⟨b, hb, hanswers⟩ : ∃ b ∈ broadcastsOf u, Answers b ask answer := by
      rw [heq] at h ⊢
      exact Batch.answers_of_finalises uuids env' h halive
    refine .awaiting b ?_ hanswers
    cases hrunning : s.daemon.running with
    | false =>
      rw [hdaemon] at hu
      unfold Daemon.next at hu
      rw [hrunning] at hu
      exact absurd hu hnew
    | true =>
      rw [hdaemon] at hdrop
      unfold next Link.toPublish bus
      dsimp only
      rw [hrunning]
      exact List.mem_append_right _ (List.mem_flatMap.mpr ⟨u, hdrop, hb⟩)

/-- The log is genuine, and every answer is on its way. -/
structure Answering (uuids : Uuids) (s : Exchange) : Prop where
  log : ∀ t ∈ s.daemon.log, Daemon.Genuine uuids s.daemon t
  underway : ∀ ask answer, s.Finalised ask answer → s.Underway ask answer

theorem answering_fresh : fresh.Answering uuids := by
  constructor
  · exact fun t ht ↦ absurd ht List.not_mem_nil
  · rintro ask answer ⟨u, hu, -⟩
    exact absurd hu List.not_mem_nil

theorem Answering.next {s : Exchange} (h : s.Answering uuids)
    (hparse : ∀ text : String, "[chat_ask".toList <+: text.toList → parse text = none) (op : Op)
    (hloses : ¬ LosesAnswer ⟨s, op, s.next uuids telegram parse op⟩) :
    (s.next uuids telegram parse op).Answering uuids := by
  have hlog := @genuine_next uuids telegram parse s h.log op
  constructor
  · exact hlog
  · rintro ask answer ⟨u, hu, hfinal⟩
    by_cases hold : u ∈ s.daemon.log
    · exact (h.underway ask answer ⟨u, hold, hfinal⟩).next hparse ⟨u, hold, hfinal⟩ op hloses
    · exact underway_of_finalises hu hold (hlog u hu).step hfinal hloses

end Exchange

open Exchange in
/-- In every run that loses no answer, the answer to each question answered for good has been handed
to the session that asked, or is on its way to it. -/
theorem answer_reaches (uuids : Uuids) (telegram : Service) (parse : String → Option Json)
    (hparse : ∀ text : String, "[chat_ask".toList <+: text.toList → parse text = none)
    (ops : List Exchange.Op)
    (h : ∀ t ∈ trace (Exchange.next uuids telegram parse) .fresh ops, ¬ LosesAnswer t) :
    ∀ t ∈ trace (Exchange.next uuids telegram parse) .fresh ops, ∀ ask answer,
      t.after.Finalised ask answer →
        t.after.Underway ask answer ∨ t.after.StoredAnswer ask answer := by
  intro t ht ask answer hfinal
  have hanswering : t.after.Answering uuids := by
    refine (invariant_of_trace (I := Exchange.Answering uuids) answering_fresh ?_ t ht).2
    intro t ht hbefore
    have hloses := h t ht
    have hafter := after_of_mem_trace ht
    have heq : t = ⟨t.before, t.op, t.before.next uuids telegram parse t.op⟩ := by
      rw [← hafter]
    rw [heq] at hloses
    rw [hafter]
    exact hbefore.next hparse t.op hloses
  exact Or.inl (hanswering.underway ask answer hfinal)

namespace Exchange

/-- The session `me` has asked the operator. -/
def shipAsk : PendingAsk :=
  ⟨"q", 7, none, 20, "me", "Ship it?", [("Yes", "yes"), ("No", "no")], false, none, 0, 1000⟩

/-- The operator taps the first button. -/
def tapUpdate : Update :=
  ⟨1, none, some ⟨"c", ⟨7, some "operator"⟩, some "q:yes", some ⟨20, 7, none⟩⟩, Or.inl rfl⟩

/-- A run with the tap. -/
def tapNext : Exchange → Op → Exchange := next .longer (onlyUpdate tapUpdate) fun _ ↦ none

/-- The question is open, and the session is alive and holds the chat. -/
def askedRun : List Op :=
  [.daemon (.start 0),
    .daemon (.others (.insertOrReplace .empty shipAsk) Link.boundRegistry .empty)]

/-- The tap is processed and the answer published. -/
def tappedRun : List Op :=
  [.daemon (.poll 1 Daemon.operatorAccess Link.tickEnv .complete), .publish]

/-- What must be seen of a step to see that it loses no answer of `me`. -/
def keepsAnswer (t : Step Exchange Op) : Bool :=
  match t.op with
  | .daemon .crash => false
  | .daemon (.poll _ _ _ .complete) =>
    (t.after.daemon.log.drop t.before.daemon.log.length).all fun u ↦
      u.before.db.pendingAsks.rows.all fun ask ↦ u.before.db.aliveOf ask.requestingAgentId
  | .daemon _ => t.after.daemon.log.length == t.before.daemon.log.length
  | .publish => t.before.awaiting.all fun b ↦ b.frame.targetAgentId.all fun id ↦
      (t.before.lines id).listening.contains b.threadId
  | .read agentId i readable _ => ((t.before.lines agentId).carried[i]?.map Carried.threadId).all
      fun threadId ↦ t.before.daemon.db.owns readable agentId threadId none
  | .lag _ _ | .disconnect _ => false
  | .listen _ _ | .drain _ _ _ => true

theorem Finalises.mem {u : Step Batch Update} {ask : PendingAsk} {answer : CallbackAnswer}
    (h : Finalises u ask answer) : ask ∈ u.before.db.pendingAsks.rows := by
  cases h with
  | single suffix hreached hrow hsingle => exact (Table.get?_eq_some_iff.mp hrow).1
  | multi hreached hrow hmulti => exact (Table.get?_eq_some_iff.mp hrow).1

theorem not_losesAnswer {t : Step Exchange Op} (h : keepsAnswer t = true) : ¬ LosesAnswer t := by
  intro hloses
  cases hloses with
  | unaddressed op u ask answer hop hu hfinal hlost =>
    obtain ⟨before, o, after⟩ := t
    dsimp only at hop hu
    subst hop
    unfold keepsAnswer at h
    split at h
    · cases h
    · next hcomplete =>
      cases hcomplete
      rw [List.all_eq_true] at h
      have halive := List.all_eq_true.mp (h u hu) ask (Finalises.mem hfinal)
      exact hlost ⟨halive, _, _, _, rfl⟩
    · rw [beq_iff_eq] at h
      rw [← h, List.drop_length] at hu
      cases hu
    · next hop => cases hop
    · next hop => cases hop
    · cases h
    · cases h
    · next hop => cases hop
    · next hop => cases hop
  | crashed b ask answer hop => simp [keepsAnswer, hop] at h
  | unheard b rest ask answer hop hb hfinal hanswers hdeaf =>
    simp [keepsAnswer, hop, hb, hanswers.target] at h
    exact hdeaf h.1
  | withheld i readable now b ask answer hop hb hfinal hanswers hno =>
    simp [keepsAnswer, hop, hb, Carried.threadId, hno] at h
  | overwritten i b ask answer hop => simp [keepsAnswer, hop] at h
  | disconnected b ask answer hop => simp [keepsAnswer, hop] at h

end Exchange

open Exchange in
/-- A session that listens when the operator taps reads the answer. -/
theorem answer_reaches_read :
    (run tapNext .fresh (askedRun ++ [.listen "me" "telegram:7"] ++ tappedRun ++
      [.read "me" 0 (fun _ ↦ true) 1])).Underway shipAsk (.single "yes") := by
  have hfinal : (run tapNext .fresh (askedRun ++ [.listen "me" "telegram:7"] ++ tappedRun ++
      [.read "me" 0 (fun _ ↦ true) 1])).Finalised shipAsk (.single "yes") :=
    ⟨_, List.mem_cons_self, .single "yes" (by decide) (by decide) rfl⟩
  have hkeeps : ∀ t ∈ trace tapNext .fresh (askedRun ++ [.listen "me" "telegram:7"] ++ tappedRun ++
      [.read "me" 0 (fun _ ↦ true) 1]), keepsAnswer t = true := by
    decide +kernel
  have hreaches := answer_reaches .longer (onlyUpdate tapUpdate) (fun _ ↦ none) (fun _ _ ↦ rfl) _
    (fun t ht ↦ not_losesAnswer (hkeeps t ht)) _
    (mem_trace_append (askedRun ++ [.listen "me" "telegram:7"] ++ tappedRun)
      (.read "me" 0 (fun _ ↦ true) 1) []) shipAsk (.single "yes") hfinal
  refine hreaches.resolve_right ?_
  rintro ⟨m, hm, -⟩
  cases hm

open Exchange in
/-- A session that comes back after the tap gets nothing, and the question is gone. -/
theorem answer_reaches_reconnected :
    (run tapNext .fresh (askedRun ++ tappedRun ++ subscribing "me")).Finalised shipAsk
        (.single "yes") ∧
      (run tapNext .fresh (askedRun ++ tappedRun ++ subscribing "me")).daemon.db.pendingAsks.rows = [] ∧
      ¬ ((run tapNext .fresh (askedRun ++ tappedRun ++ subscribing "me")).Underway shipAsk
          (.single "yes") ∨
        (run tapNext .fresh (askedRun ++ tappedRun ++ subscribing "me")).StoredAnswer shipAsk
          (.single "yes")) := by
  refine ⟨⟨_, List.mem_cons_self, .single "yes" (by decide) (by decide) rfl⟩, by decide, ?_⟩
  rintro (h | ⟨m, hm, -⟩)
  · cases h with
    | handed x hx hsession hcontent => cases hx
    | awaiting b hb h => cases hb
    | carried b hb h => cases hb
  · cases hm

end Claudebase.Telegram
