import Claudebase.Telegram.Outbound

/-!
# Replies between the tool and the send

`src/daemon/chat.rs:1372–1411`, `src/daemon/server.rs:1290–1396`,
`src/daemon/telegram.rs:1815–1886`. A reply an agent was promised is sent or waits unmarked for
the next start. The send loop marks what it has sent; a subscription to the thread marks what
it hands out, replies still waiting among it, and no start looks at those again.
-/

namespace Claudebase.Telegram
open Claudebase.Base

/-! ### Rows left as they are -/

/-- Every message keeps its row, mark included. -/
def Keeps (db db' : Db) : Prop := ∀ m ∈ db.chatMessages.rows, m ∈ db'.chatMessages.rows

theorem keeps_refl (db : Db) : Keeps db db := fun _ hm ↦ hm

theorem keeps_trans (db db' db'' : Db) (h : Keeps db db') (h' : Keeps db' db'') : Keeps db db'' :=
  fun m hm ↦ h' m (h m hm)

theorem Keeps.of_append {db db' : Db} {new : List ChatMessage}
    (h : db'.chatMessages.rows = db.chatMessages.rows ++ new) : Keeps db db' := by
  intro m hm
  rw [h]
  exact List.mem_append_left _ hm

theorem keeps_process (uuids : Uuids) (env : Env) (db : Db) (access : Access)
    (batch : List Update) : Keeps db (Batch.process uuids env db access batch).db := by
  unfold Batch.process
  split
  · exact keeps_refl db
  · obtain ⟨new, -, happ⟩ := Batch.extends_updates uuids env db access batch
    apply Keeps.of_append
    rw [(Batch.advanceOffset_db _).1]
    exact happ.rows

namespace Daemon

variable (uuids : Uuids) (telegram : Service)

theorem keeps_commit (env : Env) (access : Access) (s : Daemon) (c : Commit) :
    Keeps s.db (s.commit uuids env access c).db := by
  cases c with
  | park u => exact keeps_refl s.db
  | advance maxId => exact keeps_refl s.db
  | process batch => exact keeps_process uuids env s.db access batch
  | unpark updateId => exact keeps_refl s.db
  | collect => exact keeps_refl s.db

theorem keeps_pollCycle (s : Daemon) (upTo : Int) (access : Access) (env : Env)
    (progress : Progress) :
    Keeps s.db (s.pollCycle uuids telegram upTo access env progress).db := by
  unfold pollCycle
  split
  · exact keeps_refl s.db
  · exact rel_run (R := fun s s' : Daemon ↦ Keeps s.db s'.db) (fun s ↦ keeps_refl s.db)
      (fun a b c ↦ keeps_trans a.db b.db c.db) (keeps_commit uuids env access)
      (s.receive telegram upTo) _

/-! ### What a step does to the marks -/

/-- The history of replies and sends only grows, and a new reply has an unmarked row. -/
structure Records (s s' : Daemon) : Prop where
  recorded : ∀ id ∈ s.recorded, id ∈ s'.recorded
  replies : ∀ r ∈ s'.replies, r ∈ s.replies ∨
    ∃ m ∈ s'.db.chatMessages.rows, SameMessage r.message m ∧ m.deliveredAt = none

theorem Records.of_eq {s s' : Daemon} (hrecorded : s'.recorded = s.recorded)
    (hreplies : s'.replies = s.replies) : Records s s' := by
  constructor
  · rw [hrecorded]
    exact fun id hid ↦ hid
  · rw [hreplies]
    exact fun r hr ↦ Or.inl hr

/-- Marks are written by a send that succeeded and by a subscription. -/
inductive Marks (s : Daemon) (op : Op) (s' : Daemon) : Prop where
  | none (hrecords : Records s s') (hkeeps : Keeps s.db s'.db)
  | send (now : Int) (o : Outbound) (rest : List Outbound) (id : String)
      (hop : op = .send now true) (hid : o.msgDbId = some id)
      (hafter : s' = { s with
        outbound := rest, db := s.db.markDelivered id now, recorded := s.recorded ++ [id] })
  | subscribe (threadId : String) (now : Int) (hop : op = .subscribe threadId now)
      (hrunning : s.running = true)
      (hafter : s' = { s with db := (s.db.drainBacklog threadId now).2 })

theorem marks_handleChatPost (s : Daemon) (op : Op) (tool : Tool) (args : Json) (seed : Nat)
    (now : Int) : Marks s op (s.handleChatPost uuids tool args seed now) := by
  unfold handleChatPost
  extract_lets thread replyTo stored
  have hrows : stored.2.chatMessages.rows = s.db.chatMessages.rows ++ [stored.1] := rfl
  split
  · exact .none (.of_eq rfl rfl) (keeps_refl s.db)
  · split
    · refine .none ⟨fun id hid ↦ hid, fun r hr ↦ ?_⟩ (.of_append hrows)
      rw [List.mem_append, List.mem_singleton] at hr
      apply hr.imp_right
      intro hr
      subst hr
      exact ⟨stored.1, hrows ▸ List.mem_append_right _ List.mem_cons_self, .refl _, rfl⟩
    · exact .none (.of_eq rfl rfl) (.of_append hrows)

theorem marks_sendNext (s : Daemon) (now : Int) (ok : Bool) :
    Marks s (.send now ok) (s.sendNext now ok) := by
  unfold sendNext
  split
  · exact .none (.of_eq rfl rfl) (keeps_refl s.db)
  · next o rest _ =>
    split
    · next id hid => exact .send now o rest id rfl hid rfl
    · exact .none (.of_eq rfl rfl) (keeps_refl s.db)

/-- Every step leaves the marks alone, is a send that succeeded, or is a subscription. -/
theorem marks_next (s : Daemon) (op : Op) : Marks s op (next uuids telegram s op) := by
  unfold next
  split
  · next upTo access env progress _ =>
    have hsame := sameReplies_pollCycle uuids telegram s upTo access env progress
    exact .none (.of_eq hsame.recorded hsame.replies)
      (keeps_pollCycle uuids telegram s upTo access env progress)
  · unfold transcribe
    split
    · exact .none (.of_eq rfl rfl) (keeps_refl s.db)
    · exact .none (.of_eq rfl rfl) (keeps_refl s.db)
  · exact marks_handleChatPost uuids s _ _ _ _ _
  · exact marks_sendNext s _ _
  · next threadId now hrunning => exact .subscribe threadId now rfl hrunning rfl
  · exact .none (.of_eq rfl rfl) (keeps_refl s.db)
  · exact .none (.of_eq rfl rfl) (keeps_refl s.db)
  · exact .none (.of_eq rfl rfl) (keeps_refl s.db)
  · exact .none (.of_eq rfl rfl) (keeps_refl s.db)

/-! ### Replies accounted for -/

/-- The row of a reply has no mark. -/
def Waits (s : Daemon) (r : Reply) : Prop :=
  ∃ m ∈ s.db.chatMessages.rows, SameMessage r.message m ∧ m.deliveredAt = none

instance (s : Daemon) (r : Reply) : Decidable (s.Waits r) :=
  inferInstanceAs (Decidable (∃ m ∈ _, _ = _ ∧ _ = _))

/-- Every reply accepted is recorded as sent or waits. -/
def Accounted (s : Daemon) : Prop :=
  ∀ r ∈ s.replies, r.message.id ∈ s.recorded ∨ s.Waits r

instance (s : Daemon) : Decidable s.Accounted :=
  inferInstanceAs (Decidable (∀ r ∈ s.replies, _ ∨ s.Waits r))

/-- A step after which no reply is lost: each is sent or waits, only a send that succeeded
marks one, and a start queues those of the last day for their chats. -/
structure LosesNoReply (t : Step Daemon Op) : Prop where
  accounted : t.after.Accounted
  marked : ∀ r ∈ t.before.replies, t.before.Waits r → ¬ t.after.Waits r →
    (∃ now, t.op = .send now true) ∧ r.message.id ∈ t.after.recorded
  queued : ∀ now, t.op = .start now → t.before.running = false →
    ∀ r ∈ t.before.replies, t.before.isUnsent now r = true →
      ∃ o ∈ t.after.outbound, o.chatId = r.chatId ∧ o.text = r.message.content ∧
        o.msgDbId = some r.message.id

/-- A subscription to a thread with a reply whose sending is not recorded. -/
def TakesReply (t : Step Daemon Op) : Prop :=
  t.before.running = true ∧ ∃ threadId now, t.op = .subscribe threadId now ∧
    ∃ r ∈ t.before.replies, r.message.threadId = threadId ∧ r.message.id ∉ t.before.recorded

/-- A start with an unsent reply under the name that is filtered out. -/
def SkipsReply (t : Step Daemon Op) : Prop :=
  t.before.running = false ∧ ∃ now, t.op = .start now ∧
    ∃ r ∈ t.before.replies, t.before.isUnsent now r = true ∧ r.message.fromAgent = "tg"

variable {uuids telegram}

/-- A waiting reply keeps waiting, is recorded as sent, or is taken by a subscription. -/
theorem Marks.waits {s s' : Daemon} {op : Op} (h : Marks s op s') {r : Reply} (hr : r ∈ s.replies)
    (htakes : ¬ TakesReply ⟨s, op, s'⟩) (hwaits : s.Waits r) :
    s'.Waits r ∨ r.message.id ∈ s'.recorded := by
  obtain ⟨m, hm, hsame, hmark⟩ := hwaits
  cases h with
  | none hrecords hkeeps => exact Or.inl ⟨m, hkeeps m hm, hsame, hmark⟩
  | send now o rest id hop hid hafter =>
    subst hafter
    by_cases hmid : m.id = id
    · right
      rw [← hsame.id_eq, hmid]
      exact List.mem_append_right _ List.mem_cons_self
    · exact Or.inl ⟨m, Db.mem_markDelivered.mpr ⟨m, hm, if_neg hmid⟩, hsame, hmark⟩
  | subscribe threadId now hop hrunning hafter =>
    subst hafter
    by_cases hsent : r.message.id ∈ s.recorded
    · exact Or.inr hsent
    · left
      have hthread : m.threadId ≠ threadId := by
        intro hthread
        rw [hsame] at hthread
        exact htakes ⟨hrunning, threadId, now, hop, r, hr, hthread, hsent⟩
      exact ⟨m, Db.mem_drainBacklog.mpr ⟨m, hm, if_neg fun h ↦ hthread h.1⟩, hsame, hmark⟩

theorem Marks.recorded {s s' : Daemon} {op : Op} (h : Marks s op s') :
    ∀ id ∈ s.recorded, id ∈ s'.recorded := by
  intro id hid
  cases h with
  | none hrecords hkeeps => exact hrecords.recorded id hid
  | send now o rest id' hop hid' hafter =>
    subst hafter
    exact List.mem_append_left _ hid
  | subscribe threadId now hop hrunning hafter =>
    subst hafter
    exact hid

/-- A reply accepted in a step waits after it. -/
theorem Marks.replies {s s' : Daemon} {op : Op} (h : Marks s op s') :
    ∀ r ∈ s'.replies, r ∈ s.replies ∨ s'.Waits r := by
  intro r hr
  cases h with
  | none hrecords hkeeps => exact hrecords.replies r hr
  | send now o rest id hop hid hafter =>
    subst hafter
    exact Or.inl hr
  | subscribe threadId now hop hrunning hafter =>
    subst hafter
    exact Or.inl hr

/-- A waiting reply is not recorded as sent, for a recorded one is marked. -/
theorem Ledger.not_recorded {s : Daemon} (h : Ledger s) {r : Reply} (hwaits : s.Waits r) :
    r.message.id ∉ s.recorded := by
  obtain ⟨m, hm, hsame, hmark⟩ := hwaits
  rw [← hsame.id_eq]
  exact fun hid ↦ h.marked m hm hid hmark

/-- A start queues a waiting reply of the last day. -/
theorem Ledger.queued_of_waits {s : Daemon} (h : Ledger s) {r : Reply} (hr : r ∈ s.replies)
    (hwaits : s.Waits r) {now : Int} (hrecent : isRecent now r.message = true)
    (hauthor : r.message.fromAgent ≠ "tg") :
    ∃ o ∈ (s.start now).outbound, o.chatId = r.chatId ∧ o.text = r.message.content ∧
      o.msgDbId = some r.message.id := by
  obtain ⟨m, hm, hsame, hmark⟩ := hwaits
  have hrow : m.threadId = r.message.threadId ∧ isRecent now m = true ∧
      m.fromAgent ≠ "tg" ∧ m.content = r.message.content := by
    rw [hsame]
    exact ⟨rfl, hrecent, hauthor, rfl⟩
  obtain ⟨hthread, hrecent, hauthor, hcontent⟩ := hrow
  refine ⟨⟨r.chatId, none, m.content, some m.id⟩, ?_, rfl, hcontent, ?_⟩
  · apply mem_drain.mpr
    exact ⟨m, hm, r.chatId, hthread ▸ h.chat r hr, hmark, hrecent, hauthor, rfl⟩
  · rw [hsame.id_eq]

/-- A step loses no reply unless a subscription takes one or a start skips one. -/
theorem losesNoReply_next {s : Daemon} (hledger : Ledger s) (haccounted : s.Accounted) (op : Op)
    (htakes : ¬ TakesReply ⟨s, op, next uuids telegram s op⟩)
    (hskips : ¬ SkipsReply ⟨s, op, next uuids telegram s op⟩) :
    LosesNoReply ⟨s, op, next uuids telegram s op⟩ := by
  have hmarks := marks_next uuids telegram s op
  constructor
  · intro r hr
    rcases hmarks.replies r hr with hr | hwaits
    · rcases haccounted r hr with hsent | hwaits
      · exact Or.inl (hmarks.recorded _ hsent)
      · exact (hmarks.waits hr htakes hwaits).symm
    · exact Or.inr hwaits
  · intro r hr hwaits hgone
    have hsent := (hmarks.waits hr htakes hwaits).resolve_left hgone
    refine ⟨?_, hsent⟩
    -- a recorded send is the only step that makes a waiting reply a recorded one
    generalize next uuids telegram s op = s' at hmarks hgone hsent htakes
    cases hmarks with
    | none hrecords hkeeps =>
      obtain ⟨m, hm, hrest⟩ := hwaits
      exact absurd ⟨m, hkeeps m hm, hrest⟩ hgone
    | send now o rest id hop hid hafter => exact ⟨now, hop⟩
    | subscribe threadId now hop hrunning hafter =>
      subst hafter
      exact absurd hsent (hledger.not_recorded hwaits)
  · intro now hop hdown r hr hunsent
    have hop : op = .start now := hop
    have hdown : s.running = false := hdown
    subst hop
    have hstart : next uuids telegram s (.start now) = s.start now := by
      unfold next
      rw [hdown]
    have hunsent' : isRecent now r.message = true ∧ r.message.id ∉ s.recorded := by
      simpa [isUnsent] using hunsent
    have hauthor : r.message.fromAgent ≠ "tg" := by
      intro hauthor
      exact hskips ⟨hdown, now, rfl, r, hr, hunsent, hauthor⟩
    have hwaits : s.Waits r := (haccounted r hr).resolve_left hunsent'.2
    rw [hstart]
    exact hledger.queued_of_waits hr hwaits hunsent'.1 hauthor

/-- A subscription that takes a reply loses it. -/
theorem LosesNoReply.not_takesReply {s : Daemon} {op : Op}
    (h : LosesNoReply ⟨s, op, next uuids telegram s op⟩) :
    ¬ TakesReply ⟨s, op, next uuids telegram s op⟩ := by
  rintro ⟨hrunning, threadId, now, hop, r, hr, hthread, hunsent⟩
  have hrunning : s.running = true := hrunning
  have hop : op = .subscribe threadId now := hop
  subst hop
  have hafter : next uuids telegram s (.subscribe threadId now) =
      { s with db := (s.db.drainBacklog threadId now).2 } := by
    unfold next
    rw [hrunning]
  rw [hafter] at h
  obtain ⟨m', hm', hsame, hmark⟩ := (h.accounted r hr).resolve_left hunsent
  have hthread' : m'.threadId = threadId := by
    rw [hsame]
    exact hthread
  -- every row of the thread has a mark now
  obtain ⟨m, -, rfl⟩ := Db.mem_drainBacklog.mp hm'
  split at hmark
  · cases hmark
  · next hne =>
    rw [if_neg hne] at hthread'
    exact hne ⟨hthread', hmark⟩

/-- A start that skips a reply does not queue it. -/
theorem LosesNoReply.not_skipsReply {s : Daemon} (hledger : Ledger s) {op : Op}
    (h : LosesNoReply ⟨s, op, next uuids telegram s op⟩) :
    ¬ SkipsReply ⟨s, op, next uuids telegram s op⟩ := by
  rintro ⟨hdown, now, hop, r, hr, hunsent, hauthor⟩
  have hdown : s.running = false := hdown
  have hop : op = .start now := hop
  subst hop
  have hstart : next uuids telegram s (.start now) = s.start now := by
    unfold next
    rw [hdown]
  rw [hstart] at h
  obtain ⟨o, ho, -, -, hid⟩ := h.queued now rfl hdown r hr hunsent
  obtain ⟨m, hm, chatId, -, -, -, hother, rfl⟩ := mem_drain.mp ho
  have hrow := hledger.eq_row hr hm (Option.some.inj hid)
  rw [hrow] at hother
  exact hother hauthor

end Daemon

open Daemon in
/-- A run loses no reply if and only if no subscription takes an unsent one and no start finds
an unsent one under the name `tg`. -/
theorem reply_not_lost (uuids : Uuids) (telegram : Service) (ops : List Daemon.Op) :
    (∀ t ∈ trace (Daemon.next uuids telegram) .fresh ops, LosesNoReply t) ↔
      ∀ t ∈ trace (Daemon.next uuids telegram) .fresh ops, ¬ TakesReply t ∧ ¬ SkipsReply t := by
  have hledger : ∀ t ∈ trace (Daemon.next uuids telegram) .fresh ops, Ledger t.before := by
    intro t ht
    refine (invariant_of_trace (I := Ledger) ledger_fresh (fun t ht hbefore ↦ ?_) t ht).1
    rw [after_of_mem_trace ht]
    exact ledger_next uuids telegram hbefore t.op
  have hstep : ∀ t ∈ trace (Daemon.next uuids telegram) .fresh ops,
      t = ⟨t.before, t.op, Daemon.next uuids telegram t.before t.op⟩ := by
    intro t ht
    rw [← after_of_mem_trace ht]
  constructor
  · intro h t ht
    have hloses := h t ht
    rw [hstep t ht] at hloses ⊢
    exact ⟨hloses.not_takesReply, hloses.not_skipsReply (hledger t ht)⟩
  · intro h
    have hkeep : ∀ t ∈ trace (Daemon.next uuids telegram) .fresh ops, t.before.Accounted →
        LosesNoReply t := by
      intro t ht haccounted
      have hcond := h t ht
      rw [hstep t ht] at hcond ⊢
      exact losesNoReply_next (hledger t ht) haccounted t.op hcond.1 hcond.2
    have hfresh : Accounted .fresh := fun r hr ↦ absurd hr List.not_mem_nil
    intro t ht
    refine hkeep t ht (invariant_of_trace (I := Accounted) hfresh ?_ t ht).1
    exact fun t ht haccounted ↦ (hkeep t ht haccounted).accounted

open Daemon in
/-- An agent replies and its session subscribes to the thread before the bot sends. After a
crash the next start does not queue the reply, which was never sent. -/
theorem reply_not_lost_taken :
    let s := run (Daemon.next .longer helloService) .fresh
      [.start 0, .chatPost .chatReply doneArgs 0 0, .subscribe "telegram:7" 0, .crash]
    ¬ s.Accounted ∧ (s.start 1).outbound = [] ∧ (s.owed 1).map Outbound.text = ["done"] := by
  decide

end Claudebase.Telegram
