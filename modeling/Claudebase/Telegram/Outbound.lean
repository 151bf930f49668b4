import Claudebase.Telegram.Poll

/-!
# What a start sends again

`src/daemon/telegram.rs:186–239`. A start queues what the table holds on chat threads without
a mark. That is to be the replies of the last day whose sending was never recorded, each for
its chat and topic. The table tells them apart by author and mark only: messages from
Telegram carry another author than the one filtered out, a subscription sets the same mark as
a sending, and the topic of a reply is not stored.
-/

namespace Claudebase.Telegram
open Claudebase.Base

/-- A reply as it is queued when it is written. -/
def Reply.entry (r : Reply) : Outbound :=
  ⟨r.chatId, r.threadId, r.message.content, some r.message.id⟩

namespace Daemon

/-- A reply of the last day whose sending was never recorded. -/
def isUnsent (s : Daemon) (now : Int) (r : Reply) : Bool :=
  isRecent now r.message && !s.recorded.contains r.message.id

/-- What a start at `now` owes the operator. -/
def owed (s : Daemon) (now : Int) : List Outbound :=
  (s.replies.filter (s.isUnsent now)).map Reply.entry

/-- The marks, authors and topics under which a start finds what is owed. -/
structure Recoverable (s : Daemon) (now : Int) : Prop where
  /-- Every other message of the last day on a chat thread, from Telegram or posted by an
  agent, has been handed to a subscriber. -/
  taken : ∀ m ∈ s.db.chatMessages.rows, m.id ∉ s.replies.map (fun r ↦ r.message.id) →
    (chatOf? m.threadId).isSome = true → isRecent now m = true → m.fromAgent ≠ "tg" →
    m.deliveredAt ≠ none
  /-- No subscription has taken an unsent reply. -/
  untaken : ∀ r ∈ s.replies, s.isUnsent now r = true →
    ∀ m ∈ s.db.chatMessages.rows, m.id = r.message.id → m.deliveredAt = none
  /-- No unsent reply is for a topic. -/
  topicless : ∀ r ∈ s.replies, s.isUnsent now r = true → r.threadId = none
  /-- No unsent reply is written under the name that is filtered out. -/
  author : ∀ r ∈ s.replies, s.isUnsent now r = true → r.message.fromAgent ≠ "tg"

/-! ### The drain -/

/-- A thread of a chat matches the pattern. -/
theorem likeTelegram_of_chatOf? {threadId : String} {chatId : Int}
    (h : chatOf? threadId = some chatId) : likeTelegram threadId = true := by
  obtain ⟨rest, hrest, -⟩ := Option.bind_eq_some_iff.mp h
  obtain ⟨cs, hcs, -⟩ := Option.map_eq_some_iff.mp hrest
  obtain ⟨start, hstart, heq⟩ := List.dropPrefix?_eq_some_iff.mp hcs
  obtain rfl : start = "telegram:".toList := eq_of_beq heq
  unfold likeTelegram
  rw [hstart]
  rw [List.take_left' (by decide)]
  decide

/-- What the drain puts on the queue, row by row. -/
theorem mem_drain {db : Db} {now : Int} {o : Outbound} :
    o ∈ drainPendingOutboundTg db now ↔ ∃ m ∈ db.chatMessages.rows, ∃ chatId,
      chatOf? m.threadId = some chatId ∧ m.deliveredAt = none ∧ isRecent now m = true ∧
        m.fromAgent ≠ "tg" ∧ o = ⟨chatId, none, m.content, some m.id⟩ := by
  unfold drainPendingOutboundTg
  rw [List.mem_filterMap]
  constructor
  · rintro ⟨m, hm, ho⟩
    obtain ⟨hm, hpending⟩ := List.mem_filter.mp ((List.perm_insertionSort _ _).mem_iff.mp hm)
    obtain ⟨chatId, hchat, rfl⟩ := Option.map_eq_some_iff.mp ho
    have hp : m.deliveredAt = none ∧ isRecent now m = true ∧ m.fromAgent ≠ "tg" := by
      simpa [isPendingOutbound, likeTelegram_of_chatOf? hchat, and_assoc] using hpending
    exact ⟨m, hm, chatId, hchat, hp.1, hp.2.1, hp.2.2, rfl⟩
  · rintro ⟨m, hm, chatId, hchat, hmark, hrecent, hauthor, rfl⟩
    refine ⟨m, (List.perm_insertionSort _ _).mem_iff.mpr (List.mem_filter.mpr ⟨hm, ?_⟩), ?_⟩
    · simp [isPendingOutbound, likeTelegram_of_chatOf? hchat, hmark, hrecent, hauthor]
    · rw [hchat]
      rfl

/-- Each row is queued once. -/
theorem nodup_drain (db : Db) (now : Int) : (drainPendingOutboundTg db now).Nodup := by
  have hids : (db.chatMessages.rows.filter (isPendingOutbound now)).Pairwise
      fun a b ↦ a.id ≠ b.id := by
    have h : ((db.chatMessages.rows.filter (isPendingOutbound now)).map ChatMessage.id).Nodup :=
      Table.nodup_map_key_filter
    rwa [List.Nodup, List.pairwise_map] at h
  have hsorted := ((List.perm_insertionSort (fun a b : ChatMessage ↦ a.createdAt ≤ b.createdAt)
    (db.chatMessages.rows.filter (isPendingOutbound now))).pairwise_iff Ne.symm).mpr hids
  unfold drainPendingOutboundTg
  rw [List.Nodup, List.pairwise_filterMap]
  refine hsorted.imp fun {a b} hne o ho o' ho' heq ↦ hne ?_
  obtain ⟨c, -, rfl⟩ := Option.map_eq_some_iff.mp ho
  obtain ⟨c', -, rfl⟩ := Option.map_eq_some_iff.mp ho'
  simpa using congrArg Outbound.msgDbId heq

/-- A mark is set on every row under the id. -/
theorem ne_none_of_mem_markDelivered {db : Db} {id : String} {now : Int} {m : ChatMessage}
    (h : m ∈ (db.markDelivered id now).chatMessages.rows) (hid : m.id = id) :
    m.deliveredAt ≠ none := by
  obtain ⟨m', -, rfl⟩ := Db.mem_markDelivered.mp h
  split
  · exact Option.some_ne_none now
  · next hne =>
    rw [if_neg hne] at hid
    exact absurd hid hne

/-! ### The ledger of replies -/

/-- What the history says about the table: every reply is in it, under its own id and on the
thread of its chat, and a recorded sending has left its mark. -/
structure Ledger (s : Daemon) : Prop where
  nodup : (s.replies.map fun r ↦ r.message.id).Nodup
  stored : ∀ r ∈ s.replies, ∃ m ∈ s.db.chatMessages.rows, SameMessage r.message m
  chat : ∀ r ∈ s.replies, chatOf? r.message.threadId = some r.chatId
  queued : ∀ o ∈ s.outbound, ∀ id ∈ o.msgDbId, id ∈ s.db.chatMessages.rows.map ChatMessage.id
  known : ∀ id ∈ s.recorded, id ∈ s.db.chatMessages.rows.map ChatMessage.id
  marked : ∀ m ∈ s.db.chatMessages.rows, m.id ∈ s.recorded → m.deliveredAt ≠ none

theorem ledger_fresh : Ledger fresh := by
  constructor
  · exact List.nodup_nil
  · exact fun r hr ↦ absurd hr List.not_mem_nil
  · exact fun r hr ↦ absurd hr List.not_mem_nil
  · exact fun o ho ↦ absurd ho List.not_mem_nil
  · exact fun id hid ↦ absurd hid List.not_mem_nil
  · exact fun m hm ↦ absurd hm List.not_mem_nil

/-- Steps that write no reply and record no sending. -/
theorem Ledger.of_grows {s s' : Daemon} (h : Ledger s) (hdb : Grows s.db s'.db)
    (hreplies : s'.replies = s.replies) (hrecorded : s'.recorded = s.recorded)
    (hqueued : ∀ o ∈ s'.outbound, ∀ id ∈ o.msgDbId,
      id ∈ s'.db.chatMessages.rows.map ChatMessage.id) : Ledger s' where
  nodup := by
    rw [hreplies]
    exact h.nodup
  stored r hr := by
    obtain ⟨m, hm, hsame⟩ := h.stored r (hreplies ▸ hr)
    obtain ⟨m', hm', hsame'⟩ := hdb.kept m hm
    exact ⟨m', hm', hsame.trans hsame'⟩
  chat r hr := h.chat r (hreplies ▸ hr)
  queued := hqueued
  known id hid := hdb.mem_ids (h.known id (hrecorded ▸ hid))
  marked m hm hid hnone := by
    rw [hrecorded] at hid
    exact h.marked m (hdb.unmarked m hm hnone (h.known _ hid)) hid hnone

variable (uuids : Uuids)

/-- The id of a new message is no reply's. -/
theorem Ledger.not_mem_replies {s : Daemon} (h : Ledger s) {id : String}
    (hid : id ∉ s.db.chatMessages.rows.map ChatMessage.id) :
    id ∉ s.replies.map fun r ↦ r.message.id := by
  intro hmem
  obtain ⟨r, hr, rfl⟩ := List.mem_map.mp hmem
  obtain ⟨m, hm, hsame⟩ := h.stored r hr
  rw [← hsame.id_eq] at hid
  exact hid (List.mem_map_of_mem hm)

theorem Ledger.handleChatPost {s : Daemon} (h : Ledger s) (tool : Tool) (args : Json) (seed : Nat)
    (now : Int) : Ledger (s.handleChatPost uuids tool args seed now) := by
  unfold Daemon.handleChatPost
  extract_lets thread replyTo stored
  split
  · exact h
  · have hfresh : stored.1.id ∉ s.db.chatMessages.rows.map ChatMessage.id :=
      uuids.new_not_mem _ _
    have hrows : stored.2.chatMessages.rows = s.db.chatMessages.rows ++ [stored.1] := rfl
    have hgrows : Grows s.db stored.2 := .of_append hrows
    have hlast : stored.1 ∈ stored.2.chatMessages.rows := by
      rw [hrows]
      exact List.mem_append_right _ List.mem_cons_self
    have hstored : Ledger { s with db := stored.2 } :=
      h.of_grows hgrows rfl rfl fun o ho id hid ↦ hgrows.mem_ids (h.queued o ho id hid)
    split
    · next chatId hchat =>
      constructor
      · rw [List.map_append, List.nodup_append]
        refine ⟨h.nodup, List.nodup_singleton _, fun id hid id' hid' heq ↦ ?_⟩
        obtain rfl : id' = stored.1.id := List.mem_singleton.mp hid'
        rw [heq] at hid
        exact h.not_mem_replies hfresh hid
      · intro r hr
        rcases List.mem_append.mp hr with hr | hr
        · exact hstored.stored r hr
        · obtain rfl := List.mem_singleton.mp hr
          exact ⟨stored.1, hlast, .refl _⟩
      · intro r hr
        rcases List.mem_append.mp hr with hr | hr
        · exact h.chat r hr
        · obtain rfl := List.mem_singleton.mp hr
          exact hchat
      · intro o ho id hid
        rcases List.mem_append.mp ho with ho | ho
        · exact hstored.queued o ho id hid
        · obtain rfl := List.mem_singleton.mp ho
          obtain rfl : stored.1.id = id := by simpa using hid
          exact List.mem_map_of_mem hlast
      · exact hstored.known
      · exact hstored.marked
    · exact hstored

theorem Ledger.sendNext {s : Daemon} (h : Ledger s) (now : Int) (ok : Bool) :
    Ledger (s.sendNext now ok) := by
  have hgrows := grows_sendNext s now ok
  unfold Daemon.sendNext at hgrows ⊢
  split
  · exact h
  · next o rest hout =>
    rw [hout] at hgrows
    have hrest : ∀ o' ∈ rest, ∀ id ∈ o'.msgDbId, id ∈ s.db.chatMessages.rows.map ChatMessage.id :=
      fun o' ho' ↦ h.queued o' (hout ▸ List.mem_cons_of_mem _ ho')
    split
    · next id hid =>
      have hstored : id ∈ s.db.chatMessages.rows.map ChatMessage.id :=
        h.queued o (hout ▸ List.mem_cons_self) id hid
      have hgrows : Grows s.db (s.db.markDelivered id now) := grows_markDelivered s.db id now
      have hmarked : Ledger { s with outbound := rest, db := s.db.markDelivered id now } :=
        h.of_grows hgrows rfl rfl fun o' ho' id' hid' ↦ hgrows.mem_ids (hrest o' ho' id' hid')
      refine ⟨hmarked.nodup, hmarked.stored, hmarked.chat, hmarked.queued, ?_, ?_⟩
      · intro id' hid'
        rcases List.mem_append.mp hid' with hid' | hid'
        · exact hmarked.known id' hid'
        · obtain rfl := List.mem_singleton.mp hid'
          exact hgrows.mem_ids hstored
      · intro m hm hmid
        rcases List.mem_append.mp hmid with hmid | hmid
        · exact hmarked.marked m hm hmid
        · exact ne_none_of_mem_markDelivered hm (List.mem_singleton.mp hmid)
    · exact h.of_grows (.of_eq rfl) rfl rfl hrest

/-- A cycle leaves the replies and the queue alone. -/
structure SameReplies (s s' : Daemon) : Prop where
  replies : s'.replies = s.replies
  recorded : s'.recorded = s.recorded
  outbound : s'.outbound = s.outbound

theorem sameReplies_commit (env : Env) (access : Access) (s : Daemon) (c : Commit) :
    SameReplies s (s.commit uuids env access c) := by
  cases c with
  | park u => exact ⟨rfl, rfl, rfl⟩
  | advance maxId => exact ⟨rfl, rfl, rfl⟩
  | process batch => exact ⟨rfl, rfl, rfl⟩
  | unpark updateId => exact ⟨rfl, rfl, rfl⟩
  | collect => exact ⟨rfl, rfl, rfl⟩

variable (telegram : Service)

theorem sameReplies_pollCycle (s : Daemon) (upTo : Int) (access : Access) (env : Env)
    (progress : Progress) :
    SameReplies s (s.pollCycle uuids telegram upTo access env progress) := by
  have htrans : ∀ a b c : Daemon, SameReplies a b → SameReplies b c → SameReplies a c :=
    fun _ _ _ h h' ↦ ⟨h'.replies.trans h.replies, h'.recorded.trans h.recorded,
      h'.outbound.trans h.outbound⟩
  unfold pollCycle
  split
  · exact ⟨rfl, rfl, rfl⟩
  · have hrun := rel_run (fun s ↦ ⟨rfl, rfl, rfl⟩) htrans (sameReplies_commit uuids env access)
      (s.receive telegram upTo) ((s.cycleOf telegram upTo).commits progress)
    exact ⟨hrun.replies, hrun.recorded, hrun.outbound⟩

theorem Ledger.start {s : Daemon} (h : Ledger s) (now : Int) : Ledger (s.start now) := by
  refine h.of_grows (.of_eq rfl) rfl rfl fun o ho id hid ↦ ?_
  obtain ⟨m, hm, chatId, -, -, -, -, heq⟩ := mem_drain.mp ho
  rw [heq] at hid
  obtain rfl : m.id = id := Option.some.inj hid
  exact List.mem_map_of_mem hm

/-- Every step keeps the ledger. -/
theorem ledger_next {s : Daemon} (h : Ledger s) (op : Op) :
    Ledger (next uuids telegram s op) := by
  unfold next
  split
  · next upTo access env progress _ =>
    obtain ⟨hreplies, hrecorded, hout⟩ :=
      sameReplies_pollCycle uuids telegram s upTo access env progress
    have hgrows := grows_pollCycle uuids telegram s upTo access env progress
    exact h.of_grows hgrows hreplies hrecorded fun o ho id hid ↦
      hgrows.mem_ids (h.queued o (hout ▸ ho) id hid)
  · next i outcome _ =>
    unfold Daemon.transcribe
    split
    · exact h
    · exact h.of_grows (.of_eq rfl) rfl rfl h.queued
  · exact h.handleChatPost uuids _ _ _ _
  · exact h.sendNext _ _
  · next threadId now _ =>
    have hgrows := grows_drainBacklog s.db threadId now
    exact h.of_grows hgrows rfl rfl fun o ho id hid ↦ hgrows.mem_ids (h.queued o ho id hid)
  · exact h.of_grows (.of_eq rfl) rfl rfl h.queued
  · exact h.of_grows (.of_eq rfl) rfl rfl fun o ho ↦ absurd ho List.not_mem_nil
  · exact h.start _
  · exact h

/-! ### Starts -/

variable {uuids telegram}

/-- The row of a reply. -/
theorem Ledger.eq_row {s : Daemon} (h : Ledger s) {r : Reply} (hr : r ∈ s.replies)
    {m : ChatMessage} (hm : m ∈ s.db.chatMessages.rows) (hid : m.id = r.message.id) :
    SameMessage r.message m := by
  obtain ⟨m', hm', hsame⟩ := h.stored r hr
  rwa [s.db.chatMessages.eq_of_key_eq hm hm' (hid.trans hsame.id_eq.symm)]

theorem Ledger.nodup_owed {s : Daemon} (h : Ledger s) (now : Int) : (s.owed now).Nodup := by
  have hids : (s.replies.filter (s.isUnsent now)).Pairwise
      fun r r' ↦ r.message.id ≠ r'.message.id := by
    have hall := h.nodup
    rw [List.Nodup, List.pairwise_map] at hall
    exact hall.filter _
  unfold owed
  rw [List.Nodup, List.pairwise_map]
  refine hids.imp fun {r r'} hne heq ↦ hne ?_
  simpa [Reply.entry] using congrArg Outbound.msgDbId heq

theorem mem_owed {s : Daemon} {now : Int} {o : Outbound} :
    o ∈ s.owed now ↔ ∃ r ∈ s.replies, s.isUnsent now r = true ∧ r.entry = o := by
  simp [owed, List.mem_map, List.mem_filter, and_assoc]

/-- Unsent replies are what is unmarked and recent under the id of a reply. -/
theorem Ledger.isUnsent_of_unmarked {s : Daemon} (h : Ledger s) {now : Int} {r : Reply}
    (hr : r ∈ s.replies) {m : ChatMessage} (hm : m ∈ s.db.chatMessages.rows)
    (hid : m.id = r.message.id) (hmark : m.deliveredAt = none) (hrecent : isRecent now m = true) :
    s.isUnsent now r = true := by
  have hrow := h.eq_row hr hm hid
  have hcreated : isRecent now r.message = true := by
    rw [hrow] at hrecent
    exact hrecent
  have hsent : r.message.id ∉ s.recorded := fun hmem ↦ h.marked m hm (hid ▸ hmem) hmark
  simp [isUnsent, hcreated, hsent]

/-- The drain finds everything owed, where the marks, authors and topics allow it. -/
theorem Ledger.mem_drain_of_mem_owed {s : Daemon} (h : Ledger s) {now : Int}
    (hr : s.Recoverable now) {o : Outbound} (ho : o ∈ s.owed now) :
    o ∈ drainPendingOutboundTg s.db now := by
  obtain ⟨r, hmem, hunsent, rfl⟩ := mem_owed.mp ho
  obtain ⟨m, hm, hsame⟩ := h.stored r hmem
  have hthread : m.threadId = r.message.threadId := by rw [hsame]
  have hcontent : m.content = r.message.content := by rw [hsame]
  have hauthor : m.fromAgent = r.message.fromAgent := by rw [hsame]
  have hrecent : isRecent now m = isRecent now r.message := by
    rw [hsame]
    rfl
  refine mem_drain.mpr ⟨m, hm, r.chatId, ?_, ?_, ?_, ?_, ?_⟩
  · rw [hthread]
    exact h.chat r hmem
  · exact hr.untaken r hmem hunsent m hm hsame.id_eq
  · rw [hrecent]
    exact (Bool.and_eq_true_iff.mp hunsent).1
  · rw [hauthor]
    exact hr.author r hmem hunsent
  · rw [hcontent, hsame.id_eq]
    unfold Reply.entry
    rw [hr.topicless r hmem hunsent]

/-- The drain finds nothing else. -/
theorem Ledger.mem_owed_of_mem_drain {s : Daemon} (h : Ledger s) {now : Int}
    (hr : s.Recoverable now) {o : Outbound} (ho : o ∈ drainPendingOutboundTg s.db now) :
    o ∈ s.owed now := by
  obtain ⟨m, hm, chatId, hchat, hmark, hrecent, hauthor, rfl⟩ := mem_drain.mp ho
  have hreply : m.id ∈ s.replies.map fun r ↦ r.message.id := by
    by_contra hother
    exact hr.taken m hm hother (hchat ▸ rfl) hrecent hauthor hmark
  obtain ⟨r, hmem, hid⟩ := List.mem_map.mp hreply
  have hunsent := h.isUnsent_of_unmarked hmem hm hid.symm hmark hrecent
  have hrow : SameMessage r.message m := h.eq_row hmem hm hid.symm
  have hthread : m.threadId = r.message.threadId := by rw [hrow]
  have hcontent : m.content = r.message.content := by rw [hrow]
  rw [hthread, h.chat r hmem] at hchat
  refine mem_owed.mpr ⟨r, hmem, hunsent, ?_⟩
  unfold Reply.entry
  rw [hr.topicless r hmem hunsent, hcontent, hid, Option.some.inj hchat]

/-- What the drain finds under the id of a reply that is owed. -/
theorem Ledger.recoverable_of_mem_iff {s : Daemon} (h : Ledger s) {now : Int}
    (hiff : ∀ o, o ∈ drainPendingOutboundTg s.db now ↔ o ∈ s.owed now) : s.Recoverable now := by
  have hfound : ∀ r ∈ s.replies, s.isUnsent now r = true → ∃ m ∈ s.db.chatMessages.rows,
      SameMessage r.message m ∧ m.deliveredAt = none ∧ m.fromAgent ≠ "tg" ∧
        r.threadId = none := by
    intro r hr hunsent
    obtain ⟨m, hm, chatId, hchat, hmark, hrecent, hauthor, heq⟩ :=
      mem_drain.mp ((hiff r.entry).mpr (mem_owed.mpr ⟨r, hr, hunsent, rfl⟩))
    have hid : some r.message.id = some m.id := congrArg Outbound.msgDbId heq
    have htopic : r.threadId = none := congrArg Outbound.threadId heq
    exact ⟨m, hm, h.eq_row hr hm (Option.some.inj hid).symm, hmark, hauthor, htopic⟩
  constructor
  · intro m hm hother hchat hrecent hauthor hmark
    obtain ⟨chatId, hchat⟩ := Option.isSome_iff_exists.mp hchat
    obtain ⟨r, hr, -, hentry⟩ := mem_owed.mp ((hiff _).mp
      (mem_drain.mpr ⟨m, hm, chatId, hchat, hmark, hrecent, hauthor, rfl⟩))
    have hid : some r.message.id = some m.id := congrArg Outbound.msgDbId hentry
    exact hother (List.mem_map.mpr ⟨r, hr, Option.some.inj hid⟩)
  · intro r hr hunsent m hm hid
    obtain ⟨m', hm', hsame, hmark, -, -⟩ := hfound r hr hunsent
    rwa [s.db.chatMessages.eq_of_key_eq hm hm' (hid.trans hsame.id_eq.symm)]
  · intro r hr hunsent
    obtain ⟨m, -, -, -, -, htopic⟩ := hfound r hr hunsent
    exact htopic
  · intro r hr hunsent
    obtain ⟨m, -, hsame, -, hauthor, -⟩ := hfound r hr hunsent
    rw [hsame] at hauthor
    exact hauthor

/-- What a start queues is what is owed, under these conditions and no others. -/
theorem Ledger.drain_perm_owed_iff {s : Daemon} (h : Ledger s) (now : Int) :
    (drainPendingOutboundTg s.db now).Perm (s.owed now) ↔ s.Recoverable now := by
  rw [List.perm_ext_iff_of_nodup (nodup_drain s.db now) (h.nodup_owed now)]
  constructor
  · exact h.recoverable_of_mem_iff
  · exact fun hr o ↦ ⟨h.mem_owed_of_mem_drain hr, h.mem_drain_of_mem_owed hr⟩

end Daemon

open Daemon in
/-- In every run, a start queues exactly the unsent replies of the last day, each for its chat
and topic, if and only if they can be told apart by mark, author and topic. -/
theorem outbound_recovered (uuids : Uuids) (telegram : Service) (ops : List Daemon.Op) :
    ∀ t ∈ trace (Daemon.next uuids telegram) .fresh ops, ∀ now, t.op = .start now →
      t.before.running = false →
        (t.after.outbound.Perm (t.before.owed now) ↔ t.before.Recoverable now) := by
  intro t ht now hop hdown
  have hstep : ∀ t ∈ trace (Daemon.next uuids telegram) .fresh ops, Ledger t.before →
      Ledger t.after := by
    intro t ht hbefore
    rw [after_of_mem_trace ht]
    exact ledger_next uuids telegram hbefore t.op
  have hledger : Ledger t.before :=
    (invariant_of_trace (I := Ledger) ledger_fresh hstep t ht).1
  have hafter : t.after.outbound = drainPendingOutboundTg t.before.db now := by
    rw [after_of_mem_trace ht, hop]
    unfold next
    rw [hdown]
    rfl
  rw [hafter]
  exact hledger.drain_perm_owed_iff now

namespace Daemon

/-- A reply to the operator's chat. -/
def doneArgs : Json :=
  .obj [("thread", .str "telegram:7"), ("from", .str "agent"), ("content", .str "done")]

/-- An agent replies, and the daemon goes down before it sends. -/
def repliedRun : List Op := [.start 0, .chatPost .chatReply doneArgs 0 0, .crash]

end Daemon

open Daemon in
/-- The reply is queued again by the next start. -/
theorem outbound_recovered_reply :
    let s := run (Daemon.next .longer helloService) .fresh repliedRun
    ((s.start 1).outbound.Perm (s.owed 1) ↔ s.Recoverable 1) ∧
      (s.start 1).outbound.map Outbound.text = ["done"] ∧
      (s.owed 1).map Outbound.text = ["done"] := by
  intro s
  refine ⟨?_, by decide, by decide⟩
  have hlast : ⟨s, .start 1, s.start 1⟩ ∈
      trace (Daemon.next .longer helloService) .fresh (repliedRun ++ [.start 1]) := by
    rw [trace_concat]
    exact List.mem_append_right _ (List.mem_singleton.mpr rfl)
  exact outbound_recovered .longer helloService _ _ hlast 1 rfl rfl

open Daemon in
/-- A message the operator wrote is queued for Telegram, where nothing is owed. -/
theorem outbound_recovered_echo :
    let s := run (Daemon.next .longer helloService) .fresh
      [.start 0, .poll 1 operatorAccess stillEnv .complete, .crash]
    (s.start 1).outbound.map Outbound.text = ["hello"] ∧ s.owed 1 = [] := by
  decide

end Claudebase.Telegram
