import Claudebase.Telegram.Voice

/-!
# One session on the threads of the bridge

`src/daemon/server.rs:1290–1396`, `src/daemon/subscribe_client.rs:270–590,820–848`,
`src/daemon/telegram.rs:1213–1237,1375–1394,2276`. A stored message reaches a session live, as
the notification published once its batch is durable, or in the backlog of a subscription,
which takes what is unmarked. Publishing marks nothing, and the two go by different ids.
-/

namespace Claudebase.Telegram
open Claudebase.Base

/-! ### Notifications and their rows -/

/-- A notification to be published, with the row stored in the same step of its batch. -/
structure Broadcast where
  row : Option String
  threadId : String
  frame : ChannelFrame
  deriving DecidableEq, Repr

/-- The notifications a step of a batch adds. -/
def broadcastsOf (t : Step Batch Update) : List Broadcast :=
  let row := (t.after.db.chatMessages.rows.drop t.before.db.chatMessages.rows.length).head?
  (t.after.notifications.drop t.before.notifications.length).map fun n ↦
    ⟨row.map ChatMessage.id, n.1, n.2⟩

namespace Db

/-- The ids of the stored messages. -/
def messageIds (db : Db) : List String := db.chatMessages.rows.map ChatMessage.id

theorem messageIds_congr {db db' : Db} (h : db.chatMessages = db'.chatMessages) :
    db.messageIds = db'.messageIds := by
  unfold messageIds
  rw [h]

end Db

/-- Notifications of rows that are new in `db'`, each of its own. -/
structure OfNewRows (db db' : Db) (bs : List Broadcast) : Prop where
  fresh : ∀ b ∈ bs, ∀ row, b.row = some row → row ∉ db.messageIds ∧ row ∈ db'.messageIds
  own : ∀ b ∈ bs, ∀ b' ∈ bs, b.row = b'.row → b.row ≠ none → b = b'

theorem OfNewRows.nil (db db' : Db) : OfNewRows db db' [] :=
  ⟨fun _ hb ↦ absurd hb List.not_mem_nil, fun _ hb ↦ absurd hb List.not_mem_nil⟩

namespace Batch

variable (uuids : Uuids) (env : Env)

/-- A message is notified of once at most. -/
theorem notifications_processMessage (b : Batch) (m : Message) :
    ∃ new, (b.processMessage uuids env m).notifications = b.notifications ++ new ∧
      new.length ≤ 1 := by
  have hnone : ∃ new, b.notifications = b.notifications ++ new ∧ new.length ≤ 1 :=
    ⟨[], (List.append_nil _).symm, Nat.zero_le 1⟩
  have hdeliver : ∀ content, ∃ new,
      (b.deliver uuids env m content).notifications = b.notifications ++ new ∧ new.length ≤ 1 := by
    intro content
    unfold deliver
    extract_lets stored b'
    split
    · next cmd _ =>
      cases cmd with
      | start => exact hnone
      | whoami => exact hnone
      | agents => exact hnone
      | switch name => exact hnone
    · exact ⟨_, rfl, le_refl 1⟩
  unfold processMessage
  dsimp only
  split
  · exact hnone
  · exact hnone
  · split
    · exact hdeliver _
    · exact hdeliver _
    · exact hnone

/-- A step that stores a message adds one notification at most. -/
theorem notifications_processUpdate (b : Batch) (u : Update)
    (h : (processUpdate uuids env b u).db.chatMessages ≠ b.db.chatMessages) :
    ∃ new, (processUpdate uuids env b u).notifications = b.notifications ++ new ∧
      new.length ≤ 1 := by
  unfold processUpdate at h ⊢
  dsimp only at h ⊢
  split
  · next cb hcb =>
    rw [hcb] at h
    exact absurd (sameInbox_processCallback b env cb).chatMessages h
  · exact notifications_processMessage uuids env b _
  · exact ⟨[], (List.append_nil _).symm, Nat.zero_le 1⟩

/-- The row of a notification is new, and no other notification of its step has it. -/
theorem broadcastsOf_processUpdate (b : Batch) (u : Update) :
    OfNewRows b.db (processUpdate uuids env b u).db
      (broadcastsOf ⟨b, u, processUpdate uuids env b u⟩) := by
  obtain ⟨new, -, -, happ⟩ := appends_processUpdate uuids env b u
  have hdrop : (processUpdate uuids env b u).db.chatMessages.rows.drop
      b.db.chatMessages.rows.length = new := by
    rw [happ.rows, List.drop_left]
  have hrow : ∀ x ∈ broadcastsOf ⟨b, u, processUpdate uuids env b u⟩,
      x.row = new.head?.map ChatMessage.id := by
    intro x hx
    obtain ⟨n, -, rfl⟩ := List.mem_map.mp hx
    rw [hdrop]
  constructor
  · intro x hx row hxrow
    rw [hrow x hx] at hxrow
    obtain ⟨m, hm, rfl⟩ := Option.map_eq_some_iff.mp hxrow
    have hmem : m ∈ new := List.mem_of_head? hm
    have hnodup := (processUpdate uuids env b u).db.chatMessages.nodup
    rw [happ.rows, List.map_append, List.nodup_append] at hnodup
    unfold Db.messageIds
    rw [happ.rows, List.map_append, List.mem_append]
    refine ⟨fun hold ↦ ?_, Or.inr (List.mem_map_of_mem hmem)⟩
    exact hnodup.2.2 _ hold _ (List.mem_map_of_mem hmem) rfl
  · intro x hx y hy _ hsome
    rw [hrow x hx] at hsome
    have hstored : (processUpdate uuids env b u).db.chatMessages ≠ b.db.chatMessages := by
      intro hsame
      rw [hsame, List.drop_length] at hdrop
      rw [← hdrop] at hsome
      exact hsome rfl
    obtain ⟨added, hadded, hone⟩ := notifications_processUpdate uuids env b u hstored
    unfold broadcastsOf at hx hy
    dsimp only at hx hy
    rw [hadded, List.drop_left] at hx hy
    match added, hone with
    | [], _ => cases hx
    | [n], _ => rw [List.mem_singleton.mp hx, List.mem_singleton.mp hy]

theorem messageIds_processUpdate {b : Batch} {u : Update} {row : String}
    (h : row ∈ b.db.messageIds) : row ∈ (processUpdate uuids env b u).db.messageIds :=
  (grows_of_extends (extends_processUpdate uuids env b u)).mem_ids h

theorem messageIds_run {b : Batch} {us : List Update} {row : String} (h : row ∈ b.db.messageIds) :
    row ∈ (run (processUpdate uuids env) b us).db.messageIds :=
  invariant_of_run (I := fun b : Batch ↦ row ∈ b.db.messageIds) h fun t ht hbefore ↦ by
    rw [after_of_mem_trace ht]
    exact messageIds_processUpdate uuids env hbefore

/-- In a whole batch too, the row of a notification is new and no other has it. -/
theorem broadcastsOf_trace (b : Batch) (us : List Update) :
    OfNewRows b.db (run (processUpdate uuids env) b us).db
      ((trace (processUpdate uuids env) b us).flatMap broadcastsOf) := by
  induction us generalizing b with
  | nil => exact .nil _ _
  | cons u us ih =>
    obtain ⟨hfresh, hone⟩ := broadcastsOf_processUpdate uuids env b u
    obtain ⟨hlater, hothers⟩ := ih (processUpdate uuids env b u)
    have hrun : run (processUpdate uuids env) b (u :: us) =
        run (processUpdate uuids env) (processUpdate uuids env b u) us := rfl
    -- the row of a later notification was not there after the first step
    have hapart : ∀ x ∈ broadcastsOf ⟨b, u, processUpdate uuids env b u⟩,
        ∀ y ∈ (trace (processUpdate uuids env) (processUpdate uuids env b u) us).flatMap broadcastsOf,
          x.row = y.row → x.row ≠ none → False := by
      intro x hx y hy heq hsome
      obtain ⟨row, hrow⟩ := Option.ne_none_iff_exists'.mp hsome
      exact (hlater y hy row (heq ▸ hrow)).1 (hfresh x hx row hrow).2
    rw [trace, List.flatMap_cons, hrun]
    constructor
    · intro x hx row hrow
      rcases List.mem_append.mp hx with hx | hx
      · exact ⟨(hfresh x hx row hrow).1, messageIds_run uuids env (hfresh x hx row hrow).2⟩
      · obtain ⟨hnew, hstored⟩ := hlater x hx row hrow
        exact ⟨fun hold ↦ hnew (messageIds_processUpdate uuids env hold), hstored⟩
    · intro x hx y hy heq hsome
      rcases List.mem_append.mp hx with hx | hx
      · rcases List.mem_append.mp hy with hy | hy
        · exact hone x hx y hy heq hsome
        · exact (hapart x hx y hy heq hsome).elim
      · rcases List.mem_append.mp hy with hy | hy
        · exact (hapart y hy x hx heq.symm (heq ▸ hsome)).elim
        · exact hothers x hx y hy heq hsome

/-- The offset apart, a batch leaves what its updates lead to. -/
theorem chatMessages_process (db : Db) (access : Access) (batch : List Update) :
    (process uuids env db access batch).db.chatMessages =
      (updates uuids env db access batch).db.chatMessages := by
  unfold process
  cases batch with
  | nil => rfl
  | cons u us => exact (advanceOffset_db _).1

end Batch

namespace Daemon

/-- Commits that process nothing leave the messages and the log. -/
theorem silent_commits (uuids : Uuids) (env : Env) (access : Access) (s : Daemon)
    {commits : List Commit}
    (h : commits.flatMap Commit.batch = []) :
    (run (commit uuids env access) s commits).log = s.log ∧
      (run (commit uuids env access) s commits).db.chatMessages = s.db.chatMessages := by
  induction commits generalizing s with
  | nil => exact ⟨rfl, rfl⟩
  | cons c commits ih =>
    rw [List.flatMap_cons, List.append_eq_nil_iff] at h
    have hc : (s.commit uuids env access c).log = s.log ∧
        (s.commit uuids env access c).db.chatMessages = s.db.chatMessages := by
      cases c with
      | process batch =>
        obtain rfl : batch = [] := h.1
        exact ⟨List.append_nil _, rfl⟩
      | park u => exact ⟨rfl, rfl⟩
      | advance maxId => exact ⟨rfl, rfl⟩
      | unpark updateId => exact ⟨rfl, rfl⟩
      | collect => exact ⟨rfl, rfl⟩
    obtain ⟨hlog, hmessages⟩ := ih (s.commit uuids env access c) h.2
    exact ⟨hlog.trans hc.1, hmessages.trans hc.2⟩

/-- What a cycle that completes adds to the log, and what it leaves in the table. -/
theorem log_complete (uuids : Uuids) (env : Env) (access : Access) (s : Daemon) (c : Cycle) :
    ∃ db : Db, db.chatMessages = s.db.chatMessages ∧
      (run (commit uuids env access) s (c.commits .complete)).log = s.log ++
        trace (Batch.processUpdate uuids env)
          (.start db (pruneExpired access env.now).2 (pruneExpired access env.now).1) c.batch ∧
      (run (commit uuids env access) s (c.commits .complete)).db.chatMessages =
        (Batch.updates uuids env db access c.batch).db.chatMessages := by
  have hbefore : (c.toPark.map Commit.park ++ c.advance).flatMap Commit.batch = [] :=
    batch_commits c .advanced
  have hafter : (c.settled.map Commit.unpark ++ [Commit.collect]).flatMap Commit.batch = [] := by
    simp [List.flatMap_map, Commit.batch]
  have hcommits : c.commits .complete = (c.toPark.map Commit.park ++ c.advance) ++
      ([.process c.batch] ++ (c.settled.map Commit.unpark ++ [Commit.collect])) := by
    simp [Cycle.commits]
  rw [hcommits, run_append, run_append]
  obtain ⟨hlog, hmessages⟩ := silent_commits uuids env access s hbefore
  generalize run (commit uuids env access) s (c.toPark.map Commit.park ++ c.advance) = s₁ at *
  obtain ⟨hlog', hmessages'⟩ := silent_commits uuids env access
    (run (commit uuids env access) s₁ [.process c.batch]) hafter
  refine ⟨s₁.db, hmessages, ?_, ?_⟩
  · rw [hlog', ← hlog]
    rfl
  · rw [hmessages']
    exact Batch.chatMessages_process uuids env s₁.db access c.batch

end Daemon

/-! ### The session's side -/

/-- `BACKLOG_MAX_AGE_MS`. -/
def backlogMaxAgeMs : Int := 10 * 60 * 1000

/-- `BACKLOG_MAX_MESSAGES`. -/
def backlogMaxMessages : Nat := 5

/-- `bound_backlog`: the newest of the recent messages. -/
def boundBacklog (messages : List ChatMessage) (now : Int) : List ChatMessage :=
  let fresh := messages.filter fun m ↦
    decide (0 < m.createdAt) && decide (now - m.createdAt ≤ backlogMaxAgeMs)
  fresh.drop (fresh.length - backlogMaxMessages)

/-- What the connection carries to the session. -/
inductive Carried where
  | frame (b : Broadcast)
  | backlog (threadId : String) (messages : List ChatMessage)
  deriving DecidableEq, Repr

/-- A stored message handed to the session, by its row. -/
inductive Handed where
  | live (row messageId : String)
  | backlog (row : String)
  deriving DecidableEq, Repr

namespace Handed

/-- The stored message. -/
def row : Handed → String
  | .live row _ => row
  | .backlog row => row

/-- The id it is handed over under: a backlog goes by the ids of the rows. -/
def messageId : Handed → String
  | .live _ messageId => messageId
  | .backlog row => row

end Handed

/-- A frame is for the session it names, and has a content. -/
def ChannelFrame.isFor (frame : ChannelFrame) (selfAgentId : String) : Bool :=
  frame.targetAgentId == some selfAgentId && frame.content != ""

/-- What the session takes of what arrives, `pump` and `deliver_backlog`; `owns` is the binding
check of a chat or topic. A live frame carries its topic as a text, which the check never
reads. -/
def handOver (selfAgentId : String) (owns : Option Int → Bool) (now : Int) : Carried → List Handed
  | .frame b =>
    if b.frame.isFor selfAgentId && owns none then
      (b.row.map fun row ↦ .live row b.frame.messageId).toList
    else []
  | .backlog threadId messages =>
    if owns none then
      ((boundBacklog (messages.filter fun m ↦ m.content != "") now).filter fun m ↦
        match chatOf? threadId, m.messageThreadId with
        | some _, some topic => owns (some topic)
        | _, _ => true).map fun m ↦ .backlog m.id
    else []

/-! ### The system -/

/-- The daemon, the notifications still to be published, and the connection of one session:
the threads it listens on, what is on its way, and what was handed over. -/
structure Link where
  daemon : Daemon
  awaiting : List Broadcast
  listening : List String
  carried : List Carried
  handed : List Handed

namespace Link

/-- Before anything happens. -/
def fresh : Link := ⟨.fresh, [], [], [], []⟩

/-- What happens: something at the daemon, a publication, the two halves of `chat_subscribe`,
the session reading what has arrived, a connection lost. -/
inductive Op where
  | daemon (op : Daemon.Op)
  | publish
  | listen (threadId : String)
  | drain (threadId : String) (now : Int)
  | read (i : Nat) (owns : Option Int → Bool) (now : Int)
  | disconnect

variable (uuids : Uuids) (telegram : Service) (selfAgentId : String)

/-- What a step of the daemon leaves to be published: the notifications of a cycle that
completes. An error or a crash loses them. -/
def toPublish (s : Link) (op : Daemon.Op) : List Broadcast :=
  match s.daemon.running, op with
  | true, .poll _ _ _ .complete =>
    s.awaiting ++
      ((s.daemon.next uuids telegram op).log.drop s.daemon.log.length).flatMap broadcastsOf
  | true, .crash => []
  | _, _ => s.awaiting

/-- One step. -/
def next (s : Link) (op : Op) : Link :=
  match op with
  | .daemon op =>
    let daemon := s.daemon.next uuids telegram op
    { s with
      daemon
      awaiting := s.toPublish uuids telegram op
      listening := if daemon.running then s.listening else [] }
  | .publish =>
    match s.awaiting with
    | [] => s
    | b :: rest =>
      { s with
        awaiting := rest
        carried := s.carried ++
          (s.listening.filter fun threadId ↦ threadId == b.threadId).map fun _ ↦ .frame b }
  | .listen threadId => if s.daemon.running then { s with listening := s.listening ++ [threadId] } else s
  | .drain threadId now =>
    if s.daemon.running && s.listening.contains threadId then
      let drained := s.daemon.db.drainBacklog threadId now
      { s with
        daemon := { s.daemon with db := drained.2 }
        carried := s.carried ++ [.backlog threadId drained.1] }
    else s
  | .read i owns now =>
    match s.carried[i]? with
    | none => s
    | some c =>
      { s with
        carried := s.carried.eraseIdx i
        handed := s.handed ++ handOver selfAgentId owns now c }
  | .disconnect => { s with listening := [], carried := [] }

/-! ### Ways to the session -/

/-- A stored message is notified of: the notification waits, is on its way, or has been handed
over. -/
inductive Live (s : Link) (row messageId : String) : Prop where
  | awaiting (b : Broadcast) (hb : b ∈ s.awaiting) (hrow : b.row = some row)
      (hid : b.frame.messageId = messageId)
  | carried (b : Broadcast) (hb : .frame b ∈ s.carried) (hrow : b.row = some row)
      (hid : b.frame.messageId = messageId)
  | handed (h : .live row messageId ∈ s.handed)

/-- A stored message is in a backlog: on its way, or handed over. -/
inductive InBacklog (s : Link) (row : String) : Prop where
  | carried (threadId : String) (messages : List ChatMessage)
      (hb : .backlog threadId messages ∈ s.carried) (hrow : row ∈ messages.map ChatMessage.id)
  | handed (h : .backlog row ∈ s.handed)

/-- No stored message is handed over twice, unless under one id. -/
def OneId (s : Link) : Prop :=
  s.handed.Pairwise fun h h' ↦ h.row = h'.row → h.messageId = h'.messageId

/-- A subscription of the session takes an unmarked message that is notified of. -/
def Overlaps (t : Step Link Op) : Prop :=
  ∃ threadId now, t.op = .drain threadId now ∧ t.before.daemon.running = true ∧
    threadId ∈ t.before.listening ∧
    ∃ m ∈ t.before.daemon.db.chatMessages.rows, m.threadId = threadId ∧ m.deliveredAt = none ∧
      ∃ messageId, t.before.Live m.id messageId

/-- One way for each stored message, and one id on it. -/
structure Parted (s : Link) : Prop where
  same : ∀ {row messageId messageId'}, s.Live row messageId → s.Live row messageId' →
    messageId = messageId'
  apart : ∀ {row messageId}, s.Live row messageId → ¬ s.InBacklog row
  liveStored : ∀ {row messageId}, s.Live row messageId → row ∈ s.daemon.db.messageIds
  drained : ∀ {row}, s.InBacklog row → row ∈ s.daemon.db.messageIds

theorem Parted.oneId {s : Link} (h : s.Parted) : s.OneId := by
  apply List.Pairwise.imp_of_mem (R := fun _ _ ↦ True) _ (List.pairwise_of_forall fun _ _ ↦ trivial)
  intro a b ha hb _ hrow
  cases a with
  | live row messageId =>
    cases b with
    | live row' messageId' =>
      obtain rfl : row = row' := hrow
      exact h.same (.handed ha) (.handed hb)
    | backlog row' =>
      obtain rfl : row = row' := hrow
      exact absurd (.handed hb) (h.apart (.handed ha))
  | backlog row =>
    cases b with
    | live row' messageId' =>
      obtain rfl : row = row' := hrow
      exact absurd (.handed ha) (h.apart (.handed hb))
    | backlog row' => exact hrow

/-- Steps that bring no message on its way and lose none that is stored. -/
theorem Parted.of_frame {s s' : Link} (h : s.Parted)
    (hlive : ∀ {row messageId}, s'.Live row messageId → s.Live row messageId)
    (hbacklog : ∀ {row}, s'.InBacklog row → s.InBacklog row)
    (hstored : ∀ row ∈ s.daemon.db.messageIds, row ∈ s'.daemon.db.messageIds) : s'.Parted where
  same hl hl' := h.same (hlive hl) (hlive hl')
  apart hl hb := h.apart (hlive hl) (hbacklog hb)
  liveStored hl := hstored _ (h.liveStored (hlive hl))
  drained hb := hstored _ (h.drained (hbacklog hb))

/-! ### What the steps do to them -/

variable {uuids telegram selfAgentId}

theorem Parted.publish {s : Link} (h : s.Parted) :
    (s.next uuids telegram selfAgentId .publish).Parted := by
  unfold next
  dsimp only
  split
  · exact h
  · next b rest hawaiting =>
    apply h.of_frame
    · intro row messageId hl
      cases hl with
      | awaiting b' hb hrow hid =>
        exact .awaiting b' (hawaiting ▸ List.mem_cons_of_mem _ hb) hrow hid
      | carried b' hb hrow hid =>
        rcases List.mem_append.mp hb with hb | hb
        · exact .carried b' hb hrow hid
        · obtain ⟨threadId, -, heq⟩ := List.mem_map.mp hb
          obtain rfl : b = b' := Carried.frame.inj heq
          exact .awaiting b (hawaiting ▸ List.mem_cons_self) hrow hid
      | handed hh => exact .handed hh
    · intro row hb
      cases hb with
      | carried threadId messages hc hrow =>
        apply InBacklog.carried threadId messages _ hrow
        rcases List.mem_append.mp hc with hc | hc
        · exact hc
        · obtain ⟨_, -, heq⟩ := List.mem_map.mp hc
          cases heq
      | handed hh => exact .handed hh
    · exact fun row hrow ↦ hrow

/-- What is handed over comes from a frame, under its id, or from a backlog. -/
theorem of_mem_handOver {owns : Option Int → Bool} {now : Int} {c : Carried} {h : Handed}
    (hh : h ∈ handOver selfAgentId owns now c) :
    (∃ b row, c = .frame b ∧ b.row = some row ∧ h = .live row b.frame.messageId) ∨
      ∃ threadId messages, c = .backlog threadId messages ∧
        ∃ row ∈ messages.map ChatMessage.id, h = .backlog row := by
  cases c with
  | frame b =>
    unfold handOver at hh
    dsimp only at hh
    split at hh
    · rw [Option.mem_toList, Option.map_eq_some_iff] at hh
      obtain ⟨row, hrow, rfl⟩ := hh
      exact Or.inl ⟨b, row, rfl, hrow, rfl⟩
    · cases hh
  | backlog threadId messages =>
    unfold handOver at hh
    dsimp only at hh
    split at hh
    · obtain ⟨m, hm, rfl⟩ := List.mem_map.mp hh
      have hbounded := List.mem_of_mem_drop (List.mem_filter.mp hm).1
      have hfresh := (List.mem_filter.mp hbounded).1
      exact Or.inr ⟨threadId, messages, rfl, m.id,
        List.mem_map_of_mem (List.mem_filter.mp hfresh).1, rfl⟩
    · cases hh

theorem Parted.read {s : Link} (h : s.Parted) (i : Nat) (owns : Option Int → Bool) (now : Int) :
    (s.next uuids telegram selfAgentId (.read i owns now)).Parted := by
  unfold next
  dsimp only
  split
  · exact h
  · next c hc =>
    have hmem : c ∈ s.carried := List.mem_of_getElem? hc
    apply h.of_frame
    · intro row messageId hl
      cases hl with
      | awaiting b hb hrow hid => exact .awaiting b hb hrow hid
      | carried b hb hrow hid => exact .carried b (List.mem_of_mem_eraseIdx hb) hrow hid
      | handed hh =>
        rcases List.mem_append.mp hh with hh | hh
        · exact .handed hh
        · rcases of_mem_handOver hh with ⟨b, row', rfl, hrow, heq⟩ | ⟨_, _, _, _, _, heq⟩
          · cases heq
            exact .carried b hmem hrow rfl
          · cases heq
    · intro row hb
      cases hb with
      | carried threadId messages hc hrow =>
        exact .carried threadId messages (List.mem_of_mem_eraseIdx hc) hrow
      | handed hh =>
        rcases List.mem_append.mp hh with hh | hh
        · exact .handed hh
        · rcases of_mem_handOver hh with ⟨_, _, _, _, heq⟩ | ⟨threadId, messages, rfl, row', hrow, heq⟩
          · cases heq
          · cases heq
            exact .carried threadId messages hmem hrow
    · exact fun row hrow ↦ hrow

theorem Parted.disconnect {s : Link} (h : s.Parted) :
    (s.next uuids telegram selfAgentId .disconnect).Parted := by
  apply h.of_frame
  · intro row messageId hl
    cases hl with
    | awaiting b hb hrow hid => exact .awaiting b hb hrow hid
    | carried b hb hrow hid => exact absurd hb List.not_mem_nil
    | handed hh => exact .handed hh
  · intro row hb
    cases hb with
    | carried threadId messages hc hrow => exact absurd hc List.not_mem_nil
    | handed hh => exact .handed hh
  · exact fun row hrow ↦ hrow

/-- A subscription that takes no message notified of. -/
theorem Parted.drain {s : Link} (h : s.Parted) (threadId : String) (now : Int)
    (hoverlaps : ¬ Overlaps ⟨s, .drain threadId now,
      s.next uuids telegram selfAgentId (.drain threadId now)⟩) :
    (s.next uuids telegram selfAgentId (.drain threadId now)).Parted := by
  unfold next at hoverlaps ⊢
  dsimp only at hoverlaps ⊢
  split
  · next hopen =>
    obtain ⟨hrunning, hlistening⟩ : s.daemon.running = true ∧ threadId ∈ s.listening := by
      simpa using hopen
    have hids : ∀ row ∈ s.daemon.db.messageIds,
        row ∈ (s.daemon.db.drainBacklog threadId now).2.messageIds :=
      fun row hrow ↦ (grows_drainBacklog s.daemon.db threadId now).mem_ids hrow
    have hdrained : ∀ row ∈ (s.daemon.db.drainBacklog threadId now).1.map ChatMessage.id,
        ∃ m ∈ s.daemon.db.chatMessages.rows, m.threadId = threadId ∧ m.deliveredAt = none ∧
          m.id = row := by
      intro row hrow
      obtain ⟨m, hm, rfl⟩ := List.mem_map.mp hrow
      obtain ⟨hm, hsel⟩ := List.mem_filter.mp ((List.perm_insertionSort _ _).mem_iff.mp hm)
      have hsel : m.threadId = threadId ∧ m.deliveredAt = none := by simpa using hsel
      exact ⟨m, hm, hsel.1, hsel.2, rfl⟩
    generalize s.daemon.db.drainBacklog threadId now = drained at hids hdrained
    -- the session's connection carries the backlog now, and nothing else changes
    have hlive : ∀ {row messageId}, Live { s with
        daemon := { s.daemon with db := drained.2 }
        carried := s.carried ++ [.backlog threadId drained.1] } row messageId →
          s.Live row messageId := by
      intro row messageId hl
      cases hl with
      | awaiting b hb hrow hid => exact .awaiting b hb hrow hid
      | carried b hb hrow hid =>
        rcases List.mem_append.mp hb with hb | hb
        · exact .carried b hb hrow hid
        · cases List.mem_singleton.mp hb
      | handed hh => exact .handed hh
    have hbacklog : ∀ {row}, InBacklog { s with
        daemon := { s.daemon with db := drained.2 }
        carried := s.carried ++ [.backlog threadId drained.1] } row →
          s.InBacklog row ∨ row ∈ drained.1.map ChatMessage.id := by
      intro row hb
      cases hb with
      | carried threadId' messages hc hrow =>
        rcases List.mem_append.mp hc with hc | hc
        · exact Or.inl (.carried threadId' messages hc hrow)
        · cases List.mem_singleton.mp hc
          exact Or.inr hrow
      | handed hh => exact Or.inl (.handed hh)
    constructor
    · exact fun hl hl' ↦ h.same (hlive hl) (hlive hl')
    · intro row messageId hl hb
      rcases hbacklog hb with hb | hb
      · exact h.apart (hlive hl) hb
      · obtain ⟨m, hm, hthread, hmark, rfl⟩ := hdrained row hb
        exact hoverlaps ⟨threadId, now, rfl, hrunning, hlistening, m, hm, hthread, hmark,
          messageId, hlive hl⟩
    · exact fun hl ↦ hids _ (h.liveStored (hlive hl))
    · intro row hb
      rcases hbacklog hb with hb | hb
      · exact hids _ (h.drained hb)
      · obtain ⟨m, hm, -, -, rfl⟩ := hdrained row hb
        exact hids _ (List.mem_map_of_mem hm)
  · exact h

/-- A cycle that completes leaves notifications of its new rows. -/
theorem ofNewRows_pollCycle (s : Daemon) (upTo : Int) (access : Access) (env : Env) :
    OfNewRows s.db (s.pollCycle uuids telegram upTo access env .complete).db
      (((s.pollCycle uuids telegram upTo access env .complete).log.drop s.log.length).flatMap
        broadcastsOf) := by
  have hlog : (s.receive telegram upTo).log = s.log := rfl
  unfold Daemon.pollCycle
  split
  · rw [hlog, List.drop_length]
    exact .nil _ _
  · obtain ⟨db, hdb, hlog', hmessages⟩ := Daemon.log_complete uuids env access
      (s.receive telegram upTo) (s.cycleOf telegram upTo)
    have hnew := Batch.broadcastsOf_trace uuids env
      (.start db (pruneExpired access env.now).2 (pruneExpired access env.now).1)
      (s.cycleOf telegram upTo).batch
    rw [hlog', hlog, List.drop_left]
    constructor
    · intro b hb row hrow
      obtain ⟨hfresh, hstored⟩ := hnew.fresh b hb row hrow
      have hids : db.messageIds = s.db.messageIds := Db.messageIds_congr hdb
      have hids' : Db.messageIds (run (Daemon.commit uuids env access) (s.receive telegram upTo)
          ((s.cycleOf telegram upTo).commits .complete)).db =
            (Batch.updates uuids env db access (s.cycleOf telegram upTo).batch).db.messageIds :=
        Db.messageIds_congr hmessages
      rw [hids', ← hids]
      exact ⟨hfresh, hstored⟩
    · exact hnew.own

/-- What a step of the daemon adds to what is to be published. -/
theorem exists_toPublish (uuids : Uuids) (telegram : Service) (s : Link) (op : Daemon.Op) :
    ∃ new : List Broadcast,
    (∀ b ∈ s.toPublish uuids telegram op, b ∈ s.awaiting ∨ b ∈ new) ∧
      OfNewRows s.daemon.db (s.daemon.next uuids telegram op).db new := by
  unfold toPublish
  split
  · next upTo access env hrunning =>
    have hnext : s.daemon.next uuids telegram (.poll upTo access env .complete) =
        s.daemon.pollCycle uuids telegram upTo access env .complete := by
      unfold Daemon.next
      rw [hrunning]
    rw [hnext]
    exact ⟨_, fun b hb ↦ List.mem_append.mp hb, ofNewRows_pollCycle s.daemon upTo access env⟩
  · exact ⟨[], fun b hb ↦ absurd hb List.not_mem_nil, .nil _ _⟩
  · exact ⟨[], fun b hb ↦ Or.inl hb, .nil _ _⟩

theorem Parted.daemon {s : Link} (h : s.Parted) (op : Daemon.Op) :
    (s.next uuids telegram selfAgentId (.daemon op)).Parted := by
  obtain ⟨new, hawaiting, hfresh, hone⟩ := exists_toPublish uuids telegram s op
  have hids : ∀ row ∈ s.daemon.db.messageIds,
      row ∈ (s.next uuids telegram selfAgentId (.daemon op)).daemon.db.messageIds :=
    fun row hrow ↦ (Daemon.grows_next uuids telegram s.daemon op).mem_ids hrow
  have hlive : ∀ {row messageId},
      (s.next uuids telegram selfAgentId (.daemon op)).Live row messageId →
        s.Live row messageId ∨ ∃ b ∈ new, b.row = some row ∧ b.frame.messageId = messageId := by
    intro row messageId hl
    cases hl with
    | awaiting b hb hrow hid =>
      rcases hawaiting b hb with hb | hb
      · exact Or.inl (.awaiting b hb hrow hid)
      · exact Or.inr ⟨b, hb, hrow, hid⟩
    | carried b hb hrow hid => exact Or.inl (.carried b hb hrow hid)
    | handed hh => exact Or.inl (.handed hh)
  have hbacklog : ∀ {row}, (s.next uuids telegram selfAgentId (.daemon op)).InBacklog row →
      s.InBacklog row := by
    intro row hb
    cases hb with
    | carried threadId messages hc hrow => exact .carried threadId messages hc hrow
    | handed hh => exact .handed hh
  constructor
  · intro row messageId messageId' hl hl'
    rcases hlive hl with hl | ⟨b, hb, hrow, hid⟩
    · rcases hlive hl' with hl' | ⟨b', hb', hrow', hid'⟩
      · exact h.same hl hl'
      · exact absurd (h.liveStored hl) (hfresh b' hb' row hrow').1
    · rcases hlive hl' with hl' | ⟨b', hb', hrow', hid'⟩
      · exact absurd (h.liveStored hl') (hfresh b hb row hrow).1
      · have hsome : b.row ≠ none := hrow ▸ Option.some_ne_none row
        rw [← hid, ← hid', hone b hb b' hb' (hrow.trans hrow'.symm) hsome]
  · intro row messageId hl hb
    rcases hlive hl with hl | ⟨b, hb', hrow, hid⟩
    · exact h.apart hl (hbacklog hb)
    · exact (hfresh b hb' row hrow).1 (h.drained (hbacklog hb))
  · intro row messageId hl
    rcases hlive hl with hl | ⟨b, hb, hrow, hid⟩
    · exact hids row (h.liveStored hl)
    · exact (hfresh b hb row hrow).2
  · exact fun hb ↦ hids _ (h.drained (hbacklog hb))

/-- Every step that does not overlap keeps the two ways apart. -/
theorem parted_next {s : Link} (h : s.Parted) (op : Op)
    (hoverlaps : ¬ Overlaps ⟨s, op, s.next uuids telegram selfAgentId op⟩) :
    (s.next uuids telegram selfAgentId op).Parted := by
  cases op with
  | daemon op => exact h.daemon op
  | publish => exact h.publish
  | listen threadId =>
    unfold next
    dsimp only
    split
    · apply h.of_frame
      · intro row messageId hl
        cases hl with
        | awaiting b hb hrow hid => exact .awaiting b hb hrow hid
        | carried b hb hrow hid => exact .carried b hb hrow hid
        | handed hh => exact .handed hh
      · intro row hb
        cases hb with
        | carried threadId messages hc hrow => exact .carried threadId messages hc hrow
        | handed hh => exact .handed hh
      · exact fun row hrow ↦ hrow
    · exact h
  | drain threadId now => exact h.drain threadId now hoverlaps
  | read i owns now => exact h.read i owns now
  | disconnect => exact h.disconnect

theorem parted_fresh : fresh.Parted := by
  have hnone : ∀ {row messageId}, ¬ fresh.Live row messageId := by
    intro row messageId hl
    cases hl with
    | awaiting b hb hrow hid => cases hb
    | carried b hb hrow hid => cases hb
    | handed hh => cases hh
  constructor
  · exact fun hl ↦ absurd hl hnone
  · exact fun hl ↦ absurd hl hnone
  · exact fun hl ↦ absurd hl hnone
  · intro row hb
    cases hb with
    | carried threadId messages hc hrow => cases hc
    | handed hh => cases hh

end Link

open Link in
/-- No stored message is handed to the session twice under two ids, in every run whose
subscriptions take no message that is notified of. -/
theorem message_once (uuids : Uuids) (telegram : Service) (selfAgentId : String)
    (ops : List Link.Op)
    (hoverlaps : ∀ t ∈ trace (Link.next uuids telegram selfAgentId) .fresh ops, ¬ Overlaps t) :
    ∀ t ∈ trace (Link.next uuids telegram selfAgentId) .fresh ops, t.after.OneId := by
  intro t ht
  have hparted : t.after.Parted := by
    refine (invariant_of_trace (I := Parted) parted_fresh ?_ t ht).2
    intro t ht hbefore
    have ho := hoverlaps t ht
    rw [after_of_mem_trace ht]
    apply parted_next hbefore t.op
    rwa [← after_of_mem_trace ht]
  exact hparted.oneId

namespace Link

/-- The session `me` holds the operator's chat. -/
def boundRegistry : Table AgentRow.agentId :=
  .insertOrReplace .empty
    ⟨"me", "me", none, 0, 0, .alive, none, none, some 7, none, none⟩

/-- A machine whose clock shows 1. -/
def tickEnv : Env := { Daemon.stillEnv with clock := fun _ ↦ 1 }

/-- The daemon is up and the chat is bound. -/
def boundRun : List Op := [.daemon (.start 0), .daemon (.others .empty boundRegistry .empty)]

/-- The operator's text is stored and published. -/
def helloRun : List Op := [.daemon (.poll 1 Daemon.operatorAccess tickEnv .complete), .publish]

/-- The session subscribes and reads the answer. -/
def subscribeRun : List Op :=
  [.listen "telegram:7", .drain "telegram:7" 1, .read 0 (fun _ ↦ true) 1]

end Link

open Link in
/-- A message stored before the session subscribes is in its backlog. -/
theorem message_once_backlog :
    (∀ t ∈ trace (Link.next .longer Daemon.helloService "me") .fresh
        (boundRun ++ helloRun ++ subscribeRun), t.after.OneId) ∧
      (run (Link.next .longer Daemon.helloService "me") .fresh
        (boundRun ++ helloRun ++ subscribeRun)).handed = [.backlog "i"] := by
  refine ⟨message_once .longer Daemon.helloService "me" _ ?_, by decide⟩
  have hquiet : ∀ t ∈ trace (Link.next .longer Daemon.helloService "me") .fresh
      (boundRun ++ helloRun ++ subscribeRun),
        (match t.op with | .drain _ _ => true | _ => false) = true →
          t.before.awaiting = [] ∧ t.before.carried = [] ∧ t.before.handed = [] := by
    decide
  rintro t ht ⟨threadId, now, hop, -, -, m, -, -, -, messageId, hlive⟩
  obtain ⟨hawaiting, hcarried, hhanded⟩ := hquiet t ht (by rw [hop])
  cases hlive with
  | awaiting b hb hrow hid =>
    rw [hawaiting] at hb
    cases hb
  | carried b hb hrow hid =>
    rw [hcarried] at hb
    cases hb
  | handed hh =>
    rw [hhanded] at hh
    cases hh

open Link in
/-- A session that got the message live gets it again when it reconnects, under another id. -/
theorem message_once_reconnected :
    let s := run (Link.next .longer Daemon.helloService "me") .fresh
      (boundRun ++ subscribeRun ++ helloRun ++ [.read 0 (fun _ ↦ true) 1, .disconnect] ++
        subscribeRun)
    s.handed = [.live "i" "10", .backlog "i"] ∧ ¬ s.OneId := by
  intro s
  have hhanded : s.handed = [.live "i" "10", .backlog "i"] := by decide
  refine ⟨hhanded, fun h ↦ ?_⟩
  unfold OneId at h
  rw [hhanded] at h
  simp [Handed.row, Handed.messageId] at h

end Claudebase.Telegram
