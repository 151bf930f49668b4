import Claudebase.Supervisor.Inject

/-!
# Delivery of messages

`src/supervisor/inject.rs:99–196,251–285`. The messages the injector pasted, followed by those
that wait, are the ones it accepted, in order: all that were received less the replays it
remembers. Each pasted block is submitted by one Enter, unless a modal is up when the pause is
over; then the text stays in the input box and the block is not pasted again.
-/

namespace Claudebase.Supervisor
open Claudebase.Base

/-! ### What is accepted -/

/-- The ids that are remembered. -/
def remembered (accepted : List InboundMessage) : List String :=
  (accepted.map InboundMessage.messageId).drop (accepted.length - seenLimit)

/-- A message with an id that is remembered. -/
def isReplay (accepted : List InboundMessage) (msg : InboundMessage) : Bool :=
  msg.messageId != "" && (remembered accepted).contains msg.messageId

/-- The next message, unless it is a replay. -/
def acceptNext (accepted : List InboundMessage) (msg : InboundMessage) : List InboundMessage :=
  if isReplay accepted msg then accepted else accepted ++ [msg]

/-- The messages that are to be delivered, of those received. -/
def accept (received : List InboundMessage) : List InboundMessage :=
  received.foldl acceptNext []

theorem accept_concat (received : List InboundMessage) (msg : InboundMessage) :
    accept (received ++ [msg]) = acceptNext (accept received) msg := by
  simp [accept]

theorem mem_of_mem_remembered {accepted : List InboundMessage} {id : String}
    (h : id ∈ remembered accepted) : ∃ m ∈ accepted, m.messageId = id :=
  List.mem_map.mp (List.mem_of_mem_drop h)

/-- An accepted message with fewer than the limit after it is remembered. -/
theorem mem_remembered {before between : List InboundMessage} {m : InboundMessage}
    (h : between.length < seenLimit) : m.messageId ∈ remembered (before ++ m :: between) := by
  have hlen : (before ++ m :: between).length - seenLimit ≤
      (before.map InboundMessage.messageId).length := by
    rw [List.length_append, List.length_cons, List.length_map]
    omega
  unfold remembered
  rw [List.map_append, List.map_cons, List.drop_append_of_le_length hlen]
  exact List.mem_append_right _ List.mem_cons_self

/-- Every message is accepted, or one with its id is. -/
theorem exists_mem_accept {received : List InboundMessage} {msg : InboundMessage}
    (h : msg ∈ received) : ∃ m ∈ accept received, m.messageId = msg.messageId := by
  induction received using List.reverseRecOn with
  | nil => cases h
  | append_singleton older last ih =>
    rw [accept_concat]
    unfold acceptNext
    rcases List.mem_append.mp h with hold | hlast
    · obtain ⟨m, hm, hid⟩ := ih hold
      split
      · exact ⟨m, hm, hid⟩
      · exact ⟨m, List.mem_append_left _ hm, hid⟩
    · rw [List.mem_singleton.mp hlast]
      split
      · next hreplay =>
        rw [isReplay, Bool.and_eq_true] at hreplay
        exact mem_of_mem_remembered (by simpa using hreplay.2)
      · exact ⟨last, List.mem_append_right _ List.mem_cons_self, rfl⟩

/-- Two accepted messages with one id have as many others between them as are remembered. -/
theorem accept_apart {received before between after : List InboundMessage}
    {m m' : InboundMessage} (h : accept received = before ++ m :: (between ++ m' :: after))
    (hid : m'.messageId = m.messageId) (hne : m.messageId ≠ "") :
    seenLimit ≤ between.length := by
  induction received using List.reverseRecOn generalizing after with
  | nil =>
    have hlen := congrArg List.length h
    simp [accept] at hlen
  | append_singleton older last ih =>
    rw [accept_concat] at h
    unfold acceptNext at h
    split at h
    · exact ih h
    · next hfresh =>
      rcases List.eq_nil_or_concat after with rfl | ⟨after', last', rfl⟩
      · have hsplit : before ++ m :: (between ++ [m']) = (before ++ m :: between) ++ [m'] := by
          simp
        rw [hsplit] at h
        obtain ⟨hacc, hlast⟩ := List.append_inj' h rfl
        cases hlast
        by_contra hlt
        apply hfresh
        rw [isReplay, hid, hacc, Bool.and_eq_true]
        exact ⟨by simpa using hne, by simpa using mem_remembered (by omega)⟩
      · have hsplit : before ++ m :: (between ++ m' :: after'.concat last') =
            (before ++ m :: (between ++ m' :: after')) ++ [last'] := by
          simp
        rw [hsplit] at h
        exact ih (List.append_inj' h rfl).1

/-- Only received messages are accepted, in their order. -/
theorem accept_sublist (received : List InboundMessage) : (accept received).Sublist received := by
  induction received using List.reverseRecOn with
  | nil => exact List.Sublist.slnil
  | append_singleton older last ih =>
    rw [accept_concat]
    unfold acceptNext
    split
    · exact ih.trans (List.sublist_append_left _ _)
    · exact ih.append (List.Sublist.refl _)

/-! ### What is pasted -/

/-- A pasted block, and how often Enter was pressed for it. -/
structure Round where
  messages : List InboundMessage
  enters : Nat
  deriving DecidableEq, Repr

/-- Enter is pressed for the block pasted last. -/
def pressEnter : List Round → List Round
  | [] => []
  | r :: rest => { r with enters := r.enters + 1 } :: rest

/-- The blocks that were pasted, newest first. -/
def rounds : List Write → List Round
  | [] => []
  | .paste messages :: older => ⟨messages, 0⟩ :: rounds older
  | .enter .block :: older => pressEnter (rounds older)
  | .keys _ :: older | .typeClear :: older | .enter .clear :: older | .erase :: older =>
    rounds older

/-- The messages that were pasted, oldest first. -/
def pasted (pty : List Write) : List InboundMessage :=
  (rounds pty).reverse.flatMap Round.messages

/-- How often Enter was pressed for the block that is being written, if one is. -/
def Pc.enters? : Pc → Option Nat
  | .recheck .block | .enter .block | .stopped true => some 0
  | .settle .block => some 1
  | _ => none

/-- The messages that wait; those of a block being written do not. -/
def System.unsent (s : System) : List InboundMessage :=
  if s.pc.enters?.isSome then [] else s.queue

/-- The blocks whose write is over. -/
def System.finished (s : System) : List Round :=
  if s.pc.enters?.isSome then (rounds s.pty).tail else rounds s.pty

/-- A look for a modal that withholds the Enter of a block. -/
def Withholds (messages : List InboundMessage) (t : Step System Op) : Prop :=
  t.before.pc = .recheck .block ∧ t.before.screen.modalIsUp = true ∧ t.before.queue = messages

/-- The messages of a run that were received. -/
def received (ops : List Op) : List InboundMessage :=
  ops.filterMap fun
    | .receive msg => some msg
    | _ => none

/-! ### The thread -/

/-- The messages pasted and those that wait are those accepted; the ids of these are
remembered; the block that is being written was pasted last. -/
structure InOrder (s : System) : Prop where
  ids : ∀ m ∈ s.inbox, m.messageId ≠ ""
  once : pasted s.pty ++ s.unsent = accept s.taken
  seen : s.seen = remembered (accept s.taken)
  writing : ∀ n, s.pc.enters? = some n → ∃ older, rounds s.pty = ⟨s.queue, n⟩ :: older

theorem inOrder_start : InOrder .start := ⟨nofun, rfl, rfl, nofun⟩

/-- A change away from the messages, while no block is being written. -/
theorem InOrder.of_frame {s s' : System} (h : InOrder s) (hinbox : s'.inbox = s.inbox)
    (htaken : s'.taken = s.taken) (hqueue : s'.queue = s.queue) (hseen : s'.seen = s.seen)
    (hrounds : rounds s'.pty = rounds s.pty) (hpc : s'.pc.enters? = s.pc.enters?) :
    InOrder s' := by
  refine ⟨?_, ?_, ?_, ?_⟩
  · rw [hinbox]
    exact h.ids
  · have hunsent : s'.unsent = s.unsent := by rw [System.unsent, System.unsent, hpc, hqueue]
    rw [hunsent, htaken, pasted, hrounds]
    exact h.once
  · rw [hseen, htaken]
    exact h.seen
  · rw [hpc, hrounds, hqueue]
    exact h.writing

section Memory

-- The limit is a numeral: unfolded, a subtraction of it is unfolded as often.
attribute [local irreducible] seenLimit

/-- The memory of ids follows the accepted messages. -/
theorem remembered_concat (accepted : List InboundMessage) (msg : InboundMessage) :
    remembered (accepted ++ [msg]) =
      if seenLimit < (remembered accepted ++ [msg.messageId]).length then
        (remembered accepted ++ [msg.messageId]).drop 1
      else remembered accepted ++ [msg.messageId] := by
  have hlen : (remembered accepted ++ [msg.messageId]).length =
      accepted.length - (accepted.length - seenLimit) + 1 := by
    simp [remembered]
  have hle : accepted.length - seenLimit ≤ (accepted.map InboundMessage.messageId).length := by
    rw [List.length_map]
    omega
  have hdrop : remembered accepted ++ [msg.messageId] =
      (accepted.map InboundMessage.messageId ++ [msg.messageId]).drop
        (accepted.length - seenLimit) := by
    rw [List.drop_append_of_le_length hle, remembered]
  have hnew : remembered (accepted ++ [msg]) =
      (accepted.map InboundMessage.messageId ++ [msg.messageId]).drop
        (accepted.length + 1 - seenLimit) := by
    simp [remembered]
  rw [hlen, hnew, hdrop]
  split
  · rw [List.drop_drop]
    congr 1
    omega
  · congr 1
    omega

/-- A message with an id is queued exactly when it is accepted. -/
theorem enqueue_eq (queue accepted : List InboundMessage) {msg : InboundMessage}
    (h : msg.messageId ≠ "") :
    (enqueue queue (remembered accepted) msg).2 = remembered (acceptNext accepted msg) ∧
      ∀ before, before ++ queue = accepted →
        before ++ (enqueue queue (remembered accepted) msg).1 = acceptNext accepted msg := by
  have hreplay : isReplay accepted msg = (remembered accepted).contains msg.messageId := by
    rw [isReplay, bne_iff_ne.mpr h, Bool.true_and]
  unfold enqueue acceptNext
  rw [hreplay]
  by_cases hseen : (remembered accepted).contains msg.messageId = true
  · rw [if_pos hseen, if_pos hseen]
    exact ⟨rfl, fun before hb ↦ hb⟩
  · rw [if_neg hseen, if_neg hseen]
    refine ⟨(remembered_concat accepted msg).symm, fun before hb ↦ ?_⟩
    rw [← List.append_assoc, hb]

/-- Taking a message accepts it or drops a replay. -/
theorem InOrder.takeMessage {s : System} (h : InOrder s) (hpc : s.pc.enters? = none) :
    InOrder (takeMessage s) := by
  unfold Supervisor.takeMessage
  split
  · exact h
  · next msg rest hinbox =>
    have hid : msg.messageId ≠ "" := h.ids msg (by rw [hinbox]; exact List.mem_cons_self)
    have honce : pasted s.pty ++ s.queue = accept s.taken := by
      have h' := h.once
      rw [System.unsent, hpc] at h'
      exact h'
    obtain ⟨hseen, hqueue⟩ := enqueue_eq s.queue (accept s.taken) hid
    refine ⟨fun m hm ↦ h.ids m ?_, ?_, ?_, fun n hn ↦ ?_⟩
    · rw [hinbox]
      exact List.mem_cons_of_mem _ hm
    · show pasted s.pty ++ (if s.pc.enters?.isSome then [] else _) = accept (s.taken ++ [msg])
      rw [hpc, accept_concat, h.seen]
      exact hqueue _ honce
    · show (enqueue s.queue s.seen msg).2 = remembered (accept (s.taken ++ [msg]))
      rw [accept_concat, h.seen]
      exact hseen
    · have hn' : s.pc.enters? = some n := hn
      rw [hpc] at hn'
      cases hn'

end Memory

/-- Blocks keep their messages when Enter is pressed. -/
theorem pasted_enter {pty : List Write} :
    pasted (.enter .block :: pty) = pasted pty := by
  unfold pasted
  rw [rounds]
  cases rounds pty with
  | nil => rfl
  | cons r older => simp [pressEnter]

theorem pasted_paste {pty : List Write} {messages : List InboundMessage} :
    pasted (.paste messages :: pty) = pasted pty ++ messages := by
  simp [pasted, rounds]

/-- While no block is written the queue waits. -/
theorem InOrder.once_of_none {s : System} (h : InOrder s) (hpc : s.pc.enters? = none) :
    pasted s.pty ++ s.queue = accept s.taken := by
  have honce := h.once
  rw [System.unsent, hpc] at honce
  exact honce

/-- While a block is written nothing waits. -/
theorem InOrder.once_of_some {s : System} (h : InOrder s) {n : Nat}
    (hpc : s.pc.enters? = some n) : pasted s.pty = accept s.taken := by
  have honce := h.once
  rw [System.unsent, hpc] at honce
  exact (List.append_nil _).symm.trans honce

/-- The end of a block's write empties the queue. -/
theorem InOrder.blockEnds {s s' : System} (h : InOrder s) {n : Nat}
    (hpc : s.pc.enters? = some n) (hinbox : s'.inbox = s.inbox) (htaken : s'.taken = s.taken)
    (hseen : s'.seen = s.seen) (hpty : s'.pty = s.pty) (hqueue : s'.queue = [])
    (hpc' : s'.pc.enters? = none) : InOrder s' := by
  refine ⟨?_, ?_, ?_, ?_⟩
  · rw [hinbox]
    exact h.ids
  · rw [System.unsent, hpc', hqueue, hpty, htaken]
    exact (List.append_nil _).trans (h.once_of_some hpc)
  · rw [hseen, htaken]
    exact h.seen
  · rw [hpc']
    exact nofun

theorem enters?_waiting (s : System) : (waiting s).enters? = none := by
  unfold waiting
  split
  · rfl
  · split
    · rfl
    · rfl

theorem pc_takeMessage (s : System) : (takeMessage s).pc = s.pc := by
  unfold takeMessage
  split
  · rfl
  · rfl

theorem InOrder.writeFailed {s : System} (h : InOrder s) (task : Task) (pasted : Bool)
    (e : String) (hpc : task = .block → s.pc.enters? = (Pc.stopped pasted).enters?)
    (hclear : task = .clear → s.pc.enters? = none) : InOrder (s.writeFailed task pasted e) := by
  cases task with
  | block => exact h.of_frame rfl rfl rfl rfl rfl (hpc rfl).symm
  | clear => exact h.of_frame rfl rfl rfl rfl rfl (hclear rfl).symm

/-- Each step of the injector keeps the messages in order. -/
theorem InOrder.injectorStep {s : System} (h : InOrder s) (timedOut : Bool)
    (failure : Option String) : InOrder (injectorStep s timedOut failure) := by
  unfold Supervisor.injectorStep
  cases hpc : s.pc with
  | top =>
    have hnone : s.pc.enters? = none := by rw [hpc]; rfl
    dsimp only
    unfold takeNext
    split
    · exact h.of_frame rfl rfl rfl rfl rfl hnone.symm
    · have hgate : (waiting (takeClears (Supervisor.takeMessage s))).enters? =
          (Supervisor.takeMessage s).pc.enters? := by
        rw [enters?_waiting, pc_takeMessage, hnone]
      exact (h.takeMessage hnone).of_frame rfl rfl rfl rfl rfl hgate
  | gateModal task =>
    have hnone : s.pc.enters? = none := by rw [hpc]; rfl
    dsimp only
    split
    · exact h.of_frame rfl rfl rfl rfl rfl hnone.symm
    · exact h.of_frame rfl rfl rfl rfl rfl hnone.symm
  | gateDraft task =>
    have hnone : s.pc.enters? = none := by rw [hpc]; rfl
    dsimp only
    split
    · cases task with
      | block => exact h.of_frame rfl rfl rfl rfl rfl hnone.symm
      | clear => exact h.of_frame rfl rfl rfl rfl rfl hnone.symm
    · exact h.of_frame rfl rfl rfl rfl rfl hnone.symm
  | write task =>
    have hnone : s.pc.enters? = none := by rw [hpc]; rfl
    cases failure with
    | some e => exact h.writeFailed task false e (fun _ ↦ hnone) fun _ ↦ hnone
    | none =>
      cases task with
      | block =>
        refine ⟨h.ids, ?_, h.seen, fun n hn ↦ ?_⟩
        · show pasted (.paste s.queue :: s.pty) ++ [] = accept s.taken
          rw [pasted_paste, List.append_nil]
          exact h.once_of_none hnone
        · cases hn
          exact ⟨rounds s.pty, rfl⟩
      | clear => exact h.of_frame rfl rfl rfl rfl rfl hnone.symm
  | typed =>
    have hnone : s.pc.enters? = none := by rw [hpc]; rfl
    dsimp only
    split
    · exact h.of_frame rfl rfl rfl rfl rfl hnone.symm
    · split
      · exact h.of_frame rfl rfl rfl rfl rfl hnone.symm
      · exact h
  | recheck task =>
    cases s.screen.modalIsUp with
    | false =>
      cases task with
      | block => exact h.of_frame rfl rfl rfl rfl rfl (by rw [hpc]; rfl)
      | clear => exact h.of_frame rfl rfl rfl rfl rfl (by rw [hpc]; rfl)
    | true =>
      cases task with
      | block =>
        have hsome : s.pc.enters? = some 0 := by rw [hpc]; rfl
        exact h.blockEnds hsome rfl rfl rfl rfl rfl rfl
      | clear => exact h.of_frame rfl rfl rfl rfl rfl (by rw [hpc]; rfl)
  | enter task =>
    cases failure with
    | some e =>
      refine h.writeFailed task true e (fun htask ↦ ?_) fun htask ↦ ?_
      · rw [hpc, htask]
        rfl
      · rw [hpc, htask]
        rfl
    | none =>
      cases task with
      | block =>
        have hsome : s.pc.enters? = some 0 := by rw [hpc]; rfl
        refine ⟨h.ids, ?_, h.seen, fun n hn ↦ ?_⟩
        · show pasted (.enter .block :: s.pty) ++ [] = accept s.taken
          rw [pasted_enter, List.append_nil]
          exact h.once_of_some hsome
        · cases hn
          obtain ⟨older, hrounds⟩ := h.writing 0 hsome
          exact ⟨older, by show pressEnter (rounds s.pty) = _; rw [hrounds]; rfl⟩
      | clear => exact h.of_frame rfl rfl rfl rfl rfl (by rw [hpc]; rfl)
  | settle task =>
    cases task with
    | block =>
      have hsome : s.pc.enters? = some 1 := by rw [hpc]; rfl
      exact h.blockEnds hsome rfl rfl rfl rfl rfl rfl
    | clear => exact h.of_frame rfl rfl rfl rfl rfl (by rw [hpc]; rfl)
  | erase why =>
    have hnone : s.pc.enters? = none := by rw [hpc]; rfl
    cases failure with
    | some e => exact h.of_frame rfl rfl rfl rfl rfl hnone.symm
    | none => exact h.of_frame rfl rfl rfl rfl rfl hnone.symm
  | emptied =>
    have hnone : s.pc.enters? = none := by rw [hpc]; rfl
    dsimp only
    split
    · exact h.of_frame rfl rfl rfl rfl rfl hnone.symm
    · split
      · exact h.of_frame rfl rfl rfl rfl rfl hnone.symm
      · exact h
  | stopped pasted => exact h

/-- Each event of a run whose messages have ids keeps the messages in order. -/
theorem inOrder_next {s : System} {op : Op} (h : InOrder s)
    (hid : ∀ msg, op = .receive msg → msg.messageId ≠ "") : InOrder (next s op) := by
  cases op with
  | receive msg =>
    refine ⟨fun m hm ↦ ?_, h.once, h.seen, h.writing⟩
    rcases List.mem_append.mp hm with hold | hnew
    · exact h.ids m hold
    · rw [List.mem_singleton.mp hnew]
      exact hid msg rfl
  | askClear req => exact h.of_frame rfl rfl rfl rfl rfl rfl
  | hangUp => exact h.of_frame rfl rfl rfl rfl rfl rfl
  | finish => exact h.of_frame rfl rfl rfl rfl rfl rfl
  | screen screen => exact h.of_frame rfl rfl rfl rfl rfl rfl
  | read bytes =>
    unfold next
    dsimp only
    split
    · exact h.of_frame rfl rfl rfl rfl rfl rfl
    · exact h
  | forward =>
    unfold next
    dsimp only
    split
    · exact h.of_frame rfl rfl rfl rfl rfl rfl
    · exact h
  | step timedOut failure => exact h.injectorStep timedOut failure

/-- A step of the injector takes from the channel what it takes. -/
theorem taken_injectorStep (s : System) (timedOut : Bool) (failure : Option String) :
    (injectorStep s timedOut failure).taken ++ (injectorStep s timedOut failure).inbox =
      s.taken ++ s.inbox := by
  have hfailed : ∀ task pasted e, (s.writeFailed task pasted e).taken ++
      (s.writeFailed task pasted e).inbox = s.taken ++ s.inbox := by
    intro task pasted e
    cases task with
    | block => rfl
    | clear => rfl
  unfold injectorStep
  cases s.pc with
  | top =>
    dsimp only
    unfold takeNext
    split
    · rfl
    · show (takeMessage s).taken ++ (takeMessage s).inbox = _
      unfold takeMessage
      split
      · rfl
      · next msg rest hinbox => simp [hinbox]
  | gateModal task => rfl
  | gateDraft task =>
    dsimp only
    split
    · cases task with
      | block => rfl
      | clear => rfl
    · rfl
  | write task =>
    cases failure with
    | some e => exact hfailed task false e
    | none =>
      cases task with
      | block => rfl
      | clear => rfl
  | typed =>
    dsimp only
    split
    · rfl
    · split
      · rfl
      · rfl
  | recheck task =>
    cases s.screen.modalIsUp with
    | false => rfl
    | true =>
      cases task with
      | block => rfl
      | clear => rfl
  | enter task =>
    cases failure with
    | some e => exact hfailed task true e
    | none => rfl
  | settle task =>
    cases task with
    | block => rfl
    | clear => rfl
  | erase why =>
    cases failure with
    | some e => rfl
    | none => rfl
  | emptied =>
    dsimp only
    split
    · rfl
    · split
      · rfl
      · rfl
  | stopped pasted => rfl

/-- What was taken and what the channel holds are what was received. -/
theorem taken_next (s : System) (op : Op) :
    (next s op).taken ++ (next s op).inbox = s.taken ++ s.inbox ++ received [op] := by
  cases op with
  | receive msg => exact (List.append_assoc _ _ _).symm
  | askClear req => exact (List.append_nil _).symm
  | hangUp => exact (List.append_nil _).symm
  | finish => exact (List.append_nil _).symm
  | screen screen => exact (List.append_nil _).symm
  | read bytes =>
    unfold next
    dsimp only
    split
    · exact (List.append_nil _).symm
    · exact (List.append_nil _).symm
  | forward =>
    unfold next
    dsimp only
    split
    · exact (List.append_nil _).symm
    · exact (List.append_nil _).symm
  | step timedOut failure =>
    exact (taken_injectorStep s timedOut failure).trans (List.append_nil _).symm

theorem taken_run (ops : List Op) :
    (run next .start ops).taken ++ (run next .start ops).inbox = received ops := by
  induction ops using List.reverseRecOn with
  | nil => rfl
  | append_singleton older op ih =>
    rw [run_concat, taken_next, ih, received, received, received, List.filterMap_append]

/-! ### Fates of blocks -/

/-- What became of a block: one Enter, or none because a modal was up. -/
def Settled (ops : List Op) (r : Round) : Prop :=
  r.enters = 1 ∨ r.enters = 0 ∧ ∃ t ∈ trace next .start ops, Withholds r.messages t

/-- The fate of a block is settled for good. -/
theorem Settled.concat {ops : List Op} {r : Round} (h : Settled ops r) (op : Op) :
    Settled (ops ++ [op]) r := by
  refine h.imp id fun ⟨hzero, t, ht, hw⟩ ↦ ⟨hzero, t, ?_, hw⟩
  rw [trace_concat]
  exact List.mem_append_left _ ht

/-- What an event does to the finished blocks: it leaves them, or finishes the one that was
being written. -/
def Finishes (s s' : System) : Prop :=
  s'.finished = s.finished ∨
    ∃ n, s.pc.enters? = some n ∧ s'.finished = ⟨s.queue, n⟩ :: s.finished ∧
      (n = 1 ∨ n = 0 ∧ s.pc = .recheck .block ∧ s.screen.modalIsUp = true)

/-- An event that writes nothing and neither begins nor ends a block. -/
theorem Finishes.of_frame {s s' : System} (hrounds : rounds s'.pty = rounds s.pty)
    (hpc : s'.pc.enters? = s.pc.enters?) : Finishes s s' := by
  refine Or.inl ?_
  rw [System.finished, System.finished, hrounds, hpc]

/-- A block that begins is not finished. -/
theorem Finishes.of_begin {s s' : System} (hrounds : (rounds s'.pty).tail = rounds s.pty)
    (hpc : s.pc.enters? = none) (hpc' : s'.pc.enters? = some 0) : Finishes s s' := by
  refine Or.inl ?_
  rw [System.finished, System.finished, hpc, hpc']
  exact hrounds

/-- Enter is pressed for the block that is being written. -/
theorem Finishes.of_enter {s s' : System} (hrounds : rounds s'.pty = pressEnter (rounds s.pty))
    (hpc : s.pc.enters? = some 0) (hpc' : s'.pc.enters? = some 1) : Finishes s s' := by
  refine Or.inl ?_
  rw [System.finished, System.finished, hpc, hpc', hrounds]
  cases rounds s.pty with
  | nil => rfl
  | cons r older => rfl

/-- A block's write is over. -/
theorem Finishes.of_end {s s' : System} (h : InOrder s) {n : Nat} (hpty : s'.pty = s.pty)
    (hpc : s.pc.enters? = some n) (hpc' : s'.pc.enters? = none)
    (hn : n = 1 ∨ n = 0 ∧ s.pc = .recheck .block ∧ s.screen.modalIsUp = true) :
    Finishes s s' := by
  refine Or.inr ⟨n, hpc, ?_, hn⟩
  obtain ⟨older, hrounds⟩ := h.writing n hpc
  rw [System.finished, System.finished, hpc, hpc', hpty, hrounds]
  rfl

theorem finishes_injectorStep {s : System} (h : InOrder s) (timedOut : Bool)
    (failure : Option String) : Finishes s (injectorStep s timedOut failure) := by
  unfold injectorStep
  cases hpc : s.pc with
  | top =>
    have hnone : s.pc.enters? = none := by rw [hpc]; rfl
    dsimp only
    unfold takeNext
    split
    · exact .of_frame rfl hnone.symm
    · exact .of_frame (congrArg rounds (pty_takeMessage s)) ((enters?_waiting _).trans hnone.symm)
  | gateModal task =>
    have hnone : s.pc.enters? = none := by rw [hpc]; rfl
    dsimp only
    split
    · exact .of_frame rfl hnone.symm
    · exact .of_frame rfl hnone.symm
  | gateDraft task =>
    have hnone : s.pc.enters? = none := by rw [hpc]; rfl
    dsimp only
    split
    · cases task with
      | block => exact .of_frame rfl hnone.symm
      | clear => exact .of_frame rfl hnone.symm
    · exact .of_frame rfl hnone.symm
  | write task =>
    have hnone : s.pc.enters? = none := by rw [hpc]; rfl
    cases failure with
    | some e =>
      cases task with
      | block => exact .of_frame rfl hnone.symm
      | clear => exact .of_frame rfl hnone.symm
    | none =>
      cases task with
      | block => exact .of_begin rfl hnone rfl
      | clear => exact .of_frame rfl hnone.symm
  | typed =>
    have hnone : s.pc.enters? = none := by rw [hpc]; rfl
    dsimp only
    split
    · exact .of_frame rfl hnone.symm
    · split
      · exact .of_frame rfl hnone.symm
      · exact .of_frame rfl rfl
  | recheck task =>
    cases hmodal : s.screen.modalIsUp with
    | false =>
      cases task with
      | block => exact .of_frame rfl (by rw [hpc]; rfl)
      | clear => exact .of_frame rfl (by rw [hpc]; rfl)
    | true =>
      cases task with
      | block =>
        have hsome : s.pc.enters? = some 0 := by rw [hpc]; rfl
        exact .of_end h rfl hsome rfl (Or.inr ⟨rfl, hpc, hmodal⟩)
      | clear => exact .of_frame rfl (by rw [hpc]; rfl)
  | enter task =>
    cases failure with
    | some e =>
      cases task with
      | block => exact .of_frame rfl (by rw [hpc]; rfl)
      | clear => exact .of_frame rfl (by rw [hpc]; rfl)
    | none =>
      cases task with
      | block => exact .of_enter rfl (by rw [hpc]; rfl) rfl
      | clear => exact .of_frame rfl (by rw [hpc]; rfl)
  | settle task =>
    cases task with
    | block => exact .of_end h rfl (by rw [hpc]; rfl) rfl (Or.inl rfl)
    | clear => exact .of_frame rfl (by rw [hpc]; rfl)
  | erase why =>
    have hnone : s.pc.enters? = none := by rw [hpc]; rfl
    cases failure with
    | some e => exact .of_frame rfl hnone.symm
    | none => exact .of_frame rfl hnone.symm
  | emptied =>
    have hnone : s.pc.enters? = none := by rw [hpc]; rfl
    dsimp only
    split
    · exact .of_frame rfl hnone.symm
    · split
      · exact .of_frame rfl hnone.symm
      · exact .of_frame rfl rfl
  | stopped pasted => exact .of_frame rfl rfl

theorem finishes_next {s : System} (h : InOrder s) (op : Op) : Finishes s (next s op) := by
  cases op with
  | receive msg => exact .of_frame rfl rfl
  | askClear req => exact .of_frame rfl rfl
  | hangUp => exact .of_frame rfl rfl
  | finish => exact .of_frame rfl rfl
  | screen screen => exact .of_frame rfl rfl
  | read bytes =>
    unfold next
    dsimp only
    split
    · exact .of_frame rfl rfl
    · exact .of_frame rfl rfl
  | forward =>
    unfold next
    dsimp only
    split
    · exact .of_frame rfl rfl
    · exact .of_frame rfl rfl
  | step timedOut failure => exact finishes_injectorStep h timedOut failure

/-! ### Delivery along a run -/

/-- The messages of a session after a run, where a message is known by its id. -/
structure Delivery (ops : List Op) (s : System) : Prop where
  /-- What was taken and what the channel holds are what was received. -/
  received : s.taken ++ s.inbox = received ops
  /-- What was pasted and what waits are the accepted messages, in their order. -/
  once : pasted s.pty ++ s.unsent = accept s.taken
  /-- None is there that was not received, nor more often than it was. -/
  order : (pasted s.pty ++ s.unsent).Sublist s.taken
  /-- None is left out but replays. -/
  complete : ∀ m ∈ s.taken, ∃ m' ∈ pasted s.pty ++ s.unsent, m'.messageId = m.messageId
  /-- No replay is there that was remembered. -/
  apart : ∀ before m between m' after,
    pasted s.pty ++ s.unsent = before ++ m :: (between ++ m' :: after) →
    m'.messageId = m.messageId → seenLimit ≤ between.length
  /-- Each finished block was submitted by one Enter, or not at all because of a modal. -/
  settled : ∀ r ∈ s.finished, Settled ops r

/-- In every run whose messages have ids they stay in order and every block is settled. -/
theorem inOrder_run (ops : List Op) (hids : ∀ m ∈ received ops, m.messageId ≠ "") :
    InOrder (run next .start ops) ∧ ∀ r ∈ (run next .start ops).finished, Settled ops r := by
  induction ops using List.reverseRecOn with
  | nil => exact ⟨inOrder_start, nofun⟩
  | append_singleton older op ih =>
    have hsplit : received (older ++ [op]) = received older ++ received [op] :=
      List.filterMap_append
    rw [hsplit] at hids
    obtain ⟨hin, hsettled⟩ := ih fun m hm ↦ hids m (List.mem_append_left _ hm)
    have hid : ∀ msg, op = .receive msg → msg.messageId ≠ "" := by
      rintro msg rfl
      exact hids msg (List.mem_append_right _ List.mem_cons_self)
    rw [run_concat]
    refine ⟨inOrder_next hin hid, fun r hr ↦ ?_⟩
    rcases finishes_next hin op with hsame | ⟨n, -, hnew, hn⟩
    · rw [hsame] at hr
      exact (hsettled r hr).concat op
    · rw [hnew] at hr
      rcases List.mem_cons.mp hr with rfl | hr
      · refine hn.imp id fun ⟨hzero, hpc, hmodal⟩ ↦ ⟨hzero, ?_⟩
        refine ⟨⟨run next .start older, op, next (run next .start older) op⟩, ?_, hpc, hmodal, rfl⟩
        rw [trace_concat]
        exact List.mem_append_right _ List.mem_cons_self
      · exact (hsettled r hr).concat op

/-- For every interleaving in which the messages have ids, each received message is pasted once
in its order, unless its id is still remembered, and each pasted block is submitted by one
Enter, unless a modal is up when the pause is over. -/
theorem messages_delivered (ops : List Op) (hids : ∀ m ∈ received ops, m.messageId ≠ "") :
    Delivery ops (run next .start ops) := by
  obtain ⟨hin, hsettled⟩ := inOrder_run ops hids
  refine ⟨taken_run ops, hin.once, ?_, ?_, ?_, hsettled⟩
  · rw [hin.once]
    exact accept_sublist _
  · intro m hm
    rw [hin.once]
    exact exists_mem_accept hm
  · intro before m between m' after heq hid
    rw [hin.once] at heq
    apply accept_apart heq hid
    apply hids
    have hmem : m ∈ accept (run next .start ops).taken := by
      rw [heq]
      exact List.mem_append_right _ List.mem_cons_self
    rw [← taken_run ops]
    exact List.mem_append_left _ ((accept_sublist _).subset hmem)

/-- Two messages, the first of them replayed. -/
def replayedRun : List Op :=
  [.receive ⟨"m1", "hi"⟩, .receive ⟨"m1", "hi"⟩, .receive ⟨"m2", "there"⟩] ++
    List.replicate 22 (.step false none)

theorem messages_delivered_replayed :
    rounds (run next .start replayedRun).pty = [⟨[⟨"m2", "there"⟩], 1⟩, ⟨[⟨"m1", "hi"⟩], 1⟩] ∧
      Delivery replayedRun (run next .start replayedRun) := by
  refine ⟨by decide, messages_delivered replayedRun ?_⟩
  decide

/-- A modal comes up in the pause: the message leaves the queue and is never submitted. -/
def interruptedRun : List Op :=
  [.receive ⟨"m1", "hi"⟩, .step false none, .step false none, .step false none,
    .step false none, .screen ⟨true, none, false, "Enter to confirm"⟩, .step false none]

theorem messages_delivered_interrupted :
    ¬ ∀ ops, (run next .start ops).inbox = [] → (run next .start ops).queue = [] →
      (run next .start ops).pc = .top → ∀ m ∈ received ops,
        (rounds (run next .start ops).pty).countP
          (fun r ↦ r.messages.contains m && r.enters == 1) = 1 := by
  intro hclaim
  have hone := hclaim interruptedRun (by decide) (by decide) (by decide) ⟨"m1", "hi"⟩ (by decide)
  have hrounds : rounds (run next .start interruptedRun).pty = [⟨[⟨"m1", "hi"⟩], 0⟩] := by decide
  rw [hrounds] at hone
  exact absurd hone (by decide)

end Claudebase.Supervisor
