import Claudebase.Base.Json
import Claudebase.Telegram.Batch

/-!
# The daemon between Telegram and the sessions

`src/daemon/telegram.rs:186–239,1725–2201,2540–2600`, `src/daemon/server.rs:1121–1286`. A poll
cycle fetches updates, parks the voice notes among them, moves the offset and processes the
rest together with the transcripts finished since; these are commits of their own, and an
error or a crash leaves the ones already made. Agents' replies are stored and queued for
sending; the queue is memory and is rebuilt from the table at a start.
-/

namespace Claudebase.Telegram
open Claudebase.Base

/-- The Telegram server: the update behind each id, where there is one. -/
structure Service where
  update : Int → Option Update
  updateId_eq : ∀ id u, update id = some u → u.updateId = id

/-- `getUpdates`: the updates above the offset, in order, up to `upTo`. -/
def Service.getUpdates (telegram : Service) (offset upTo : Int) : List Update :=
  (List.range (upTo - offset).toNat).filterMap fun (n : Nat) ↦ telegram.update (offset + 1 + n)

/-- An entry of the outbound queue, `enqueue_outbound_tg_tracked`. -/
structure Outbound where
  chatId : Int
  threadId : Option Int
  text : String
  msgDbId : Option String
  deriving DecidableEq, Repr

/-- A reply an agent wrote, with the chat and topic it wrote it for. -/
structure Reply where
  message : ChatMessage
  chatId : Int
  threadId : Option Int
  deriving DecidableEq, Repr

/-- The daemon: its database, what it holds in memory, and the history of what was handed
to it, processed, written and recorded as sent. -/
structure Daemon where
  db : Db
  running : Bool
  voiceQueue : List Update
  transcripts : List Update
  outbound : List Outbound
  served : Int
  handed : List Update
  log : List (Step Batch Update)
  replies : List Reply
  recorded : List String

namespace Daemon

/-- Installed, not started. -/
def fresh : Daemon := ⟨.empty, false, [], [], [], 0, [], [], [], []⟩

/-! ### Poll cycles -/

/-- What a cycle does with an answer and the transcripts at hand, `src/daemon/telegram.rs:2139`. -/
structure Cycle where
  toPark : List Update
  batch : List Update
  settled : List Int
  fetchedMaxId : Int

/-- Notes are parked, everything else is processed with the transcripts. -/
def Cycle.of (fetched transcripts : List Update) : Cycle where
  toPark := fetched.filter Update.isUntranscribedVoice
  batch := fetched.filter (fun u ↦ !u.isUntranscribedVoice) ++ transcripts
  settled := transcripts.map Update.updateId
  fetchedMaxId := (fetched.map Update.updateId).foldl max 0

/-- The commits of a cycle. -/
inductive Commit where
  | park (u : Update)
  | advance (maxId : Int)
  | process (batch : List Update)
  | unpark (updateId : Int)
  | collect

/-- How far a cycle gets: an error or a crash leaves it incomplete. -/
inductive Progress where
  | parked (n : Nat)
  | advanced
  | processed (n : Nat)
  | complete
  deriving DecidableEq, Repr

/-- Only a fetched update moves the offset. -/
def Cycle.advance (c : Cycle) : List Commit :=
  if 0 < c.fetchedMaxId then [.advance c.fetchedMaxId] else []

/-- The commits made by then, in order. -/
def Cycle.commits (c : Cycle) : Progress → List Commit
  | .parked n => (c.toPark.take n).map .park
  | .advanced => c.toPark.map .park ++ c.advance
  | .processed n =>
    c.toPark.map .park ++ c.advance ++ [.process c.batch] ++ (c.settled.take n).map .unpark
  | .complete =>
    c.toPark.map .park ++ c.advance ++ [.process c.batch] ++ c.settled.map .unpark ++ [.collect]

section

variable (uuids : Uuids) (telegram : Service)

/-- One commit. -/
def commit (env : Env) (access : Access) (s : Daemon) : Commit → Daemon
  | .park u => { s with db := s.db.enqueuePendingVoice u env.now }
  | .advance maxId => { s with db := s.db.setOffsetFromFetch maxId }
  | .process batch =>
    let pruned := pruneExpired access env.now
    { s with
      db := (Batch.process uuids env s.db access batch).db
      log := s.log ++
        trace (Batch.processUpdate uuids env) (.start s.db pruned.2 pruned.1) batch }
  | .unpark updateId => { s with db := s.db.deletePendingVoice updateId }
  | .collect => { s with db := s.db.gcExpired env.now }

/-- What the server answers: it never stops short of what it answered before. -/
def fetched (s : Daemon) (upTo : Int) : List Update :=
  telegram.getUpdates s.db.lastUpdateId (max s.served upTo)

/-- The cycle at hand. -/
def cycleOf (s : Daemon) (upTo : Int) : Cycle := .of (s.fetched telegram upTo) s.transcripts

/-- The answer has arrived: the notes go to the worker and the transcripts come in. -/
def receive (s : Daemon) (upTo : Int) : Daemon :=
  { s with
    voiceQueue := s.voiceQueue ++ (s.cycleOf telegram upTo).toPark
    transcripts := []
    served := max s.served upTo
    handed := s.handed ++ s.fetched telegram upTo }

/-- A crash takes the memory. -/
def crash (s : Daemon) : Daemon :=
  { s with running := false, voiceQueue := [], transcripts := [], outbound := [] }

/-- One iteration of the poll loop. Without an update and a transcript it does nothing. -/
def pollCycle (s : Daemon) (upTo : Int) (access : Access) (env : Env) (progress : Progress) :
    Daemon :=
  if (s.fetched telegram upTo).isEmpty && s.transcripts.isEmpty then s.receive telegram upTo
  else
    run (commit uuids env access) (s.receive telegram upTo)
      ((s.cycleOf telegram upTo).commits progress)

/-! ### Transcription -/

/-- `MAX_VOICE_ATTEMPTS`. -/
def maxVoiceAttempts : Int := 3

/-- The text a note becomes, `src/daemon/telegram.rs:2566–2590`. -/
def transcript (attempts : Int) (outcome : Except String String) : String :=
  if maxVoiceAttempts < attempts then
    "[voice transcription failed: gave up after repeated attempts — the transcriber died mid-note]"
  else
    match outcome with
    | .ok text => text
    | .error e => "[voice transcription failed: " ++ e ++ "]"

/-- `transcribe_one` on the `i`-th note at the worker. -/
def transcribe (s : Daemon) (i : Nat) (outcome : Except String String) : Daemon :=
  match s.voiceQueue[i]? with
  | none => s
  | some u =>
    let bumped := s.db.bumpPendingVoiceAttempts u.updateId
    { s with
      db := bumped.2
      voiceQueue := s.voiceQueue.eraseIdx i
      transcripts := s.transcripts ++ [u.transcribed (transcript bumped.1 outcome)] }

/-! ### Replies -/

/-- The two tools `handle_chat_post` serves. -/
inductive Tool where
  | chatPost
  | chatReply
  deriving DecidableEq, Repr

/-- The topic a reply asks for: a positive number, as a string. -/
def outboundThreadId (args : Json) : Option Int :=
  ((args.str? "message_thread_id").bind fun text ↦ parseI64 text.toList).filter (0 < ·)

/-- `handle_chat_post`: the message is stored; a reply on the thread of a chat is queued. -/
def handleChatPost (s : Daemon) (tool : Tool) (args : Json) (seed : Nat) (now : Int) : Daemon :=
  let thread := (args.str? "thread").getD ""
  let replyTo := (args.str? "reply_to").filter uuids.parses
  if thread.isEmpty then s
  else
    let stored := s.db.insertMessage uuids seed thread ((args.str? "from").getD "unknown")
      ((args.str? "content").getD "") replyTo now false none
    match tool, chatOf? thread with
    | .chatReply, some chatId =>
      { s with
        db := stored.2
        outbound := s.outbound ++
          [⟨chatId, outboundThreadId args, stored.1.content, some stored.1.id⟩]
        replies := s.replies ++ [⟨stored.1, chatId, outboundThreadId args⟩] }
    | _, _ => { s with db := stored.2 }

/-- The send loop takes the next entry, `src/daemon/telegram.rs:1815–1886`; a success is
recorded on its row, a failure leaves the row to the next start. -/
def sendNext (s : Daemon) (now : Int) (ok : Bool) : Daemon :=
  match s.outbound with
  | [] => s
  | o :: rest =>
    match ok, o.msgDbId with
    | true, some id =>
      { s with outbound := rest, db := s.db.markDelivered id now, recorded := s.recorded ++ [id] }
    | _, _ => { s with outbound := rest }

/-- `thread_id LIKE 'telegram:%'`; the comparison ignores the case of ASCII letters. -/
def likeTelegram (threadId : String) : Bool :=
  (threadId.toList.take 9).map Char.toLower == "telegram:".toList

/-- Written within the 24 hours before `now`. -/
def isRecent (now : Int) (m : ChatMessage) : Bool :=
  decide (now - 24 * 60 * 60 * 1000 < m.createdAt)

/-- The rows `drain_pending_outbound_tg` selects. -/
def isPendingOutbound (now : Int) (m : ChatMessage) : Bool :=
  likeTelegram m.threadId && m.deliveredAt.isNone && isRecent now m && m.fromAgent != "tg"

/-- `drain_pending_outbound_tg`: what a start puts on the outbound queue. -/
def drainPendingOutboundTg (db : Db) (now : Int) : List Outbound :=
  ((db.chatMessages.rows.filter (isPendingOutbound now)).insertionSort
    fun a b ↦ a.createdAt ≤ b.createdAt).filterMap fun m ↦
      (chatOf? m.threadId).map fun chatId ↦ ⟨chatId, none, m.content, some m.id⟩

/-- A start: unsent messages are queued again, parked notes go back to the worker. -/
def start (s : Daemon) (now : Int) : Daemon :=
  { s with
    running := true
    voiceQueue := s.db.loadPendingVoice.map PendingVoice.update
    outbound := drainPendingOutboundTg s.db now }

/-! ### The system -/

/-- What happens to the daemon. -/
inductive Op where
  | poll (upTo : Int) (access : Access) (env : Env) (progress : Progress)
  | transcribe (i : Nat) (outcome : Except String String)
  | chatPost (tool : Tool) (args : Json) (seed : Nat) (now : Int)
  | send (now : Int) (ok : Bool)
  | subscribe (threadId : String) (now : Int)
  | others (pendingAsks : Table PendingAsk.askId) (agentRegistry : Table AgentRow.agentId)
      (chatBindings : Table ChatBinding.key)
  | crash
  | start (now : Int)

/-- One step. A daemon that is down only starts. A crash within a cycle is an incomplete
cycle and then a crash. -/
def next (s : Daemon) (op : Op) : Daemon :=
  match s.running, op with
  | true, .poll upTo access env progress => s.pollCycle uuids telegram upTo access env progress
  | true, .transcribe i outcome => s.transcribe i outcome
  | true, .chatPost tool args seed now => s.handleChatPost uuids tool args seed now
  | true, .send now ok => s.sendNext now ok
  | true, .subscribe threadId now => { s with db := (s.db.drainBacklog threadId now).2 }
  | true, .others pendingAsks agentRegistry chatBindings =>
    { s with db := { s.db with pendingAsks, agentRegistry, chatBindings } }
  | true, .crash => s.crash
  | false, .start now => s.start now
  | _, _ => s

end

end Daemon

end Claudebase.Telegram
