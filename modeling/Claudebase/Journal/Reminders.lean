import Claudebase.Inbox.System
import Claudebase.Journal.Share
import Mathlib.Algebra.Order.Ring.Int

/-!
# Reminders that come back

`src/journal.rs:110–116,619–670`, `src/daemon/reminders.rs:56–169`,
`src/daemon/journal_tools.rs:356–387,393–420,729–756`. An entry added with an interval has a row of
`entry_reminders` beside its flags. A tick looks for due reminders in every journal and hands them
over one after another; calls of sessions come between. Which sessions are online is left to the
caller of a tick, and so is the number of subscribers that a publication finds. Times are counted
in seconds.
-/

namespace Claudebase.Journal
open Claudebase.Base
open Claudebase.Inbox (DueReminder)

/-! ### Due reminders -/

/-- `due_reminders`: an open `reminder` flag and `next_at` reached. -/
def dueReminders (db : Db) (now : Int) : List DueReminder :=
  ((db.entryReminders.rows.filter fun r ↦
    db.hasOpenFlag r.entryId .reminder && decide (r.nextAt ≤ now)).mergeSort
      fun r r' ↦ decide (r.nextAt ≤ r'.nextAt)).filterMap fun r ↦
        (db.entries.get? r.entryId).map fun e ↦ ⟨r.entryId, e.body, r.everySecs, r.nick, r.host⟩

/-- `reminder_sent`: one interval from `now`. -/
def reminderSent (db : Db) (id now : Int) : Db :=
  { db with
    entryReminders := db.entryReminders.updateKey id
      (fun r ↦ { r with nextAt := now + r.everySecs }) fun _ ↦ rfl
    reminderOwner := fun x hx ↦ by
      obtain ⟨y, hy, rfl⟩ := (Table.mem_update _).mp hx
      split
      · exact db.reminderOwner y hy
      · exact db.reminderOwner y hy }

/-! ### Calls of a session -/

namespace State

/-- Whether a session's call files the journal of its directory under its repository. -/
def adopts (s : State) (x : Reader) : Bool :=
  let key := resolve s.shares s.has x
  x.session && decide (key ≠ .folder x.path) && !s.has key && s.has (.folder x.path)

/-- Where a journal was before the call adopted it. -/
def filedFrom (s : State) (x : Reader) (key : Key) : Key :=
  if s.adopts x = true ∧ key = resolve s.shares s.has x then .folder x.path else key

/-- The journal that a session writes. -/
def opened (s : State) (x : Reader) : Db :=
  ((adopt s.journals (resolve s.shares s.has x) x.path) (resolve s.shares s.has x)).getD .empty

/-- A transaction of a session on its journal. -/
def write {α : Type} (s : State) (x : Reader) (body : Db → Except String (α × Db)) : State :=
  if x.session then
    let key := resolve s.shares s.has x
    { s with journals := fun k ↦
        if k = key then some (transact (s.opened x) (body (s.opened x))).2
        else adopt s.journals key x.path k }
  else s

end State

/-! ### Ticks -/

/-- `Delivery`, with the number of the schedule. -/
structure Delivery where
  project : Key
  reminder : DueReminder
  agentId : String
  schedule : Nat
  deriving DecidableEq, Repr

/-- A reminder that reached its author. -/
structure Sent where
  schedule : Nat
  sentAt : Int
  deriving DecidableEq, Repr

/-- The journals and the clock; the tick that is under way, with what it has still to hand over;
and what was handed over. Each schedule has the number it got when it was made, which a copy of it
keeps. -/
structure Reminders where
  state : State
  clock : Int
  tickAt : Int
  pending : List Delivery
  sent : List Sent
  schedule : Key → Int → Nat
  nextSchedule : Nat

/-- What can happen next. -/
inductive ReminderAct where
  | wait (secs : Nat)
  | add (x : Reader) (entry : NewEntry)
  | close (x : Reader) (id : Int) (flags : List String) (nick resolution : Option String)
      (abandon : Bool)
  | reopen (x : Reader) (id : Int) (flags : List String)
  | share (caller : Reader) (host : String) (target : Path) (targetProjectId : Option String)
  | unshare (host : String) (target : Path) (targetProjectId : Option String)
  | tick (listed : List Key) (online : DueReminder → Option String)
  | deliver (subscribers : Nat)

namespace Reminders

/-- No journal yet. -/
def start : Reminders where
  state := .empty
  clock := 0
  tickAt := 0
  pending := []
  sent := []
  schedule _ _ := 0
  nextSchedule := 0

/-- The schedule of an entry. -/
def row (s : Reminders) (key : Key) (id : Int) : Option ReminderRow :=
  (s.state.journals key).bind fun db ↦ db.entryReminders.get? id

/-- The reminder flag of an entry is open. -/
def isOpen (s : Reminders) (key : Key) (id : Int) : Bool :=
  (s.state.journals key).any fun db ↦ db.hasOpenFlag id .reminder

/-- After a call of a session, a schedule that is new has the next number. -/
def called (s : Reminders) (x : Reader) (state : State) : Reminders :=
  { s with
    state
    schedule := fun key id ↦
      if (s.row (s.state.filedFrom x key) id).isSome then s.schedule (s.state.filedFrom x key) id
      else s.nextSchedule
    nextSchedule := s.nextSchedule + 1 }

/-- `collect`: every due reminder whose author is online. -/
def collect (s : Reminders) (listed : List Key) (online : DueReminder → Option String) :
    List Delivery :=
  listed.dedup.flatMap fun key ↦
    match s.state.journals key with
    | none => []
    | some db => (dueReminders db s.clock).filterMap fun r ↦
        (online r).map fun agentId ↦ ⟨key, r, agentId, s.schedule key r.id⟩

/-- `deliver`: the next interval is counted from the tick. Without a subscriber the reminder stays
due. -/
def deliver (s : Reminders) (subscribers : Nat) : Reminders :=
  match s.pending with
  | [] => s
  | d :: pending =>
    if subscribers = 0 then { s with pending }
    else
      let state := match s.state.journals d.project with
        | some db => s.state.file d.project (some (reminderSent db d.reminder.id s.tickAt))
        | none => s.state
      { s with state, pending, sent := ⟨d.schedule, s.clock⟩ :: s.sent }

/-- One event. A tick ends before the next begins. -/
def next (u : Unicode) (sha256 : String → String) (s : Reminders) : ReminderAct → Reminders
  | .wait secs => { s with clock := s.clock + secs }
  | .add x entry => s.called x (s.state.write x fun db ↦ add u sha256 db entry s.clock)
  | .close x id flags nick resolution abandon => s.called x (s.state.write x fun db ↦
      closeWith u db id flags nick resolution s.clock (if abandon then .abandon else .checked))
  | .reopen x id flags => s.called x (s.state.write x fun db ↦ reopen u db id flags)
  | .share caller host target targetProjectId =>
    { s with state := (share u sha256 s.state caller host target targetProjectId s.clock).2 }
  | .unshare host target targetProjectId =>
    let own := projectKey targetProjectId target
    { s with
      state := (unshare s.state host target targetProjectId).2
      schedule := fun key ↦
        match s.state.shares.get? (host, target) with
        | some r => if key = own ∧ s.state.has own = false then s.schedule r.journal
            else s.schedule key
        | none => s.schedule key }
  | .tick listed online =>
    if s.pending = [] then { s with tickAt := s.clock, pending := s.collect listed online } else s
  | .deliver subscribers => s.deliver subscribers

end Reminders

/-! ### A schedule that is kept -/

/-- The reminder of an entry is due from a time on. -/
def BecomesDue (db : Db) (id dueAt : Int) : Prop :=
  ∀ now, (∃ r ∈ dueReminders db now, r.id = id) ↔ dueAt ≤ now

/-- The entry of an add with an interval has a reminder that is due one interval later. -/
def Scheduled (u : Unicode) (sha256 : String → String) (t : Step Reminders ReminderAct) : Prop :=
  ∀ x entry every status id db, t.op = .add x entry → x.session = true →
    entry.remindEvery = some every →
    add u sha256 (t.before.state.opened x) entry t.before.clock = .ok ((status, id), db) →
    ∃ db', t.after.state.journals (resolve t.before.state.shares t.before.state.has x) = some db' ∧
      BecomesDue db' id (t.before.clock + every)

/-- A reminder that reaches its author does so one interval after the last time. -/
def Spaced (t : Step Reminders ReminderAct) : Prop :=
  ∀ subscribers d pending, t.op = .deliver subscribers → subscribers ≠ 0 →
    t.before.pending = d :: pending → ∀ e ∈ t.before.sent, e.schedule = d.schedule →
      e.sentAt + d.reminder.everySecs ≤ t.before.clock

/-- A reminder that reaches its author is not closed. -/
def Quiet (t : Step Reminders ReminderAct) : Prop :=
  ∀ subscribers d pending, t.op = .deliver subscribers → subscribers ≠ 0 →
    t.before.pending = d :: pending → ∀ key id, (t.before.row key id).isSome →
      t.before.schedule key id = d.schedule → t.before.isOpen key id = true

/-! ### What a step must not do -/

namespace Reminders

/-- A note is not folded into an entry whose reminder is closed, and its interval does not leave
the range of an `i64`. -/
def FoldsOpen (u : Unicode) (sha256 : String → String) (s : Reminders) (x : Reader)
    (entry : NewEntry) : Prop :=
  ∀ every status id db, x.session = true → entry.remindEvery = some every →
    add u sha256 (s.state.opened x) entry s.clock = .ok ((status, id), db) →
    ((s.state.opened x).hasFlag id .reminder = true →
      (s.state.opened x).hasOpenFlag id .reminder = true) ∧ s.clock + every < 2 ^ 63

/-- No journal is filed elsewhere that a reminder is handed over from. -/
def StaysFiled (s : Reminders) (x : Reader) : Prop :=
  s.state.adopts x = true → ∀ d ∈ s.pending, d.project ≠ .folder x.path

/-- The reminders that are handed over from a journal are open in it. -/
def StillOpen (s : Reminders) (key : Key) (db : Db) : Prop :=
  ∀ d ∈ s.pending, d.project = key → s.isOpen key d.reminder.id = true →
    db.hasOpenFlag d.reminder.id .reminder = true

/-- A step that no schedule suffers from. -/
def Spares (u : Unicode) (sha256 : String → String) (s : Reminders) : ReminderAct → Prop
  | .wait _ | .tick _ _ => True
  | .add x entry => s.StaysFiled x ∧ s.FoldsOpen u sha256 x entry
  | .close x id flags nick resolution abandon => s.StaysFiled x ∧ ∀ closed db, x.session = true →
      closeWith u (s.state.opened x) id flags nick resolution s.clock
        (if abandon then .abandon else .checked) = .ok (closed, db) →
      s.StillOpen (resolve s.state.shares s.state.has x) db
  | .reopen x _ _ => s.StaysFiled x
  | .share caller _ target targetProjectId =>
    let key := resolve s.state.shares s.state.has caller
    ∀ src, s.state.journals (projectKey targetProjectId target) = some src →
      s.StillOpen key (mergeEntries u sha256 ((s.state.journals key).getD .empty) src).2
  | .unshare host target targetProjectId =>
    ∀ r src, s.state.shares.get? (host, target) = some r →
      s.state.has (projectKey targetProjectId target) = false → s.state.journals r.journal = some src →
      src.entryReminders.rows = []
  | .deliver subscribers => s.pending ≠ [] → subscribers ≠ 0 → s.clock = s.tickAt

end Reminders

/-- The same of a step. -/
def Undisturbed (u : Unicode) (sha256 : String → String) (t : Step Reminders ReminderAct) : Prop :=
  t.before.Spares u sha256 t.op

end Claudebase.Journal
