import Claudebase.Journal.Schedule
import Mathlib.Data.List.Dedup

/-!
# The time between reminders

`src/journal.rs:506–589,619–670,1874–1893`, `src/daemon/reminders.rs:56–169`,
`src/daemon/journal_tools.rs:356–387`. Over a run each schedule is in one journal, and a delivery
of it moves its next time an interval on. What breaks this is a second copy, a delivery that no
longer finds its journal, and a tick that takes time.
-/

namespace Claudebase.Journal
open Claudebase.Base

/-! ### Journals that are filed elsewhere -/

namespace State

variable {s : State} {x : Reader}

theorem adopts_iff : s.adopts x = true ↔ x.session = true ∧
    resolve s.shares s.has x ≠ .folder x.path ∧ s.journals (resolve s.shares s.has x) = none ∧
      ∃ db, s.journals (.folder x.path) = some db := by
  unfold adopts has
  simp only [Bool.and_eq_true, decide_eq_true_eq, Bool.not_eq_true', Option.isSome_eq_false_iff,
    Option.isNone_iff_eq_none, Option.isSome_iff_exists, and_assoc]

theorem filedFrom_of_not (h : ¬ s.adopts x = true) (key : Key) : s.filedFrom x key = key := by
  unfold filedFrom
  exact if_neg fun hboth ↦ h hboth.1

theorem filedFrom_of_ne {key : Key} (h : key ≠ resolve s.shares s.has x) :
    s.filedFrom x key = key := by
  unfold filedFrom
  exact if_neg fun hboth ↦ h hboth.2

/-- A journal after an adoption is one from before. -/
theorem journals_filedFrom {key : Key} {db : Db} (hx : x.session = true)
    (h : adopt s.journals (resolve s.shares s.has x) x.path key = some db) :
    s.journals (s.filedFrom x key) = some db := by
  unfold adopt at h
  split at h
  · next hno =>
    rw [filedFrom_of_not]
    · exact h
    · rw [adopts_iff]
      rintro ⟨-, hne, hnone, db', hdb'⟩
      rcases hno with hsame | hsome | hfolder
      · exact hne hsame
      · rw [hnone] at hsome
        cases hsome
      · rw [hfolder] at hdb'
        cases hdb'
  · next hadopts =>
    simp only [not_or] at hadopts
    obtain ⟨hne, hnone, hsome⟩ := hadopts
    have hyes : s.adopts x = true := by
      rw [adopts_iff]
      refine ⟨hx, hne, ?_, Option.ne_none_iff_exists'.mp hsome⟩
      simpa using hnone
    dsimp only at h
    by_cases hkey : key = resolve s.shares s.has x
    · rw [if_pos hkey] at h
      unfold filedFrom
      rw [if_pos ⟨hyes, hkey⟩]
      exact h
    · rw [if_neg hkey] at h
      rw [filedFrom_of_ne hkey]
      split at h
      · cases h
      · exact h

/-- A directory is left without its journal. -/
theorem adopt_folder (h : s.adopts x = true) :
    adopt s.journals (resolve s.shares s.has x) x.path (.folder x.path) = none := by
  obtain ⟨-, hne, hnone, db, hdb⟩ := adopts_iff.mp h
  unfold adopt
  rw [if_neg]
  · rw [if_neg (Ne.symm hne), if_pos rfl]
  rintro (hsame | hsome | hfolder)
  · exact hne hsame
  · rw [hnone] at hsome
    cases hsome
  · rw [hfolder] at hdb
    cases hdb

theorem journals_write {α : Type} {body : Db → Except String (α × Db)} (hx : x.session = true)
    (key : Key) : (s.write x body).journals key = if key = resolve s.shares s.has x then
      some (transact (s.opened x) (body (s.opened x))).2
      else adopt s.journals (resolve s.shares s.has x) x.path key := by
  unfold write
  rw [if_pos hx]

theorem write_of_not {α : Type} {body : Db → Except String (α × Db)} (hx : ¬ x.session = true) :
    s.write x body = s := by
  unfold write
  rw [if_neg hx]

end State

namespace Reminders

/-! ### What holds of every schedule -/

/-- Schedules have numbers of their own, those that are handed over are open in the journal they
were found in, and none is nearer to its last delivery than its interval. -/
structure Kept (s : Reminders) : Prop where
  began : 0 ≤ s.tickAt
  ticked : s.tickAt ≤ s.clock
  past : ∀ e ∈ s.sent, e.sentAt ≤ s.tickAt
  numbered : ∀ key id, (s.row key id).isSome → s.schedule key id < s.nextSchedule
  pendingNumbered : ∀ d ∈ s.pending, d.schedule < s.nextSchedule
  sentNumbered : ∀ e ∈ s.sent, e.schedule < s.nextSchedule
  apart : ∀ key id key' id', (s.row key id).isSome → (s.row key' id').isSome →
    s.schedule key id = s.schedule key' id' → key = key' ∧ id = id'
  here : ∀ d ∈ s.pending, ∀ key id, (s.row key id).isSome → s.schedule key id = d.schedule →
    key = d.project ∧ id = d.reminder.id ∧ s.isOpen key id = true
  distinct : (s.pending.map Delivery.schedule).Nodup
  spaced : ∀ e ∈ s.sent, ∀ key id r, s.row key id = some r → s.schedule key id = e.schedule →
    e.sentAt + r.everySecs ≤ r.nextAt
  pendingSpaced : ∀ e ∈ s.sent, ∀ d ∈ s.pending, d.schedule = e.schedule →
    e.sentAt + d.reminder.everySecs ≤ s.tickAt

theorem kept_start : start.Kept where
  began := le_rfl
  ticked := le_rfl
  past := nofun
  numbered := nofun
  pendingNumbered := nofun
  sentNumbered := nofun
  apart := nofun
  here := nofun
  distinct := List.nodup_nil
  spaced := nofun
  pendingSpaced := nofun

variable {s s' : Reminders} {x : Reader} {key : Key} {id : Int} {r : ReminderRow}

/-- A step between ticks: the rows are those from before, perhaps rescheduled, or new. -/
structure Rewrites (s s' : Reminders) : Prop where
  clock : s'.clock = s.clock
  tickAt : s'.tickAt = s.tickAt
  pending : s'.pending = s.pending
  sent : s'.sent = s.sent
  next : s.nextSchedule ≤ s'.nextSchedule
  row : ∀ key id r, s'.row key id = some r →
    (s'.schedule key id = s.nextSchedule ∧ s.nextSchedule < s'.nextSchedule) ∨
      ∃ key₀ r₀, s.row key₀ id = some r₀ ∧ s'.schedule key id = s.schedule key₀ id ∧
        (r = r₀ ∨ r.nextAt = s.clock + r.everySecs)
  apart : ∀ key id key' id', (s'.row key id).isSome → (s'.row key' id').isSome →
    s'.schedule key id = s'.schedule key' id' → key = key' ∧ id = id'
  here : ∀ d ∈ s.pending, ∀ key id, (s'.row key id).isSome → s'.schedule key id = d.schedule →
    key = d.project ∧ id = d.reminder.id ∧ s'.isOpen key id = true

theorem Kept.of_rewrites (hs : s.Kept) (h : Rewrites s s') : s'.Kept where
  began := h.tickAt ▸ hs.began
  ticked := h.tickAt ▸ h.clock ▸ hs.ticked
  past := h.tickAt ▸ h.sent ▸ hs.past
  numbered := by
    intro key id hrow
    obtain ⟨r, hr⟩ := Option.isSome_iff_exists.mp hrow
    rcases h.row key id r hr with ⟨hnew, hlt⟩ | ⟨key₀, r₀, hr₀, hsame, -⟩
    · rw [hnew]
      exact hlt
    · rw [hsame]
      exact (hs.numbered key₀ id (Option.isSome_of_eq_some hr₀)).trans_le h.next
  pendingNumbered := by
    rw [h.pending]
    exact fun d hd ↦ (hs.pendingNumbered d hd).trans_le h.next
  sentNumbered := by
    rw [h.sent]
    exact fun e he ↦ (hs.sentNumbered e he).trans_le h.next
  apart := h.apart
  here := h.pending ▸ h.here
  distinct := h.pending ▸ hs.distinct
  spaced := by
    rw [h.sent]
    intro e he key id r hr hschedule
    rcases h.row key id r hr with ⟨hnew, -⟩ | ⟨key₀, r₀, hr₀, hsame, hrow⟩
    · have hlt := hs.sentNumbered e he
      omega
    · rcases hrow with rfl | hnext
      · exact hs.spaced e he key₀ id r hr₀ (hsame.symm.trans hschedule)
      · have hpast := hs.past e he
        have hticked := hs.ticked
        omega
  pendingSpaced := by
    rw [h.sent, h.pending, h.tickAt]
    exact hs.pendingSpaced

/-! ### Calls of a session -/

/-- From one database to the next only the schedule of one entry was written. -/
def Rescheduled (now : Int) (db db' : Db) : Prop :=
  ∃ id₀, ∀ id r, db'.entryReminders.get? id = some r →
    db.entryReminders.get? id = some r ∨ (id = id₀ ∧ r.nextAt = now + r.everySecs)

theorem rescheduled_of_same {now : Int} {db db' : Db} (h : Db.SameReminders db db') :
    Rescheduled now db db' := by
  refine ⟨0, fun id r hr ↦ Or.inl ?_⟩
  rw [h] at hr
  exact hr

theorem row_opened (hx : x.session = true)
    (h : (s.state.opened x).entryReminders.get? id = some r) :
    s.row (s.state.filedFrom x (resolve s.state.shares s.state.has x)) id = some r := by
  unfold State.opened at h
  unfold row
  cases hdb : adopt s.state.journals (resolve s.state.shares s.state.has x) x.path
      (resolve s.state.shares s.state.has x) with
  | none =>
    rw [hdb] at h
    cases h
  | some db =>
    rw [hdb] at h
    rw [State.journals_filedFrom hx hdb]
    exact h

section Called

variable {α : Type} {body : Db → Except String (α × Db)}

/-- A row after a call of a session was there, or it was just written. -/
theorem row_called (hbody : ∀ out db, x.session = true → body (s.state.opened x) = .ok (out, db) →
      Rescheduled s.clock (s.state.opened x) db) :
    ∃ id₀, ∀ key id r, (s.called x (s.state.write x body)).row key id = some r →
      s.row (s.state.filedFrom x key) id = some r ∨
        (key = resolve s.state.shares s.state.has x ∧ id = id₀ ∧
          r.nextAt = s.clock + r.everySecs) := by
  by_cases hx : x.session = true
  · have hkeys : ∃ id₀, ∀ id r,
        (transact (s.state.opened x) (body (s.state.opened x))).2.entryReminders.get? id = some r →
        (s.state.opened x).entryReminders.get? id = some r ∨
          (id = id₀ ∧ r.nextAt = s.clock + r.everySecs) := by
      cases hresult : body (s.state.opened x) with
      | error e => exact ⟨0, fun id r hr ↦ Or.inl hr⟩
      | ok result => exact hbody result.1 result.2 hx hresult
    obtain ⟨id₀, hkeys⟩ := hkeys
    refine ⟨id₀, fun key id r hr ↦ ?_⟩
    unfold row called at hr
    dsimp only at hr
    rw [State.journals_write hx] at hr
    split at hr
    · next hkey =>
      subst hkey
      rcases hkeys id r hr with hold | hnew
      · exact Or.inl (row_opened hx hold)
      · exact Or.inr ⟨rfl, hnew⟩
    · obtain ⟨db, hdb, hr⟩ := Option.bind_eq_some_iff.mp hr
      refine Or.inl ?_
      unfold row
      rw [State.journals_filedFrom hx hdb]
      exact hr
  · refine ⟨0, fun key id r hr ↦ Or.inl ?_⟩
    have hno : ¬ s.state.adopts x = true := fun h ↦ hx (State.adopts_iff.mp h).1
    unfold row called at hr
    dsimp only at hr
    rw [State.write_of_not hx] at hr
    rw [State.filedFrom_of_not hno]
    exact hr

/-- The directory whose journal was adopted has none. -/
theorem row_called_folder (h : s.state.adopts x = true) (id : Int) :
    (s.called x (s.state.write x body)).row (.folder x.path) id = none := by
  obtain ⟨hx, hne, -, -⟩ := State.adopts_iff.mp h
  unfold row called
  dsimp only
  rw [State.journals_write hx, if_neg (Ne.symm hne), State.adopt_folder h]
  rfl

/-- Two journals after a call were two before. -/
theorem filedFrom_inj {key key' : Key} {id id' : Int}
    (hrow : ((s.called x (s.state.write x body)).row key id).isSome)
    (hrow' : ((s.called x (s.state.write x body)).row key' id').isSome)
    (h : s.state.filedFrom x key = s.state.filedFrom x key') : key = key' := by
  have hfolder : ∀ k i, s.state.adopts x = true →
      ((s.called x (s.state.write x body)).row k i).isSome → k ≠ .folder x.path := by
    rintro k i hadopts hk rfl
    rw [row_called_folder hadopts] at hk
    cases hk
  unfold State.filedFrom at h
  split at h
  · next hkey =>
    split at h
    · next hkey' => exact hkey.2.trans hkey'.2.symm
    · exact absurd h.symm (hfolder key' id' hkey.1 hrow')
  · split at h
    · next hkey' => exact absurd h (hfolder key id hkey'.1 hrow)
    · exact h

theorem schedule_called_of_isSome {state : State}
    (h : (s.row (s.state.filedFrom x key) id).isSome) :
    (s.called x state).schedule key id = s.schedule (s.state.filedFrom x key) id := if_pos h

theorem schedule_called_of_none {state : State}
    (h : ¬ (s.row (s.state.filedFrom x key) id).isSome) :
    (s.called x state).schedule key id = s.nextSchedule := if_neg h

/-- The flag of an entry stays open when the call does not close it. -/
theorem isOpen_called
    (hbody : ∀ out db, x.session = true → body (s.state.opened x) = .ok (out, db) →
      key = resolve s.state.shares s.state.has x → db.hasOpenFlag id .reminder = true)
    (hfiled : s.state.filedFrom x key = key) (hopen : s.isOpen key id = true)
    (hrow : ((s.called x (s.state.write x body)).row key id).isSome) :
    (s.called x (s.state.write x body)).isOpen key id = true := by
  by_cases hx : x.session = true
  · unfold isOpen called
    unfold row called at hrow
    dsimp only at hrow ⊢
    rw [State.journals_write hx] at hrow ⊢
    split
    · next hkey =>
      cases hresult : body (s.state.opened x) with
      | ok result => exact hbody result.1 result.2 hx hresult hkey
      | error e =>
        rw [if_pos hkey, hresult] at hrow
        show (s.state.opened x).hasOpenFlag id .reminder = true
        change ((s.state.opened x).entryReminders.get? id).isSome = true at hrow
        unfold State.opened at hrow ⊢
        cases hdb : adopt s.state.journals (resolve s.state.shares s.state.has x) x.path
            (resolve s.state.shares s.state.has x) with
        | none =>
          rw [hdb] at hrow
          cases hrow
        | some db =>
          have hbefore := State.journals_filedFrom hx hdb
          rw [← hkey, hfiled] at hbefore
          unfold isOpen at hopen
          rw [hbefore] at hopen
          exact hopen
    · next hkey =>
      rw [if_neg hkey] at hrow
      cases hdb : adopt s.state.journals (resolve s.state.shares s.state.has x) x.path key with
      | none =>
        rw [hdb] at hrow
        cases hrow
      | some db =>
        have hbefore := State.journals_filedFrom hx hdb
        rw [hfiled] at hbefore
        unfold isOpen at hopen
        rw [hbefore] at hopen
        exact hopen
  · unfold isOpen called
    dsimp only
    rw [State.write_of_not hx]
    exact hopen

/-- A call that closes no reminder that is handed over, and writes one schedule at most. -/
theorem rewrites_called (hs : s.Kept) (hfiled : s.StaysFiled x)
    (hbody : ∀ out db, x.session = true → body (s.state.opened x) = .ok (out, db) →
      Rescheduled s.clock (s.state.opened x) db ∧
        s.StillOpen (resolve s.state.shares s.state.has x) db) :
    Rewrites s (s.called x (s.state.write x body)) := by
  obtain ⟨id₀, hrow⟩ := row_called fun out db hx h ↦ (hbody out db hx h).1
  have hnew : ∀ key id, ((s.called x (s.state.write x body)).row key id).isSome →
      ¬ (s.row (s.state.filedFrom x key) id).isSome →
      key = resolve s.state.shares s.state.has x ∧ id = id₀ := by
    intro key id h hno
    obtain ⟨r, hr⟩ := Option.isSome_iff_exists.mp h
    rcases hrow key id r hr with hold | ⟨hkey, hid, -⟩
    · exact absurd (Option.isSome_of_eq_some hold) hno
    · exact ⟨hkey, hid⟩
  refine ⟨rfl, rfl, rfl, rfl, Nat.le_succ _, ?_, ?_, ?_⟩
  · intro key id r hr
    by_cases hold : (s.row (s.state.filedFrom x key) id).isSome
    · obtain ⟨r₀, hr₀⟩ := Option.isSome_iff_exists.mp hold
      refine Or.inr ⟨_, r₀, hr₀, schedule_called_of_isSome hold, ?_⟩
      rcases hrow key id r hr with hsame | ⟨-, -, hnext⟩
      · exact Or.inl (Option.some.inj (hsame.symm.trans hr₀))
      · exact Or.inr hnext
    · exact Or.inl ⟨schedule_called_of_none hold, Nat.lt_succ_self _⟩
  · intro key id key' id' h h' hsame
    by_cases hold : (s.row (s.state.filedFrom x key) id).isSome
    · rw [schedule_called_of_isSome hold] at hsame
      by_cases hold' : (s.row (s.state.filedFrom x key') id').isSome
      · rw [schedule_called_of_isSome hold'] at hsame
        obtain ⟨hfrom, hid⟩ := hs.apart _ _ _ _ hold hold' hsame
        exact ⟨filedFrom_inj h h' hfrom, hid⟩
      · rw [schedule_called_of_none hold'] at hsame
        exact absurd hsame (hs.numbered _ _ hold).ne
    · rw [schedule_called_of_none hold] at hsame
      by_cases hold' : (s.row (s.state.filedFrom x key') id').isSome
      · rw [schedule_called_of_isSome hold'] at hsame
        exact absurd hsame.symm (hs.numbered _ _ hold').ne
      · obtain ⟨hkey, hid⟩ := hnew key id h hold
        obtain ⟨hkey', hid'⟩ := hnew key' id' h' hold'
        exact ⟨hkey.trans hkey'.symm, hid.trans hid'.symm⟩
  · intro d hd key id h hschedule
    by_cases hold : (s.row (s.state.filedFrom x key) id).isSome
    · rw [schedule_called_of_isSome hold] at hschedule
      obtain ⟨hproject, hid, hopen⟩ := hs.here d hd _ id hold hschedule
      have hkey : s.state.filedFrom x key = key := by
        unfold State.filedFrom at hproject ⊢
        split
        · next hboth =>
          rw [if_pos hboth] at hproject
          exact absurd hproject.symm (hfiled hboth.1 d hd)
        · rfl
      rw [hkey] at hproject hopen
      refine ⟨hproject, hid, isOpen_called ?_ hkey hopen h⟩
      intro out db hx hresult hhere
      subst hid
      rw [hhere] at hopen
      exact (hbody out db hx hresult).2 d hd (hproject.symm.trans hhere) hopen
    · rw [schedule_called_of_none hold] at hschedule
      have hlt := hs.pendingNumbered d hd
      omega

end Called

variable {u : Unicode} {sha256 : String → String}

/-- An open reminder of the journal that a session writes. -/
theorem hasOpenFlag_opened (h : s.isOpen (resolve s.state.shares s.state.has x) id = true) :
    (s.state.opened x).hasOpenFlag id .reminder = true := by
  unfold isOpen at h
  obtain ⟨db, hdb, hopen⟩ := (Option.any_eq_true _ _).mp h
  have hsame : adopt s.state.journals (resolve s.state.shares s.state.has x) x.path =
      s.state.journals := by
    unfold adopt
    rw [if_pos (Or.inr (Or.inl (Option.isSome_of_eq_some hdb)))]
  unfold State.opened
  rw [hsame, hdb]
  exact hopen

theorem rewrites_add {entry : NewEntry} (hs : s.Kept) (hfiled : s.StaysFiled x)
    (hfolds : s.FoldsOpen u sha256 x entry) :
    Rewrites s (s.next u sha256 (.add x entry)) := by
  refine rewrites_called hs hfiled ?_
  rintro ⟨status, id⟩ db hx h
  constructor
  · refine ⟨id, fun i r hr ↦ ?_⟩
    rw [add_reminders h] at hr
    unfold scheduled at hr
    split at hr
    · next every nick host hevery hto =>
      by_cases hi : i = id
      · subst hi
        rw [Table.get?_insertOrReplace_self] at hr
        cases hr
        obtain ⟨named, -, hnamed, -, -⟩ := add_ok h
        obtain ⟨-, hmin, -⟩ := entryFlagsOf_every hevery hnamed
        have hbegan := hs.began
        have hticked := hs.ticked
        have hsum : wrappingAdd s.clock every = s.clock + every := by
          refine (wrappingAdd_eq_iff ?_).mpr (hfolds every status i db hx hevery h).2
          unfold minRemindSecs at hmin
          omega
        exact Or.inr ⟨rfl, hsum⟩
      · rw [Table.get?_insertOrReplace_of_ne hi] at hr
        exact Or.inl hr
    · exact Or.inl hr
  · intro d hd hproject hopen
    obtain ⟨_, _, -, -, hadded⟩ := add_ok h
    exact hadded.hasOpenFlag (hasOpenFlag_opened hopen)

theorem rewrites_reopen {flags : List String} (hs : s.Kept) (hfiled : s.StaysFiled x) :
    Rewrites s (s.next u sha256 (.reopen x id flags)) := by
  refine rewrites_called hs hfiled ?_
  intro opened db hx h
  obtain ⟨hsame, hkept⟩ := reopen_ok h
  exact ⟨rescheduled_of_same hsame, fun d hd hproject hopen ↦ hkept _ _ (hasOpenFlag_opened hopen)⟩

theorem rewrites_close {flags : List String} {nick resolution : Option String} {abandon : Bool}
    (hs : s.Kept) (h : s.Spares u sha256 (.close x id flags nick resolution abandon)) :
    Rewrites s (s.next u sha256 (.close x id flags nick resolution abandon)) := by
  refine rewrites_called hs h.1 ?_
  intro closed db hx hclose
  exact ⟨rescheduled_of_same (sameReminders_closeWith hclose), h.2 closed db hx hclose⟩

/-! ### Sharing -/

/-- A step that leaves rows out, and keeps the open flags of what is handed over. -/
theorem rewrites_of_row {s' : Reminders} (hs : s.Kept) (hclock : s'.clock = s.clock)
    (htickAt : s'.tickAt = s.tickAt) (hpending : s'.pending = s.pending) (hsent : s'.sent = s.sent)
    (hnext : s'.nextSchedule = s.nextSchedule)
    (hrow : ∀ key id r, s'.row key id = some r →
      s.row key id = some r ∧ s'.schedule key id = s.schedule key id)
    (hopen : ∀ d ∈ s.pending, (s'.row d.project d.reminder.id).isSome →
      s.isOpen d.project d.reminder.id = true → s'.isOpen d.project d.reminder.id = true) :
    Rewrites s s' := by
  have hsome : ∀ key id, (s'.row key id).isSome →
      (s.row key id).isSome ∧ s'.schedule key id = s.schedule key id := by
    intro key id h
    obtain ⟨r, hr⟩ := Option.isSome_iff_exists.mp h
    obtain ⟨hbefore, hsame⟩ := hrow key id r hr
    exact ⟨Option.isSome_of_eq_some hbefore, hsame⟩
  refine ⟨hclock, htickAt, hpending, hsent, hnext.ge, ?_, ?_, ?_⟩
  · intro key id r hr
    obtain ⟨hbefore, hsame⟩ := hrow key id r hr
    exact Or.inr ⟨key, r, hbefore, hsame, Or.inl rfl⟩
  · intro key id key' id' h h' hsame
    obtain ⟨hbefore, hkey⟩ := hsome key id h
    obtain ⟨hbefore', hkey'⟩ := hsome key' id' h'
    exact hs.apart key id key' id' hbefore hbefore' (hkey.symm.trans (hsame.trans hkey'))
  · intro d hd key id h hschedule
    obtain ⟨hbefore, hkey⟩ := hsome key id h
    obtain ⟨hproject, hid, hopened⟩ := hs.here d hd key id hbefore (hkey.symm.trans hschedule)
    subst hproject hid
    exact ⟨rfl, rfl, hopen d hd h hopened⟩

variable {caller : Reader} {host : String} {target : Path} {targetProjectId : Option String}

/-- A journal after a share was there before, or it is the one that was shared. -/
theorem journals_share {state : State} {now : Int} {db : Db}
    (h : (share u sha256 state caller host target targetProjectId now).2.journals key = some db) :
    state.journals key = some db ∨ (key = resolve state.shares state.has caller ∧
      (db = (state.journals key).getD .empty ∨
        ∃ src, state.journals (projectKey targetProjectId target) = some src ∧
          db = (mergeEntries u sha256 ((state.journals key).getD .empty) src).2)) := by
  have hfile : ∀ db', (if key = resolve state.shares state.has caller then some db'
      else state.journals key) = some db →
      state.journals key = some db ∨ (key = resolve state.shares state.has caller ∧ db = db') := by
    intro db' h
    split at h
    · next hkey => exact Or.inr ⟨hkey, (Option.some.inj h).symm⟩
    · exact Or.inl h
  unfold share at h
  dsimp only at h
  split at h
  · split at h
    · exact Or.inl h
    · exact Or.inl h
  · split at h
    · exact Or.inl h
    · split at h
      · rcases hfile _ h with hold | ⟨hkey, hdb⟩
        · exact Or.inl hold
        · rw [← hkey] at hdb
          exact Or.inr ⟨hkey, Or.inl hdb⟩
      · next src hsrc =>
        split at h
        · next m dst hmerge =>
          rcases hfile dst h with hold | ⟨hkey, hdb⟩
          · exact Or.inl hold
          · rw [← hkey] at hmerge
            exact Or.inr ⟨hkey, Or.inr ⟨src, hsrc, hdb.trans (congrArg Prod.snd hmerge).symm⟩⟩
        · next m dst hmerge =>
          unfold State.route State.file at h
          dsimp only at h
          split at h
          · cases h
          · rcases hfile dst h with hold | ⟨hkey, hdb⟩
            · exact Or.inl hold
            · rw [← hkey] at hmerge
              exact Or.inr ⟨hkey, Or.inr ⟨src, hsrc, hdb.trans (congrArg Prod.snd hmerge).symm⟩⟩

theorem rewrites_share (hs : s.Kept)
    (h : s.Spares u sha256 (.share caller host target targetProjectId)) :
    Rewrites s (s.next u sha256 (.share caller host target targetProjectId)) := by
  have hdst : ∀ {key id r}, ((s.state.journals key).getD .empty).entryReminders.get? id = some r →
      s.row key id = some r := by
    intro key id r hr
    unfold row
    cases hdb : s.state.journals key with
    | none =>
      rw [hdb] at hr
      cases hr
    | some db =>
      rw [hdb] at hr
      exact hr
  refine rewrites_of_row hs rfl rfl rfl rfl rfl ?_ ?_
  · intro key id r hr
    refine ⟨?_, rfl⟩
    obtain ⟨db, hdb, hget⟩ := Option.bind_eq_some_iff.mp hr
    rcases journals_share hdb with hold | ⟨-, rfl | ⟨src, -, rfl⟩⟩
    · exact Option.bind_eq_some_iff.mpr ⟨db, hold, hget⟩
    · exact hdst hget
    · rw [sameReminders_mergeEntries] at hget
      exact hdst hget
  · intro d hd hrow hopen
    obtain ⟨r, hr⟩ := Option.isSome_iff_exists.mp hrow
    obtain ⟨db, hdb, -⟩ := Option.bind_eq_some_iff.mp hr
    obtain ⟨db₀, hdb₀, hopen₀⟩ := (Option.any_eq_true _ _).mp hopen
    refine (Option.any_eq_true _ _).mpr ⟨db, hdb, ?_⟩
    rcases journals_share hdb with hold | ⟨hkey, rfl | ⟨src, hsrc, rfl⟩⟩
    · cases hold.symm.trans hdb₀
      exact hopen₀
    · rw [hdb₀]
      exact hopen₀
    · rw [hkey] at hopen ⊢
      exact h src hsrc d hd hkey hopen

/-- A journal after an unshare was there before, or it is a copy. -/
theorem journals_unshare {state : State} {db : Db}
    (h : (unshare state host target targetProjectId).2.journals key = some db) :
    state.journals key = some db ∨ (key = projectKey targetProjectId target ∧
      state.has key = false ∧ ∃ r, state.shares.get? (host, target) = some r ∧
        state.journals r.journal = some db) := by
  unfold unshare at h
  dsimp only at h
  split at h
  · exact Or.inl h
  · next r hr =>
    split at h
    · exact Or.inl h
    · next src hsrc =>
      split at h
      · exact Or.inl h
      · next hhas =>
        unfold State.file at h
        dsimp only at h
        split at h
        · next hkey =>
          cases h
          subst hkey
          exact Or.inr ⟨rfl, Bool.not_eq_true _ ▸ hhas, r, hr, hsrc⟩
        · exact Or.inl h

theorem rewrites_unshare (hs : s.Kept)
    (h : s.Spares u sha256 (.unshare host target targetProjectId)) :
    Rewrites s (s.next u sha256 (.unshare host target targetProjectId)) := by
  refine rewrites_of_row hs rfl rfl rfl rfl rfl ?_ ?_
  · intro key id r hr
    obtain ⟨db, hdb, hget⟩ := Option.bind_eq_some_iff.mp hr
    have hold : s.state.journals key = some db := by
      rcases journals_unshare hdb with hold | ⟨rfl, hhas, x, hx, hsrc⟩
      · exact hold
      · have hnone := h x db hx hhas hsrc
        obtain ⟨hmem, -⟩ := Table.get?_eq_some_iff.mp hget
        rw [hnone] at hmem
        cases hmem
    refine ⟨Option.bind_eq_some_iff.mpr ⟨db, hold, hget⟩, ?_⟩
    have hhas : s.state.has key = true := Option.isSome_of_eq_some hold
    have hother : ¬ (key = projectKey targetProjectId target ∧
        s.state.has (projectKey targetProjectId target) = false) := by
      rintro ⟨rfl, hno⟩
      rw [hhas] at hno
      cases hno
    unfold next
    dsimp only
    cases s.state.shares.get? (host, target) with
    | none => rfl
    | some x => exact congrFun (if_neg hother) id
  · intro d hd hrow hopen
    obtain ⟨r, hr⟩ := Option.isSome_iff_exists.mp hrow
    obtain ⟨db, hdb, -⟩ := Option.bind_eq_some_iff.mp hr
    obtain ⟨db₀, hdb₀, hopen₀⟩ := (Option.any_eq_true _ _).mp hopen
    refine (Option.any_eq_true _ _).mpr ⟨db, hdb, ?_⟩
    rcases journals_unshare hdb with hold | ⟨-, hhas, -⟩
    · cases hold.symm.trans hdb₀
      exact hopen₀
    · unfold State.has at hhas
      rw [hdb₀] at hhas
      cases hhas

/-! ### Ticks -/

/-- A delivery found by a tick is that of an open schedule whose time has come. -/
theorem mem_collect {listed : List Key} {online : Inbox.DueReminder → Option String} {d : Delivery}
    (h : d ∈ s.collect listed online) : ∃ r, s.row d.project d.reminder.id = some r ∧
      d.reminder.everySecs = r.everySecs ∧ r.nextAt ≤ s.clock ∧
      s.isOpen d.project d.reminder.id = true ∧
      d.schedule = s.schedule d.project d.reminder.id := by
  unfold collect at h
  obtain ⟨key, -, h⟩ := List.mem_flatMap.mp h
  split at h
  · cases h
  · next db hdb =>
    obtain ⟨x, hx, hd⟩ := List.mem_filterMap.mp h
    obtain ⟨agentId, -, rfl⟩ := Option.map_eq_some_iff.mp hd
    obtain ⟨r, hr, hevery, hopen, hdue⟩ := mem_dueReminders hx
    refine ⟨r, Option.bind_eq_some_iff.mpr ⟨db, hdb, hr⟩, hevery, hdue, ?_, rfl⟩
    exact (Option.any_eq_true _ _).mpr ⟨db, hdb, hopen⟩

/-- A tick finds each entry once. -/
theorem nodup_collect (s : Reminders) (listed : List Key)
    (online : Inbox.DueReminder → Option String) :
    (s.collect listed online).Pairwise fun d d' ↦
      (d.project, d.reminder.id) ≠ (d'.project, d'.reminder.id) := by
  have hproject : ∀ key db, ∀ d ∈ (dueReminders db s.clock).filterMap fun r ↦
      (online r).map fun agentId ↦ (⟨key, r, agentId, s.schedule key r.id⟩ : Delivery),
      d.project = key := by
    intro key db d hd
    obtain ⟨x, -, hd⟩ := List.mem_filterMap.mp hd
    obtain ⟨agentId, -, rfl⟩ := Option.map_eq_some_iff.mp hd
    rfl
  unfold collect
  rw [List.pairwise_flatMap]
  constructor
  · intro key _
    split
    · exact List.Pairwise.nil
    · next db _ =>
      refine (List.pairwise_map.mp (nodup_dueReminders db s.clock)).filterMap _ ?_
      intro x x' hne d hd d' hd' hsame
      obtain ⟨agentId, -, rfl⟩ := Option.map_eq_some_iff.mp hd
      obtain ⟨agentId', -, rfl⟩ := Option.map_eq_some_iff.mp hd'
      exact hne (Prod.mk.inj hsame).2
  · refine (List.nodup_dedup listed).imp ?_
    intro key key' hne d hd d' hd' hsame
    split at hd
    · cases hd
    · next db _ =>
      split at hd'
      · cases hd'
      · next db' _ =>
        have hkey := hproject key db d hd
        have hkey' := hproject key' db' d' hd'
        exact hne (hkey.symm.trans ((Prod.mk.inj hsame).1.trans hkey'))

theorem kept_wait {secs : Nat} (hs : s.Kept) : (s.next u sha256 (.wait secs)).Kept :=
  { hs with ticked := hs.ticked.trans (Int.le_add_of_nonneg_right (Int.natCast_nonneg secs)) }

theorem kept_tick {listed : List Key} {online : Inbox.DueReminder → Option String} (hs : s.Kept) :
    (s.next u sha256 (.tick listed online)).Kept := by
  unfold next
  dsimp only
  split
  · refine ⟨hs.began.trans hs.ticked, le_rfl, fun e he ↦ (hs.past e he).trans hs.ticked, hs.numbered,
      ?_, hs.sentNumbered, hs.apart, ?_, ?_, hs.spaced, ?_⟩
    · intro d hd
      obtain ⟨r, hr, -, -, -, hschedule⟩ := mem_collect hd
      rw [hschedule]
      exact hs.numbered _ _ (Option.isSome_of_eq_some hr)
    · intro d hd key id hrow hschedule
      obtain ⟨r, hr, -, -, hopen, hnumber⟩ := mem_collect hd
      obtain ⟨rfl, rfl⟩ := hs.apart _ _ _ _ hrow (Option.isSome_of_eq_some hr)
        (hschedule.trans hnumber)
      exact ⟨rfl, rfl, hopen⟩
    · refine List.pairwise_map.mpr ((nodup_collect s listed online).imp_of_mem ?_)
      intro d d' hd hd' hne hsame
      obtain ⟨r, hr, -, -, -, hnumber⟩ := mem_collect hd
      obtain ⟨r', hr', -, -, -, hnumber'⟩ := mem_collect hd'
      obtain ⟨hproject, hid⟩ := hs.apart _ _ _ _ (Option.isSome_of_eq_some hr)
        (Option.isSome_of_eq_some hr') (hnumber.symm.trans (hsame.trans hnumber'))
      exact hne (Prod.ext hproject hid)
    · intro e he d hd hschedule
      obtain ⟨r, hr, hevery, hdue, -, hnumber⟩ := mem_collect hd
      have hnext := hs.spaced e he _ _ r hr (hnumber.symm.trans hschedule)
      rw [hevery]
      exact hnext.trans hdue
  · exact hs

/-! ### Deliveries -/

section Deliver

variable {subscribers : Nat} {d : Delivery} {pending : List Delivery}

theorem deliver_of_pending (hsubscribers : subscribers ≠ 0) (h : s.pending = d :: pending) :
    s.deliver subscribers = { s with
      state := match s.state.journals d.project with
        | some db => s.state.file d.project (some (reminderSent db d.reminder.id s.tickAt))
        | none => s.state
      pending, sent := ⟨d.schedule, s.clock⟩ :: s.sent } := by
  unfold deliver
  rw [h]
  exact if_neg hsubscribers

theorem get?_reminderSent {db : Db} {i id now : Int} :
    (reminderSent db id now).entryReminders.get? i =
      if i = id then (db.entryReminders.get? i).map fun r ↦ { r with nextAt := now + r.everySecs }
      else db.entryReminders.get? i := by
  have hkey : ∀ r : ReminderRow,
      ({ r with nextAt := now + r.everySecs } : ReminderRow).entryId = r.entryId := fun _ ↦ rfl
  split
  · next h =>
    subst h
    exact Table.get?_updateKey_self hkey
  · next h => exact Table.get?_updateKey_of_ne hkey h

/-- Only the schedule that was handed over is rewritten. -/
theorem row_deliver (hsubscribers : subscribers ≠ 0) (h : s.pending = d :: pending) (key : Key)
    (id : Int) : (s.deliver subscribers).row key id =
      if key = d.project ∧ id = d.reminder.id then
        (s.row key id).map fun r ↦ { r with nextAt := s.tickAt + r.everySecs }
      else s.row key id := by
  rw [deliver_of_pending hsubscribers h]
  unfold row
  dsimp only
  cases hdb : s.state.journals d.project with
  | none =>
    dsimp only
    split
    · next hboth =>
      rw [hboth.1, hdb]
      rfl
    · rfl
  | some db =>
    show ((if key = d.project then some (reminderSent db d.reminder.id s.tickAt)
      else s.state.journals key).bind fun db ↦ db.entryReminders.get? id) = _
    by_cases hkey : key = d.project
    · rw [if_pos hkey, hkey, hdb, Option.bind_some, Option.bind_some, get?_reminderSent]
      simp
    · rw [if_neg hkey, if_neg fun hboth ↦ hkey hboth.1]

theorem isOpen_deliver (key : Key) (id : Int) :
    (s.deliver subscribers).isOpen key id = s.isOpen key id := by
  unfold deliver
  split
  · rfl
  · split
    · rfl
    · next d pending hpending hsubscribers =>
      unfold isOpen
      dsimp only
      cases hdb : s.state.journals d.project with
      | none => rfl
      | some db =>
        show (if key = d.project then some (reminderSent db d.reminder.id s.tickAt)
          else s.state.journals key).any _ = _
        split
        · next hkey =>
          rw [hkey, hdb]
          rfl
        · rfl

theorem isSome_row_deliver (hsubscribers : subscribers ≠ 0) (h : s.pending = d :: pending)
    (key : Key)
    (id : Int) : ((s.deliver subscribers).row key id).isSome = (s.row key id).isSome := by
  rw [row_deliver hsubscribers h]
  split
  · exact Option.isSome_map
  · rfl

theorem kept_deliver (hs : s.Kept) (h : s.Spares u sha256 (.deliver subscribers)) :
    (s.next u sha256 (.deliver subscribers)).Kept := by
  show (s.deliver subscribers).Kept
  cases hpending : s.pending with
  | nil =>
    unfold deliver
    rw [hpending]
    exact hs
  | cons d pending =>
    have hrest : ∀ d' ∈ pending, d' ∈ s.pending := by
      rw [hpending]
      exact fun d' ↦ List.mem_cons_of_mem d
    have hdistinct := hs.distinct
    rw [hpending, List.map_cons, List.nodup_cons] at hdistinct
    by_cases hsubscribers : subscribers = 0
    · unfold deliver
      rw [hpending]
      dsimp only
      rw [if_pos hsubscribers]
      exact { hs with
        pendingNumbered := fun d' hd' ↦ hs.pendingNumbered d' (hrest d' hd')
        here := fun d' hd' ↦ hs.here d' (hrest d' hd')
        distinct := hdistinct.2
        pendingSpaced := fun e he d' hd' ↦ hs.pendingSpaced e he d' (hrest d' hd') }
    · have hd : d ∈ s.pending := by simp [hpending]
      have htick : s.clock = s.tickAt := h (by simp [hpending]) hsubscribers
      have hrow := row_deliver hsubscribers hpending
      have hsome := isSome_row_deliver hsubscribers hpending
      have hopen := @isOpen_deliver s subscribers
      have hafter := deliver_of_pending hsubscribers hpending
      have hschedule : (s.deliver subscribers).schedule = s.schedule := by rw [hafter]
      have hnext : (s.deliver subscribers).nextSchedule = s.nextSchedule := by rw [hafter]
      have htickAt : (s.deliver subscribers).tickAt = s.tickAt := by rw [hafter]
      have hclock : (s.deliver subscribers).clock = s.clock := by rw [hafter]
      have hpending' : (s.deliver subscribers).pending = pending := by rw [hafter]
      have hsent : (s.deliver subscribers).sent = ⟨d.schedule, s.clock⟩ :: s.sent := by rw [hafter]
      constructor
      case began => exact htickAt ▸ hs.began
      case ticked => exact htickAt ▸ hclock ▸ hs.ticked
      case past =>
        rw [hsent, htickAt]
        exact List.forall_mem_cons.mpr ⟨htick.le, hs.past⟩
      case numbered =>
        intro key id
        rw [hsome, hschedule, hnext]
        exact hs.numbered key id
      case pendingNumbered =>
        rw [hpending', hnext]
        exact fun d' hd' ↦ hs.pendingNumbered d' (hrest d' hd')
      case sentNumbered =>
        rw [hsent, hnext]
        exact List.forall_mem_cons.mpr ⟨hs.pendingNumbered d hd, hs.sentNumbered⟩
      case apart =>
        intro key id key' id'
        rw [hsome, hsome, hschedule]
        exact hs.apart key id key' id'
      case here =>
        rw [hpending']
        intro d' hd' key id
        rw [hsome, hschedule, hopen]
        exact hs.here d' (hrest d' hd') key id
      case distinct =>
        rw [hpending']
        exact hdistinct.2
      case spaced =>
        rw [hsent, hschedule]
        intro e he key id r hr hnumber
        rw [hrow] at hr
        rcases List.mem_cons.mp he with rfl | he
        · have hwas : (s.row key id).isSome := by
            rw [← hsome, hrow, hr]
            rfl
          obtain ⟨hproject, hid, -⟩ := hs.here d hd key id hwas hnumber
          rw [if_pos ⟨hproject, hid⟩] at hr
          obtain ⟨r₀, -, rfl⟩ := Option.map_eq_some_iff.mp hr
          exact (congrArg (· + r₀.everySecs) htick).le
        · split at hr
          · obtain ⟨r₀, -, rfl⟩ := Option.map_eq_some_iff.mp hr
            exact Int.add_le_add_right (hs.past e he) _
          · exact hs.spaced e he key id r hr hnumber
      case pendingSpaced =>
        rw [hsent, hpending', htickAt]
        intro e he d' hd' hnumber
        rcases List.mem_cons.mp he with rfl | he
        · exact absurd (List.mem_map.mpr ⟨d', hd', hnumber⟩) hdistinct.1
        · exact hs.pendingSpaced e he d' (hrest d' hd') hnumber

end Deliver

/-! ### Runs -/

theorem kept_next {op : ReminderAct} (hs : s.Kept) (h : s.Spares u sha256 op) :
    (s.next u sha256 op).Kept := by
  cases op with
  | wait secs => exact kept_wait hs
  | add x entry => exact hs.of_rewrites (rewrites_add hs h.1 h.2)
  | close x id flags nick resolution abandon => exact hs.of_rewrites (rewrites_close hs h)
  | reopen x id flags => exact hs.of_rewrites (rewrites_reopen hs h)
  | share caller host target targetProjectId => exact hs.of_rewrites (rewrites_share hs h)
  | unshare host target targetProjectId => exact hs.of_rewrites (rewrites_unshare hs h)
  | tick listed online => exact kept_tick hs
  | deliver subscribers => exact kept_deliver hs h

end Reminders

/-- An add with an interval schedules its entry if and only if it is not folded into one that is
closed, and its time stays in range. -/
theorem scheduled_iff {u : Unicode} {sha256 : String → String} {t : Step Reminders ReminderAct}
    (hclock : 0 ≤ t.before.clock) (h : t.after = t.before.next u sha256 t.op) :
    Scheduled u sha256 t ↔
      ∀ x entry, t.op = .add x entry → t.before.FoldsOpen u sha256 x entry := by
  have hadd : ∀ {x entry every status id db}, t.op = .add x entry → x.session = true →
      entry.remindEvery = some every →
      add u sha256 (t.before.state.opened x) entry t.before.clock = .ok ((status, id), db) →
      ((∃ db', t.after.state.journals (resolve t.before.state.shares t.before.state.has x) = some db' ∧
        BecomesDue db' id (t.before.clock + every)) ↔
        ((t.before.state.opened x).hasFlag id .reminder = true →
          (t.before.state.opened x).hasOpenFlag id .reminder = true) ∧
            t.before.clock + every < 2 ^ 63) := by
    intro x entry every status id db hop hx hevery hadded
    have hjournal : t.after.state.journals (resolve t.before.state.shares t.before.state.has x) =
        some db := by
      rw [h, hop]
      show (t.before.state.write x fun db ↦ add u sha256 db entry t.before.clock).journals _ = _
      rw [State.journals_write hx, if_pos rfl, hadded]
      rfl
    rw [hjournal, ← becomesDue_add_iff hclock hevery hadded]
    simp only [Option.some.injEq, exists_eq_left']
  constructor
  · intro hscheduled x entry hop every status id db hx hevery hadded
    exact (hadd hop hx hevery hadded).mp (hscheduled x entry every status id db hop hx hevery hadded)
  · intro hfolds x entry every status id db hop hx hevery hadded
    exact (hadd hop hx hevery hadded).mpr (hfolds x entry hop every status id db hx hevery hadded)

/-- A note that comes back every ten minutes. -/
def flakyTest : NewEntry where
  body := "look at the flaky test"
  category := "todo"
  tags := ["ci"]
  remindEvery := some 600
  remindTo := some ("mira", none)

/-- The note is added, and reaches its author when its time comes. -/
def remindedRun : List ReminderAct :=
  [.add notes flakyTest, .wait 600, .tick [.folder ["notes"]] (fun _ ↦ some "a"), .deliver 1]

/-- The note is closed, and added again. -/
def reclosedRun : List ReminderAct :=
  [.add notes flakyTest, .close notes 1 ["reminder"] (some "mira") (some "done") false,
    .add notes flakyTest]

end Claudebase.Journal
