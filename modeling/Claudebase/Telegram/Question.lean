import Claudebase.Telegram.Ask

/-!
# The life of a question

`src/daemon/telegram.rs:982–1166`, `src/daemon/pending_asks.rs:22–259`. Sessions ask, batches
of taps come in, and expired questions are collected some time after they expire. Every question
remembers the updates processed since it was asked. A question is open as long as it is stored
and its time is not over; a tap does not look at the time.
-/

namespace Claudebase.Telegram
open Claudebase.Base

/-! ### Updates since a question was asked -/

/-- An update processed, with what its batch read from outside. -/
structure Handled where
  env : Env
  step : Step Batch Update

namespace Handled

/-- The question reached and what is said to it. -/
def reached? (t : Handled) : Option (String × String) := t.step.before.reached? t.step.op

/-- When it was processed. -/
def now (t : Handled) : Int := t.env.clock t.step.before.seen

/-- A tap that publishes an answer to a question. -/
def answers (askId : String) (t : Handled) : Bool :=
  t.reached?.map Prod.fst == some askId && t.step.after.notifications != t.step.before.notifications

/-- A tap on the button of a value. -/
def toggles (askId value : String) (t : Handled) : Bool :=
  t.reached? == some (askId, "toggle:" ++ value)

end Handled

/-- A question as it was stored, and the updates since then. -/
structure Question where
  row : PendingAsk
  since : List Handled

/-- The database and the questions asked. -/
structure Survey where
  db : Db
  asked : List Question

/-- What a question may expect. It is answered once, by the value tapped or by the values tapped
an odd number of times; nothing comes of a tap once it is answered or its time is over; no other
update touches its row. -/
structure Lifecycle (q : Question) : Prop where
  once : q.since.countP (Handled.answers q.row.askId) ≤ 1
  single : q.row.multi = false → ∀ t ∈ q.since, t.answers q.row.askId = true →
    ∃ value, t.reached? = some (q.row.askId, value) ∧
      Batch.Publishes q.row (.single value) t.step
  multi : q.row.multi = true → ∀ earlier t later, q.since = earlier ++ t :: later →
    t.answers q.row.askId = true → ∃ values, Batch.Publishes q.row (.multi values) t.step ∧
      values.Nodup ∧ ∀ v, v ∈ values ↔ earlier.countP (Handled.toggles q.row.askId v) % 2 = 1
  closed : ∀ earlier t later, q.since = earlier ++ t :: later →
    t.reached?.map Prod.fst = some q.row.askId →
    (∃ t' ∈ earlier, t'.answers q.row.askId = true) ∨ q.row.expiresAt ≤ t.now → Batch.Idle t.step
  others : ∀ t ∈ q.since, t.reached?.map Prod.fst ≠ some q.row.askId →
    t.step.after.db.getPending q.row.askId = t.step.before.db.getPending q.row.askId

/-- No button of the question was tapped while it was stored and its time was over. -/
def Timely (q : Question) : Prop :=
  ∀ t ∈ q.since, ∀ suffix, t.reached? = some (q.row.askId, suffix) →
    (t.step.before.db.getPending q.row.askId).isSome = true →
    t.now < q.row.expiresAt ∨
      (q.row.multi = true ∧ suffix ≠ "done" ∧ stripPrefix "toggle:" suffix = none)

/-! ### The system -/

namespace Survey

/-- A session asks; a batch is processed under whatever the access list is; expired questions are
collected; others write any other table. -/
inductive Op where
  | ask (seed : Nat) (args : Json) (requester : Option String)
      (send : KeyboardOutbound → Except SendError Int) (now : Int)
  | batch (env : Env) (access : Access) (updates : List Update)
  | collect (now : Int)
  | others (db : Db)

variable (uuids : Uuids) (debug : String → String)

/-- One step. An id drawn once is not drawn again. -/
def next (s : Survey) : Op → Survey
  | .ask seed args requester send now =>
    let taken := s.asked.map fun q ↦ q.row.askId
    match handleChatAsk uuids debug s.db taken seed args requester send now with
    | .ok (ask, db) => ⟨db, s.asked ++ [⟨ask, []⟩]⟩
    | .error _ => s
  | .batch env access updates =>
    { db := (Batch.process uuids env s.db access updates).db
      asked := s.asked.map fun q ↦ { q with
        since := q.since ++ (Batch.steps uuids env s.db access updates).map (Handled.mk env) } }
  | .collect now => { s with db := s.db.gcExpired now }
  | .others db => { s with db := { db with pendingAsks := s.db.pendingAsks } }

end Survey

/-! ### A question while it is stored -/

/-- A stored question is the one that was asked, has not been answered, and its selection holds
the values tapped an odd number of times. -/
def Stored (ask : PendingAsk) (since : List Handled) (db : Db) : Prop :=
  ∀ row, db.getPending ask.askId = some row →
    ∃ values, row = { ask with selectedValues := values } ∧
      (∀ t ∈ since, t.answers ask.askId = false) ∧ (values.getD []).Nodup ∧
      ∀ v, v ∈ values.getD [] ↔ since.countP (Handled.toggles ask.askId v) % 2 = 1

theorem Stored.of_pendingAsks {ask : PendingAsk} {since : List Handled} {db db' : Db}
    (h : Stored ask since db) (hsame : db'.pendingAsks = db.pendingAsks) : Stored ask since db' := by
  intro row hrow
  unfold Db.getPending at hrow
  rw [hsame] at hrow
  exact h row hrow

/-- A question that is not stored. -/
theorem stored_of_none {ask : PendingAsk} {since : List Handled} {db : Db}
    (h : db.getPending ask.askId = none) : Stored ask since db := by
  intro row hrow
  rw [h] at hrow
  cases hrow

/-- An update without effect on the question. -/
theorem Stored.concat_of_same {ask : PendingAsk} {since : List Handled} {t : Handled}
    (h : Stored ask since t.step.before.db)
    (hrow : t.step.after.db.getPending ask.askId = t.step.before.db.getPending ask.askId)
    (hanswer : t.answers ask.askId = false) (htoggle : ∀ v, t.toggles ask.askId v = false) :
    Stored ask (since ++ [t]) t.step.after.db := by
  intro row hafter
  rw [hrow] at hafter
  obtain ⟨values, rfl, hopen, hnodup, hvalues⟩ := h row hafter
  refine ⟨values, rfl, ?_, hnodup, fun v ↦ ?_⟩
  · intro t' ht'
    rcases List.mem_append.mp ht' with ht' | ht'
    · exact hopen t' ht'
    · rwa [List.mem_singleton.mp ht']
  · rw [List.countP_append, List.countP_singleton, htoggle v]
    exact hvalues v

variable {uuids : Uuids} {env : Env} {b : Batch} {u : Update}

/-- An update that does not reach the question leaves its row. -/
theorem getPending_of_reached_ne {askId : String}
    (h : (b.reached? u).map Prod.fst ≠ some askId) :
    (Batch.processUpdate uuids env b u).db.getPending askId = b.db.getPending askId := by
  cases hreached : b.reached? u with
  | none =>
    unfold Db.getPending
    rw [Batch.pendingAsks_processUpdate uuids env hreached]
  | some named =>
    obtain ⟨id, suffix⟩ := named
    have hne : askId ≠ id := by
      rintro rfl
      exact h (by rw [hreached]; rfl)
    cases hrow : b.db.getPending id with
    | none =>
      rw [(Batch.idle_of_unknown uuids env hreached hrow).db]
    | some ask =>
      cases hmulti : ask.multi with
      | false =>
        unfold Db.getPending
        rw [(Batch.answered_single uuids env hreached hrow hmulti).2,
          Table.get?_deleteKey_of_ne hne]
      | true =>
        by_cases hdone : suffix = "done"
        · subst hdone
          unfold Db.getPending
          rw [(Batch.answered_multi uuids env hreached hrow hmulti).2,
            Table.get?_deleteKey_of_ne hne]
        · cases htoggle : stripPrefix "toggle:" suffix with
          | none => rw [(Batch.idle_of_malformed uuids env hreached hrow hmulti hdone htoggle).db]
          | some value =>
            obtain rfl := stripPrefix_eq_some_iff.mp htoggle
            rw [(Batch.toggled_multi uuids env hreached hrow hmulti).2.2]
            unfold Db.updateSelectedValues Db.getPending
            dsimp only
            rw [Table.get?_updateKey_of_ne _ hne]

/-- A tap on a button of a stored question is not idle. -/
theorem not_idle {askId suffix : String} {ask : PendingAsk}
    (h : b.reached? u = some (askId, suffix)) (hrow : b.db.getPending askId = some ask)
    (hbutton : ¬ (ask.multi = true ∧ suffix ≠ "done" ∧ stripPrefix "toggle:" suffix = none)) :
    ¬ Batch.Idle ⟨b, u, Batch.processUpdate uuids env b u⟩ := by
  intro hidle
  cases hmulti : ask.multi with
  | false =>
    obtain ⟨⟨frame, -, hpublished⟩, -⟩ := Batch.answered_single uuids env h hrow hmulti
    have hsame := hidle.notifications
    rw [hpublished] at hsame
    simp at hsame
  | true =>
    by_cases hdone : suffix = "done"
    · subst hdone
      obtain ⟨⟨frame, -, hpublished⟩, -⟩ := Batch.answered_multi uuids env h hrow hmulti
      have hsame := hidle.notifications
      rw [hpublished] at hsame
      simp at hsame
    · obtain ⟨value, htoggle⟩ := Option.ne_none_iff_exists'.mp fun hnone ↦
        hbutton ⟨hmulti, hdone, hnone⟩
      obtain rfl := stripPrefix_eq_some_iff.mp htoggle
      exact (Batch.toggled_multi uuids env h hrow hmulti).2.1 hidle.keyboardEdits

theorem answers_of_reached_ne {askId : String} {t : Handled}
    (h : t.reached?.map Prod.fst ≠ some askId) : t.answers askId = false := by
  simp [Handled.answers, h]

theorem toggles_of_reached_ne {askId : String} {t : Handled}
    (h : t.reached?.map Prod.fst ≠ some askId) (v : String) : t.toggles askId v = false := by
  unfold Handled.toggles
  rw [beq_eq_false_iff_ne]
  intro hreached
  exact h (by rw [hreached]; rfl)

theorem answers_of_idle {askId : String} {t : Handled} (h : Batch.Idle t.step) :
    t.answers askId = false := by
  simp [Handled.answers, h.notifications]

/-- A tap whose suffix is no value's toggles nothing. -/
theorem toggles_of_suffix {askId suffix : String} {t : Handled}
    (h : t.reached? = some (askId, suffix)) (htoggle : stripPrefix "toggle:" suffix = none)
    (v : String) : t.toggles askId v = false := by
  unfold Handled.toggles
  rw [beq_eq_false_iff_ne, h]
  intro heq
  have hsuffix : suffix = "toggle:" ++ v := congrArg Prod.snd (Option.some.inj heq)
  rw [stripPrefix_eq_some_iff.mpr hsuffix] at htoggle
  cases htoggle

/-- One more update keeps the question as it should be stored. -/
theorem Stored.concat {ask : PendingAsk} {since : List Handled}
    (h : Stored ask since b.db) :
    Stored ask (since ++ [⟨env, b, u, Batch.processUpdate uuids env b u⟩])
      (Batch.processUpdate uuids env b u).db := by
  let t : Handled := ⟨env, b, u, Batch.processUpdate uuids env b u⟩
  have hbefore : Stored ask since t.step.before.db := h
  by_cases hreached : t.reached?.map Prod.fst = some ask.askId
  · obtain ⟨⟨id, suffix⟩, hnamed, rfl⟩ := Option.map_eq_some_iff.mp hreached
    cases hrow : b.db.getPending ask.askId with
    | none =>
      have hidle := Batch.idle_of_unknown uuids env hnamed hrow
      apply stored_of_none
      rw [hidle.db]
      exact hrow
    | some row =>
      obtain ⟨values, rfl, hopen, hnodup, hvalues⟩ := h row hrow
      cases hmulti : ask.multi with
      | false =>
        apply stored_of_none
        unfold Db.getPending
        rw [(Batch.answered_single uuids env hnamed hrow hmulti).2]
        exact Table.get?_deleteKey_self
      | true =>
        by_cases hdone : suffix = "done"
        · subst hdone
          apply stored_of_none
          unfold Db.getPending
          rw [(Batch.answered_multi uuids env hnamed hrow hmulti).2]
          exact Table.get?_deleteKey_self
        · cases htoggle : stripPrefix "toggle:" suffix with
          | none =>
            have hidle := Batch.idle_of_malformed uuids env hnamed hrow hmulti hdone htoggle
            exact hbefore.concat_of_same (by rw [hidle.db]) (answers_of_idle hidle)
              (toggles_of_suffix hnamed htoggle)
          | some value =>
            -- the selection changes, and so does the count of this value only
            obtain rfl := stripPrefix_eq_some_iff.mp htoggle
            obtain ⟨hquiet, -, hdb⟩ := Batch.toggled_multi uuids env hnamed hrow hmulti
            have hanswer : t.answers ask.askId = false := by
              unfold Handled.answers
              rw [show t.step.after.notifications = t.step.before.notifications from hquiet]
              simp
            intro row' hrow'
            rw [hdb, Db.getPending_updateSelectedValues, hrow, Option.map_some] at hrow'
            obtain rfl := Option.some.inj hrow'
            refine ⟨_, rfl, ?_, Batch.nodup_toggle hnodup, fun v ↦ ?_⟩
            · intro t' ht'
              rcases List.mem_append.mp ht' with ht' | ht'
              · exact hopen t' ht'
              · rwa [List.mem_singleton.mp ht']
            · have hcount : (since ++ [t]).countP (Handled.toggles ask.askId v) =
                  since.countP (Handled.toggles ask.askId v) + if value = v then 1 else 0 := by
                rw [List.countP_append, List.countP_singleton]
                have htoggles : t.toggles ask.askId v = decide (value = v) := by
                  unfold Handled.toggles
                  rw [show t.reached? = some (ask.askId, "toggle:" ++ value) from hnamed,
                    Bool.eq_iff_iff]
                  simp
                rw [htoggles]
                simp
              rw [Option.getD_some, Batch.mem_toggle hnodup, hcount, hvalues v]
              split
              · omega
              · rfl
  · exact hbefore.concat_of_same (getPending_of_reached_ne hreached)
      (answers_of_reached_ne hreached) (toggles_of_reached_ne hreached)

/-! ### A question over a run -/

/-- A question is stored as it should be, now and before each update since it was asked. -/
structure Followed (uuids : Uuids) (q : Question) (db : Db) : Prop where
  stored : Stored q.row q.since db
  steps : ∀ earlier t later, q.since = earlier ++ t :: later →
    t.step.after = Batch.processUpdate uuids t.env t.step.before t.step.op ∧
      Stored q.row earlier t.step.before.db

theorem Followed.of_stored {q : Question} {db db' : Db} (h : Followed uuids q db)
    (hstored : Stored q.row q.since db') : Followed uuids q db' :=
  ⟨hstored, h.steps⟩

/-- One more update. -/
theorem Followed.concat {q : Question} (h : Followed uuids q b.db) :
    Followed uuids
      { q with since := q.since ++ [⟨env, b, u, Batch.processUpdate uuids env b u⟩] }
      (Batch.processUpdate uuids env b u).db := by
  refine ⟨h.stored.concat, fun earlier t later hsplit ↦ ?_⟩
  dsimp only at hsplit
  rcases List.eq_nil_or_concat later with rfl | ⟨later', last, rfl⟩
  · obtain ⟨rfl, hlast⟩ := List.append_inj' hsplit rfl
    obtain rfl := List.singleton_inj.mp hlast
    exact ⟨rfl, h.stored⟩
  · have hsplit' : q.since ++ [⟨env, b, u, Batch.processUpdate uuids env b u⟩] =
        (earlier ++ t :: later') ++ [last] := by simpa using hsplit
    obtain ⟨hinit, -⟩ := List.append_inj' hsplit' rfl
    exact h.steps earlier t later' hinit

/-- A whole batch. -/
theorem Followed.run (updates : List Update) {q : Question} (h : Followed uuids q b.db) :
    Followed uuids { q with
        since := q.since ++ (trace (Batch.processUpdate uuids env) b updates).map (Handled.mk env) }
      (Base.run (Batch.processUpdate uuids env) b updates).db := by
  induction updates generalizing b q with
  | nil => simpa [trace, Base.run] using h
  | cons u updates ih =>
    have hnext : Followed uuids
        { q with since := q.since ++ [⟨env, b, u, Batch.processUpdate uuids env b u⟩] }
        (Batch.processUpdate uuids env b u).db := h.concat
    have hrest := ih hnext
    simpa [trace, Base.run] using hrest

namespace Survey

variable {debug : String → String}

/-- Every question asked is followed. -/
def Tracks (uuids : Uuids) (s : Survey) : Prop := ∀ q ∈ s.asked, Followed uuids q s.db

/-- A question asked. -/
theorem Tracks.ask {s : Survey} (h : s.Tracks uuids) (seed : Nat) (args : Json)
    (requester : Option String) (send : KeyboardOutbound → Except SendError Int) (now : Int) :
    (s.next uuids debug (.ask seed args requester send now)).Tracks uuids := by
  unfold next
  dsimp only
  split
  · next ask db hdone =>
    obtain ⟨hid, hnew, -, hinsert⟩ := handleChatAsk_eq_ok hdone
    intro q hq
    rcases List.mem_append.mp hq with hq | hq
    · have hne : q.row.askId ≠ ask.askId := by
        intro heq
        have htaken : ask.askId ∈ s.asked.map fun q ↦ q.row.askId := heq ▸ List.mem_map_of_mem hq
        rw [hid] at htaken
        exact uuids.new_not_mem _ _ htaken
      apply (h q hq).of_stored
      intro row hrow
      dsimp only at hrow
      rw [Db.getPending_insertPending hinsert, if_neg hne] at hrow
      exact (h q hq).stored row hrow
    · obtain rfl := List.mem_singleton.mp hq
      constructor
      · intro row hrow
        dsimp only at hrow
        rw [Db.getPending_insertPending hinsert, if_pos rfl] at hrow
        obtain rfl := Option.some.inj hrow
        refine ⟨none, by rw [← hnew], fun t ht ↦ absurd ht List.not_mem_nil, List.nodup_nil,
          fun v ↦ by simp⟩
      · intro earlier t later hsplit
        exact absurd hsplit (by simp)
  · exact h

/-- Moving the offset leaves the questions. -/
theorem pendingAsks_process (env : Env) (db : Db) (access : Access) (updates : List Update) :
    (Batch.process uuids env db access updates).db.pendingAsks =
      (run (Batch.processUpdate uuids env)
        (.start db (pruneExpired access env.now).2 (pruneExpired access env.now).1)
        updates).db.pendingAsks := by
  unfold Batch.process
  split
  · next hempty =>
    obtain rfl := List.isEmpty_iff.mp hempty
    rfl
  · unfold Batch.advanceOffset
    split
    · rfl
    · rfl

/-- Collecting takes a question away or leaves it. -/
theorem getPending_gcExpired {db : Db} {now : Int} {askId : String} {row : PendingAsk}
    (h : (db.gcExpired now).getPending askId = some row) : db.getPending askId = some row := by
  obtain ⟨hmem, hid⟩ := Table.get?_eq_some_iff.mp h
  exact Table.get?_eq_some_iff.mpr ⟨(Table.mem_delete.mp hmem).1, hid⟩

/-- Every step keeps every question followed. -/
theorem tracks_next {s : Survey} (h : s.Tracks uuids) (op : Op) :
    (s.next uuids debug op).Tracks uuids := by
  cases op with
  | ask seed args requester send now => exact h.ask seed args requester send now
  | batch env access updates =>
    intro q' hq'
    obtain ⟨q, hq, rfl⟩ := List.mem_map.mp hq'
    let start : Batch := .start s.db (pruneExpired access env.now).2 (pruneExpired access env.now).1
    have hrun : Followed uuids { q with
          since := q.since ++ (Batch.steps uuids env s.db access updates).map (Handled.mk env) }
        (run (Batch.processUpdate uuids env) start updates).db :=
      Followed.run updates (h q hq)
    exact hrun.of_stored (hrun.stored.of_pendingAsks (pendingAsks_process env s.db access updates))
  | collect now =>
    intro q hq
    exact (h q hq).of_stored fun row hrow ↦ (h q hq).stored row (getPending_gcExpired hrow)
  | others db =>
    intro q hq
    exact (h q hq).of_stored ((h q hq).stored.of_pendingAsks rfl)

end Survey

/-! ### What follows for a question -/

/-- An answering tap finds its question stored. -/
theorem exists_row_of_answers {askId : String} {t : Handled}
    (hstep : t.step.after = Batch.processUpdate uuids t.env t.step.before t.step.op)
    (h : t.answers askId = true) : ∃ suffix row, t.reached? = some (askId, suffix) ∧
      t.step.before.db.getPending askId = some row := by
  have h' := h
  unfold Handled.answers at h'
  rw [Bool.and_eq_true, beq_iff_eq, Option.map_eq_some_iff] at h'
  obtain ⟨⟨⟨id, suffix⟩, hnamed, rfl⟩, -⟩ := h'
  cases hrow : t.step.before.db.getPending id with
  | some row => exact ⟨suffix, row, hnamed, rfl⟩
  | none =>
    have hidle := Batch.idle_of_unknown uuids t.env hnamed hrow
    rw [← hstep] at hidle
    rw [answers_of_idle hidle] at h
    cases h

/-- At most one element has a property that excludes it for the elements before. -/
theorem countP_le_one {α : Type*} {p : α → Bool} {l : List α}
    (h : ∀ earlier a later, l = earlier ++ a :: later → p a = true →
      ∀ a' ∈ earlier, p a' = false) : l.countP p ≤ 1 := by
  induction l using List.reverseRecOn with
  | nil => simp
  | append_singleton l a ih =>
    rw [List.countP_append, List.countP_singleton]
    by_cases ha : p a = true
    · have hnone : l.countP p = 0 := by
        rw [List.countP_eq_zero]
        intro a' ha'
        rw [h l a [] rfl ha a' ha']
        simp
      rw [hnone, if_pos ha]
    · rw [if_neg ha]
      apply ih
      intro earlier a' later hsplit
      exact h earlier a' (later ++ [a]) (by rw [hsplit]; simp)

/-- A followed question lives as promised exactly when it was tapped in time. -/
theorem Followed.lifecycle_iff {q : Question} {db : Db} (h : Followed uuids q db) :
    Lifecycle q ↔ Timely q := by
  constructor
  · intro hlife t ht suffix hnamed hstored
    obtain ⟨earlier, later, hsplit⟩ := List.append_of_mem ht
    obtain ⟨hstep, hrows⟩ := h.steps earlier t later hsplit
    by_contra hlate
    rw [not_or, not_lt] at hlate
    have hidle := hlife.closed earlier t later hsplit (by rw [hnamed]; rfl) (Or.inr hlate.1)
    obtain ⟨row, hrow⟩ := Option.isSome_iff_exists.mp hstored
    obtain ⟨values, rfl, -⟩ := hrows row hrow
    have hidle' : Batch.Idle ⟨t.step.before, t.step.op,
        Batch.processUpdate uuids t.env t.step.before t.step.op⟩ := by
      rw [← hstep]
      exact hidle
    exact not_idle hnamed hrow hlate.2 hidle'
  · intro htimely
    constructor
    · apply countP_le_one
      intro earlier t later hsplit hanswers
      obtain ⟨hstep, hrows⟩ := h.steps earlier t later hsplit
      obtain ⟨_, row, -, hrow⟩ := exists_row_of_answers hstep hanswers
      obtain ⟨values, -, hopen, -⟩ := hrows row hrow
      exact hopen
    · intro hsingle t ht hanswers
      obtain ⟨earlier, later, hsplit⟩ := List.append_of_mem ht
      obtain ⟨hstep, hrows⟩ := h.steps earlier t later hsplit
      obtain ⟨suffix, row, hnamed, hrow⟩ := exists_row_of_answers hstep hanswers
      obtain ⟨values, rfl, -⟩ := hrows row hrow
      refine ⟨suffix, hnamed, ?_⟩
      have hpublished := (Batch.answered_single uuids t.env hnamed hrow hsingle).1
      rw [← hstep] at hpublished
      exact hpublished
    · intro hmulti earlier t later hsplit hanswers
      obtain ⟨hstep, hrows⟩ := h.steps earlier t later hsplit
      obtain ⟨suffix, row, hnamed, hrow⟩ := exists_row_of_answers hstep hanswers
      obtain ⟨values, rfl, -, hnodup, hvalues⟩ := hrows row hrow
      have hdone : suffix = "done" := by
        by_contra hdone
        have hquiet : t.step.after.notifications = t.step.before.notifications := by
          rw [hstep]
          cases htoggle : stripPrefix "toggle:" suffix with
          | none =>
            exact (Batch.idle_of_malformed uuids t.env hnamed hrow hmulti hdone htoggle).notifications
          | some value =>
            obtain rfl := stripPrefix_eq_some_iff.mp htoggle
            exact (Batch.toggled_multi uuids t.env hnamed hrow hmulti).1
        simp [Handled.answers, hquiet] at hanswers
      subst hdone
      refine ⟨_, ?_, hnodup, hvalues⟩
      have hpublished := (Batch.answered_multi uuids t.env hnamed hrow hmulti).1
      rw [← hstep] at hpublished
      exact hpublished
    · intro earlier t later hsplit hreached hclosed
      obtain ⟨hstep, hrows⟩ := h.steps earlier t later hsplit
      obtain ⟨⟨id, suffix⟩, hnamed, rfl⟩ := Option.map_eq_some_iff.mp hreached
      cases hrow : t.step.before.db.getPending q.row.askId with
      | none =>
        have hidle := Batch.idle_of_unknown uuids t.env hnamed hrow
        rwa [← hstep] at hidle
      | some row =>
        obtain ⟨values, rfl, hopen, -⟩ := hrows row hrow
        rcases hclosed with ⟨t', ht', hanswers⟩ | hlate
        · rw [hopen t' ht'] at hanswers
          cases hanswers
        · have ht : t ∈ q.since := by simp [hsplit]
          rcases htimely t ht suffix hnamed (by simp [hrow]) with hearly | ⟨hmulti, hdone, hnone⟩
          · exact absurd hearly (not_lt.mpr hlate)
          · have hidle := Batch.idle_of_malformed uuids t.env hnamed hrow hmulti hdone hnone
            rwa [← hstep] at hidle
    · intro t ht hreached
      obtain ⟨earlier, later, hsplit⟩ := List.append_of_mem ht
      obtain ⟨hstep, -⟩ := h.steps earlier t later hsplit
      rw [hstep]
      exact getPending_of_reached_ne hreached

/-- In every run every question lives as promised if and only if no button of a question was
tapped after its time while it was still stored. -/
theorem question_lifecycle (uuids : Uuids) (debug : String → String) (db : Db)
    (ops : List Survey.Op) :
    (∀ q ∈ (run (Survey.next uuids debug) ⟨db, []⟩ ops).asked, Lifecycle q) ↔
      ∀ q ∈ (run (Survey.next uuids debug) ⟨db, []⟩ ops).asked, Timely q := by
  have htracks : (run (Survey.next uuids debug) ⟨db, []⟩ ops).Tracks uuids := by
    apply invariant_of_run (I := Survey.Tracks uuids)
    · exact fun q hq ↦ absurd hq List.not_mem_nil
    · intro t ht hbefore
      rw [after_of_mem_trace ht]
      exact Survey.tracks_next hbefore t.op
  constructor
  · exact fun h q hq ↦ (htracks q hq).lifecycle_iff.mp (h q hq)
  · exact fun h q hq ↦ (htracks q hq).lifecycle_iff.mpr (h q hq)

/-- A tap after the time of a question publishes nothing. -/
theorem Lifecycle.silent {q : Question} (h : Lifecycle q) : ∀ t ∈ q.since,
    t.reached?.map Prod.fst = some q.row.askId → q.row.expiresAt ≤ t.now →
    t.step.after.notifications = t.step.before.notifications := by
  intro t ht hreached hlate
  obtain ⟨earlier, later, hsplit⟩ := List.append_of_mem ht
  exact (h.closed earlier t later hsplit hreached (Or.inr hlate)).notifications

namespace Survey

/-- A question with two options. -/
def deployArgs : Json :=
  .obj [("thread", .str "telegram:5"), ("question", .str "Deploy?"),
    ("options", .arr [.obj [("label", .str "Yes"), ("value", .str "yes")],
      .obj [("label", .str "No"), ("value", .str "no")]])]

/-- The operator's tap on the first. -/
def yesTap : Update :=
  ⟨1, none, some ⟨"tap", ⟨7, none⟩, some "i:yes", some ⟨9, 5, none⟩⟩, Or.inl rfl⟩

/-- A day after. -/
def nextDay : Env where
  host := ⟨"host", fun _ ↦ true⟩
  now := 86400000
  clock _ := 86400000
  seed _ := 0
  pairingCode _ := none
  isoSeconds _ := ""
  isoMillis _ := ""

/-- A question is asked, and tapped a day later before it is collected. -/
def lateRun : List Op :=
  [.ask 0 deployArgs (some "agent") (fun _ ↦ .ok 9) 0,
    .batch nextDay ⟨.pairing, ["7"], .empty⟩ [yesTap],
    .collect 86400001]

end Survey

/-- The late tap is answered. -/
theorem question_lifecycle_late :
    ¬ ∀ q ∈ (run (Survey.next .longer id) ⟨.empty, []⟩ Survey.lateRun).asked, Lifecycle q := by
  intro h
  have hsilent := fun q hq ↦ (h q hq).silent
  revert hsilent
  decide

end Claudebase.Telegram
