import Claudebase.Bus.Connection

/-!
# The end of a connection

A request loop that ends leaves its forwarders where they are: each waits on the bus with a sender
in its hand, the writer waits for the senders, and the permit for the writer. A connection without
forwarders at its end comes down, and no publication counts it.
-/

namespace Claudebase.Bus
open Claudebase.Base

namespace System

variable {φ : Type} {s s' : System φ} {a : Act φ} {c : Nat}

/-- Where the loop of a connection is. -/
def loopOf (s : System φ) (c : Nat) : Option Loop := (s.connections c).map Connection.loop

theorem loopOf_at {l : Loop} {x : Connection φ} (h : s.at? c l = some x) :
    s.loopOf c = some l := by
  obtain ⟨hx, rfl⟩ := at?_eq_some.mp h
  simp [loopOf, hx]

theorem ended_iff_loopOf : s.Ended c ↔ s.loopOf c = some .ended := by
  simp [ended_iff, loopOf]

theorem loopOf_put (s : System φ) (c : Nat) (x : Connection φ) (i : Nat) :
    (s.put c x).loopOf i = if i = c then some x.loop else s.loopOf i := by
  unfold loopOf
  rw [put_connections]
  split
  · rfl
  · rfl

/-! ### Steps -/

/-- What a forwarder does to the receivers and the loops. -/
theorem forward_ok {i : Nat} {r : Receiver φ} (hr : r ∈ s.receivers)
    (h : s.forward i r = some s') :
    (∀ r' ∈ s'.receivers, ∃ x ∈ s.receivers, x.connection = r'.connection) ∧
      ∀ j, s'.loopOf j = s.loopOf j := by
  have hset : ∀ r₁ : Receiver φ, r₁.connection = r.connection →
      ∀ r' ∈ s.receivers.set i r₁, ∃ x ∈ s.receivers, x.connection = r'.connection := by
    intro r₁ hsame r' hr'
    rcases List.mem_or_eq_of_mem_set hr' with hr' | rfl
    · exact ⟨r', hr', rfl⟩
    · exact ⟨r, hr, hsame.symm⟩
  unfold forward at h
  split at h
  · cases h
    exact ⟨hset _ rfl, fun j ↦ rfl⟩
  · split at h
    · next frame frames x _ hx =>
      split at h
      · cases h
        refine ⟨hset _ rfl, fun j ↦ ?_⟩
        refine (loopOf_put s r.connection (x.send frame) j).trans ?_
        split
        · next hj => simp [hj, loopOf, hx, Connection.send]
        · rfl
      · cases h
        exact ⟨fun r' hr' ↦ ⟨r', List.mem_of_mem_eraseIdx hr', rfl⟩, fun j ↦ rfl⟩
    · cases h

/-- A receiver was there before the step, or the step subscribes. -/
theorem step_receivers (h : s.step a = some s') {r' : Receiver φ} (hr' : r' ∈ s'.receivers) :
    (∃ r ∈ s.receivers, r.connection = r'.connection) ∨
      ∃ threadId, a = .subscribe r'.connection threadId := by
  cases a with
  | accept c =>
    rw [step] at h
    split at h
    · cases h
    · cases h
      exact Or.inl ⟨r', hr', rfl⟩
  | request c | answer c frame | close c =>
    obtain ⟨x, -, rfl⟩ := Option.map_eq_some_iff.mp h
    exact Or.inl ⟨r', hr', rfl⟩
  | subscribe c threadId =>
    obtain ⟨x, -, rfl⟩ := Option.map_eq_some_iff.mp h
    rcases List.mem_append.mp hr' with hr' | hr'
    · exact Or.inl ⟨r', hr', rfl⟩
    · rw [List.mem_singleton] at hr'
      exact Or.inr ⟨threadId, by rw [hr']⟩
  | drain c ok =>
    obtain ⟨x, -, rfl⟩ := Option.map_eq_some_iff.mp h
    have hr' : r' ∈ s.drained c ok := hr'
    unfold drained at hr'
    split at hr'
    · obtain ⟨r, hr, rfl⟩ := List.mem_map.mp hr'
      refine Or.inl ⟨r, hr, ?_⟩
      split
      · rfl
      · rfl
    · exact Or.inl ⟨r', (List.mem_filter.mp hr').1, rfl⟩
  | publish threadId frame =>
    cases h
    obtain ⟨r, hr, rfl⟩ := List.mem_map.mp hr'
    refine Or.inl ⟨r, hr, ?_⟩
    split
    · exact (r.push_connection frame).symm
    · rfl
  | forward i =>
    obtain ⟨r, hr, h⟩ := Option.bind_eq_some_iff.mp h
    obtain ⟨hr, -⟩ := Option.filter_eq_some_iff.mp hr
    exact Or.inl ((forward_ok (List.mem_of_getElem? hr) h).1 r' hr')
  | write c sent =>
    rw [step] at h
    split at h
    · cases h
      exact Or.inl ⟨r', hr', rfl⟩
    · cases h
  | stop c =>
    rw [step] at h
    split at h
    · split at h
      · cases h
        exact Or.inl ⟨r', hr', rfl⟩
      · cases h
    · cases h
  | finish c =>
    rw [step] at h
    split at h
    · cases h
      exact Or.inl ⟨r', hr', rfl⟩
    · cases h

/-- A loop moves on from where it was; only a close ends it. -/
theorem step_loopOf (h : s.step a = some s') (i : Nat) :
    s'.loopOf i = s.loopOf i ∨ (∃ l, s'.loopOf i = some l ∧ l ≠ .ended) ∨
      a = .close i ∧ s.loopOf i = some .reading := by
  have hput : ∀ {c : Nat} {x : Connection φ}, x.loop ≠ .ended →
      (s.put c x).loopOf i = s.loopOf i ∨ ∃ l, (s.put c x).loopOf i = some l ∧ l ≠ .ended := by
    intro c x hx
    rw [loopOf_put]
    split
    · exact Or.inr ⟨x.loop, rfl, hx⟩
    · exact Or.inl rfl
  have hsame : ∀ {c : Nat} {x : Connection φ}, s.loopOf c = some x.loop →
      (s.put c x).loopOf i = s.loopOf i := by
    intro c x hx
    rw [loopOf_put]
    split
    · next hi => rw [hi, hx]
    · rfl
  have hreading : Loop.reading ≠ .ended := Loop.noConfusion
  have hsubscribing : Loop.subscribing ≠ .ended := Loop.noConfusion
  have hanswering : Loop.answering ≠ .ended := Loop.noConfusion
  cases a with
  | accept c =>
    rw [step] at h
    split at h
    · cases h
    · cases h
      exact (@hput c ⟨.reading, some [], true⟩ hreading).imp_right Or.inl
  | request c =>
    obtain ⟨x, -, rfl⟩ := Option.map_eq_some_iff.mp h
    exact (@hput c { x with loop := .answering } hanswering).imp_right Or.inl
  | subscribe c threadId =>
    obtain ⟨x, -, rfl⟩ := Option.map_eq_some_iff.mp h
    exact (@hput c { x with loop := .subscribing } hsubscribing).imp_right Or.inl
  | drain c ok =>
    obtain ⟨x, -, rfl⟩ := Option.map_eq_some_iff.mp h
    exact (@hput c { x with loop := .answering } hanswering).imp_right Or.inl
  | answer c frame =>
    obtain ⟨x, -, rfl⟩ := Option.map_eq_some_iff.mp h
    exact (@hput c { x.send frame with loop := .reading } hreading).imp_right Or.inl
  | publish threadId frame =>
    cases h
    exact Or.inl rfl
  | forward i =>
    obtain ⟨r, hr, h⟩ := Option.bind_eq_some_iff.mp h
    obtain ⟨hr, -⟩ := Option.filter_eq_some_iff.mp hr
    exact Or.inl ((forward_ok (List.mem_of_getElem? hr) h).2 _)
  | write c sent =>
    rw [step] at h
    split at h
    · next l _ _ _ hx =>
      cases h
      exact Or.inl (hsame (by simp [loopOf, hx]))
    · cases h
  | stop c =>
    rw [step] at h
    split at h
    · next hx =>
      split at h
      · cases h
        obtain ⟨hx, -⟩ := at?_eq_some.mp hx
        exact Or.inl (hsame (by simp [loopOf, hx]))
      · cases h
    · cases h
  | close c =>
    obtain ⟨x, hx, rfl⟩ := Option.map_eq_some_iff.mp h
    rw [loopOf_put]
    split
    · next hi => exact Or.inr (Or.inr ⟨by rw [hi], hi ▸ loopOf_at hx⟩)
    · exact Or.inl rfl
  | finish c =>
    rw [step] at h
    split at h
    · next hx =>
      cases h
      obtain ⟨hx, -⟩ := at?_eq_some.mp hx
      exact Or.inl (@hsame c ⟨_, none, false⟩ (by simp [loopOf, hx]))
    · cases h

/-- Who subscribes is at its next frame, and goes on to the drain. -/
theorem step_subscribe {threadId : String} (h : s.step (.subscribe c threadId) = some s') :
    s'.loopOf c = some .subscribing := by
  obtain ⟨x, -, rfl⟩ := Option.map_eq_some_iff.mp h
  exact (loopOf_put s c { x with loop := .subscribing } c).trans (if_pos rfl)

/-! ### Runs -/

/-- Every receiver belongs to a connection whose loop runs. -/
def Attended (s : System φ) : Prop :=
  ∀ r ∈ s.receivers, ∃ l, s.loopOf r.connection = some l ∧ l ≠ .ended

theorem Attended.not_ended (h : s.Attended) {r : Receiver φ} (hr : r ∈ s.receivers) :
    ¬ s.Ended r.connection := by
  obtain ⟨l, hl, hne⟩ := h r hr
  rw [ended_iff_loopOf, hl]
  simpa using hne

/-- A step keeps this, unless it closes a connection that has a receiver. -/
theorem Attended.step (h : s.Attended) (hstep : s.step a = some s')
    (hclose : ∀ c, a = .close c → ∀ r ∈ s.receivers, r.connection ≠ c) : s'.Attended := by
  intro r' hr'
  rcases step_receivers hstep hr' with ⟨r, hr, hsame⟩ | ⟨threadId, rfl⟩
  · rw [← hsame]
    rcases step_loopOf hstep r.connection with hloop | hloop | ⟨rfl, -⟩
    · rw [hloop]
      exact h r hr
    · exact hloop
    · exact absurd rfl (hclose _ rfl r hr)
  · exact ⟨.subscribing, step_subscribe hstep, Loop.noConfusion⟩

theorem Attended.next (h : s.Attended)
    (hclose : ∀ c, a = .close c → ∀ r ∈ s.receivers, r.connection ≠ c) : (s.next a).Attended := by
  unfold System.next
  cases hstep : s.step a with
  | none => exact h
  | some s' => exact h.step hstep hclose

/-- Where no task can go on, a connection that has ended and has no receiver is released. -/
theorem Quiet.released (hquiet : s.Quiet) (hended : s.Ended c)
    (hnone : ∀ r ∈ s.receivers, r.connection ≠ c) : s.Released c := by
  refine ⟨hnone, fun x hx ↦ ?_⟩
  obtain ⟨y, hy, hloop⟩ := ended_iff.mp hended
  rw [hx] at hy
  cases hy
  have hat : s.at? c .ended = some x := at?_eq_some.mpr ⟨hx, hloop⟩
  have hforwarders : s.forwarders c = [] := by
    rw [forwarders, List.filter_eq_nil_iff]
    intro r hr
    simp [hnone r hr]
  obtain ⟨l, outbound, permit⟩ := x
  cases outbound with
  | none =>
    have hfinish := hquiet (.finish c) rfl
    cases permit with
    | false => rfl
    | true => simp [System.step, hat] at hfinish
  | some frames =>
    cases frames with
    | nil =>
      have hstop := hquiet (.stop c) rfl
      simp [System.step, hat, hforwarders] at hstop
    | cons frame frames =>
      have hwrite := hquiet (.write c true) rfl
      simp [System.step, hx] at hwrite

/-- Where every connection that ends has no receiver at that moment, no publication counts one
that has ended, and each is released once no task can go on. -/
theorem closed_not_counted (permits : Nat) {acts : List (Act φ)}
    (hclose : ∀ t ∈ trace next (.start permits) acts, ∀ c, t.op = .close c →
      ∀ r ∈ t.before.receivers, r.connection ≠ c) :
    (∀ t ∈ trace next (.start permits) acts, ∀ threadId frame, t.op = .publish threadId frame →
      ∀ c ∈ t.before.reached threadId, ¬ t.before.Ended c) ∧
    ((run next (.start permits) acts).Quiet → ∀ c, (run next (.start permits) acts).Ended c →
      (run next (.start permits) acts).Released c) := by
  have hstart : (System.start permits : System φ).Attended :=
    fun r hr ↦ absurd hr List.not_mem_nil
  have hstep : ∀ t ∈ trace next (.start permits) acts, t.before.Attended → t.after.Attended := by
    intro t ht h
    rw [after_of_mem_trace ht]
    exact h.next (hclose t ht)
  constructor
  · intro t ht threadId frame _ c hc
    obtain ⟨r, hr, rfl⟩ := List.mem_map.mp hc
    exact (invariant_of_trace hstart hstep t ht).1.not_ended (List.mem_filter.mp hr).1
  · intro hquiet c hended
    exact hquiet.released hended fun r hr he ↦
      (invariant_of_run hstart hstep).not_ended hr (he ▸ hended)

/-- A connection subscribes to its inbox, is answered, and goes. -/
def subscribedRun : List (Act Unit) :=
  [.accept 0, .subscribe 0 "agent:a", .drain 0 true, .answer 0 (), .write 0 true, .close 0]

/-- Its forwarder waits on the bus, its writer for the forwarder. -/
theorem quiet_subscribedRun : (run next (.start 1) subscribedRun).Quiet := by
  have hconnections : ∀ c, (run next (.start 1) subscribedRun).connections c =
      if c = 0 then some ⟨.ended, some [], true⟩ else none := by
    intro c
    cases c with
    | zero => rfl
    | succ n => rfl
  have hreceivers : (run next (.start 1) subscribedRun).receivers =
      [⟨0, "agent:a", true, [], 0⟩] := rfl
  intro a ha
  cases a with
  | drain c ok =>
    by_cases hc : c = 0 <;> simp [step, at?, hconnections, hc]
  | answer c frame =>
    by_cases hc : c = 0 <;> simp [step, at?, hconnections, hc]
  | forward i =>
    cases i <;> simp [step, hreceivers, forward]
  | write c sent =>
    by_cases hc : c = 0 <;> simp [step, hconnections, hc]
  | stop c =>
    by_cases hc : c = 0
    · subst hc
      rfl
    · simp [step, at?, hconnections, hc]
  | finish c =>
    by_cases hc : c = 0 <;> simp [step, at?, hconnections, hc]
  | accept c | request c | subscribe c threadId | publish threadId frame | close c => cases ha

/-- The connection is counted by the next publication, and keeps its receiver and its permit. -/
theorem closed_not_counted_stranded :
    (∃ t ∈ trace next (.start 1) (subscribedRun ++ [.publish "agent:a" ()]),
      t.op = .publish "agent:a" () ∧ 0 ∈ t.before.reached "agent:a" ∧ t.before.Ended 0) ∧
    (run next (.start 1) subscribedRun).Quiet ∧
    (run next (.start 1) subscribedRun).Ended 0 ∧
    ¬ (run next (.start 1) subscribedRun).Released 0 := by
  refine ⟨?_, quiet_subscribedRun, rfl, ?_⟩
  · rw [trace_concat]
    exact ⟨_, List.mem_append_right _ List.mem_cons_self, rfl, List.mem_cons_self, rfl⟩
  · intro h
    exact absurd (h.2 _ rfl) Bool.noConfusion

/-- A connection asks once and goes. -/
def askedRun : List (Act Unit) :=
  [.accept 0, .request 0, .answer 0 (), .write 0 true, .close 0, .publish "agent:a" (), .stop 0,
    .finish 0]

/-- Nothing counts it, and it is released. -/
theorem closed_not_counted_asked :
    (∀ t ∈ trace next (.start 1) askedRun, ∀ threadId frame, t.op = .publish threadId frame →
      ∀ c ∈ t.before.reached threadId, ¬ t.before.Ended c) ∧
    ((run next (.start 1) askedRun).Quiet → ∀ c, (run next (.start 1) askedRun).Ended c →
      (run next (.start 1) askedRun).Released c) := by
  apply closed_not_counted
  have hnone : ∀ t ∈ trace next (.start 1) askedRun, t.before.receivers = [] := by decide
  intro t ht c _ r hr
  rw [hnone t ht] at hr
  exact absurd hr List.not_mem_nil

end System

end Claudebase.Bus
