import Claudebase.Pool.Lifecycle

/-!
# Clearing a worker's context

`src/daemon/pool.rs:600–728`. A clear marks its worker for as long as it may take, so that no
job lands on it meanwhile. The mark is one column that every clear of the worker shares, and
`end_clear` empties it: the mark protects a clear only while no other clear of that worker
ends.
-/

namespace Claudebase.Pool
open Claudebase.Base

/-! ### Marks -/

section Marks

variable {db db' : Db} {w : String}

theorem mark_expire (now : Int) (jobs : List Job) :
    (jobs.foldl (expireJob now) db).mark w = db.mark w := by
  induction jobs generalizing db with
  | nil => rfl
  | cons j jobs ih =>
    rw [List.foldl_cons, ih]
    exact Db.mark_updateMember fun _ ↦ rfl

theorem mark_grace (now : Int) (jobs : List Job) :
    (jobs.foldl (graceJob now) db).mark w = db.mark w := by
  induction jobs generalizing db with
  | nil => rfl
  | cons j jobs ih =>
    rw [List.foldl_cons, ih]
    unfold graceJob
    split
    · rfl
    · rfl
    · split
      · rfl
      · rfl
    · rfl

theorem mark_retain (jobs : List Job) : (jobs.foldl deleteJob db).mark w = db.mark w := by
  induction jobs generalizing db with
  | nil => rfl
  | cons j jobs ih =>
    rw [List.foldl_cons, ih]
    rfl

theorem mark_trustCooled (since : Int) : (trustCooled db since).mark w = db.mark w := by
  have hrow : (trustCooled db since).member? w = (db.member? w).map fun m ↦
      if isCooled since m then m.trusted else m :=
    Table.get?_update Member.agentId_trusted
  unfold Db.mark
  rw [hrow]
  cases db.member? w with
  | none => rfl
  | some m =>
    rw [Option.map_some, Option.bind_some, Option.bind_some]
    split
    · rfl
    · rfl

/-- A sweep keeps every mark. -/
theorem mark_sweep (now cooldown : Int) : (sweep db now cooldown).mark w = db.mark w := by
  unfold sweep
  rw [mark_retain, mark_grace, mark_trustCooled, mark_expire]

theorem mark_readJob (reqId : String) (now : Int) :
    (readJob db reqId now).2.mark w = db.mark w := by
  unfold readJob
  split
  · rfl
  · dsimp only
    split
    · exact Db.mark_updateJob
    · rfl

theorem mark_cancel (reqId : String) (now : Int) :
    (cancel db reqId now).2.mark w = db.mark w := by
  unfold cancel
  split
  · rfl
  · split
    · exact Db.mark_updateJob
    · rfl

theorem mark_writeLease (row : Job) (now : Int) : (writeLease db row now).mark w = db.mark w :=
  Db.mark_updateMember fun _ ↦ rfl

/-- A clear that begins marks its worker. -/
theorem mark_markCleared_self {now : Int} (h : (db.member? w).isSome) :
    (markCleared db w now).mark w = some (now + clearTimeoutMs + 5000) := by
  obtain ⟨m, hm⟩ := Option.isSome_iff_exists.mp h
  unfold Db.mark markCleared
  rw [Db.member?_updateMember_self, hm]
  rfl

theorem mark_markCleared_of_ne {now : Int} {workerId : String} (h : w ≠ workerId) :
    (markCleared db workerId now).mark w = db.mark w := by
  unfold Db.mark markCleared
  rw [Db.member?_updateMember_of_ne h]

/-- The end of a clear leaves the marks of the others. -/
theorem mark_endClear_of_ne {workerId : String} (h : w ≠ workerId) :
    (endClear db workerId).mark w = db.mark w := by
  unfold Db.mark endClear
  rw [Db.member?_updateMember_of_ne h]

end Marks

/-! ### Clears in progress -/

/-- A clear that is in progress: its end is not recorded, nor its time over. -/
def System.Clearing (s : System) (c : Clear) : Prop := c ∈ s.clears ∧ s.clock < c.deadline

/-- The end of a clear comes while no other clear of that worker is in progress. -/
def EndsAlone (t : Step System Op) : Prop :=
  ∀ seq, t.op = .endClear seq → ∀ c ∈ t.before.clears, c.seq = seq →
    ∀ c', t.before.Clearing c' → c'.seq ≠ seq → c'.worker ≠ c.worker

/-- Every clear in progress is marked for its time, and its worker has no job. -/
def Guarded (s : System) : Prop :=
  ∀ c, s.Clearing c →
    (∃ time, s.db.mark c.worker = some time ∧ c.deadline ≤ time) ∧ s.db.leasedTo c.worker = []

/-- Calls that neither begin nor end a clear keep every mark. -/
theorem mark_next (s : System) (op : Op) (w : String)
    (hbegin : ∀ pool workerId seen now, op ≠ .beginClear pool workerId seen now)
    (hend : ∀ seq, op ≠ .endClear seq) : (next s op).db.mark w = s.db.mark w := by
  show (dbAfter s op).mark w = s.db.mark w
  cases op with
  | registry rows => rfl
  | join agentId pool capacity now =>
    rcases transact_cases s.db (join s.db agentId pool capacity now) with hsame | ⟨u, hok⟩
    · exact congrArg (Db.mark · w) hsame
    · exact (join_eq_ok hok).2 w
  | ready agentId =>
    rcases transact_cases s.db (workerReady s.db agentId) with hsame | ⟨u, hok⟩
    · exact congrArg (Db.mark · w) hsame
    · exact (congrArg (Db.mark · w) (workerReady_eq_ok hok)).trans Db.mark_trust
  | dispatch host pool body clock busyClock now =>
    rcases transact_cases s.db (dispatch host s.db pool body clock busyClock now) with
      hsame | ⟨d, hok⟩
    · exact congrArg (Db.mark · w) hsame
    · rcases dispatch_eq_ok hok with ⟨hsame, -⟩ | ⟨row, hrow, -⟩
      · exact congrArg (Db.mark · w) hsame
      · exact (congrArg (Db.mark · w) hrow.db_eq).trans (mark_writeLease row now)
  | read reqId now => exact mark_readJob reqId now
  | cancel reqId now => exact mark_cancel reqId now
  | reply agentId reqId result now =>
    rcases transact_cases s.db (workerReply s.db agentId reqId result now) with
      hsame | ⟨r, hok⟩
    · exact congrArg (Db.mark · w) hsame
    · obtain ⟨-, -, -, -, -, hmark⟩ := workerReply_eq_ok hok
      exact hmark w
  | fail agentId reqId reason now =>
    rcases transact_cases s.db (workerFail s.db agentId reqId reason now) with
      hsame | ⟨r, hok⟩
    · exact congrArg (Db.mark · w) hsame
    · obtain ⟨-, -, -, -, -, hmark⟩ := workerFail_eq_ok hok
      exact hmark w
  | sweep now cooldown => exact mark_sweep now cooldown
  | beginClear pool workerId seen now => exact absurd rfl (hbegin pool workerId seen now)
  | endClear seq => exact absurd rfl (hend seq)

/-- A call's clock does not go back. -/
theorem clock_le_next {s : System} {op : Op} (h : op.Timed s.clock) :
    s.clock ≤ (next s op).clock := by
  cases op with
  | registry rows => exact le_rfl
  | ready agentId => exact le_rfl
  | endClear seq => exact le_rfl
  | dispatch host pool body clock busyClock now => exact h.1
  | beginClear pool workerId seen now => exact h.1.trans h.2
  | join agentId pool capacity now => exact h
  | read reqId now => exact h
  | cancel reqId now => exact h
  | reply agentId reqId result now => exact h
  | fail agentId reqId reason now => exact h
  | sweep now cooldown => exact h

/-- A session that may take a job is not marked. -/
theorem MayTake.mark_le {db : Db} {pool w : String} {now time : Int} (h : MayTake db pool now w)
    (hmark : db.mark w = some time) : time ≤ now := by
  obtain ⟨m, hm, -, -, hclear⟩ := h.member
  unfold Db.mark at hmark
  rw [hm, Option.bind_some] at hmark
  exact hclear time hmark

/-- A session without a job gets none while it is marked, nor but by a dispatch. -/
theorem leasedTo_next {s : System} {op : Op} {w : String} (htimed : op.Timed s.clock)
    (hidle : s.db.leasedTo w = [])
    (hmark : (∃ time, s.db.mark w = some time ∧ (next s op).clock < time) ∨
      ∀ host pool body clock busyClock now, op ≠ .dispatch host pool body clock busyClock now) :
    (next s op).db.leasedTo w = [] := by
  have hbefore := Db.leasedTo_eq_nil_iff.mp hidle
  rw [Db.leasedTo_eq_nil_iff]
  intro j hj hw hs
  have hfind : (next s op).db.job? j.reqId = some j := Db.job?_eq_some_iff.mpr ⟨hj, rfl⟩
  have hstep := jobStep s op j.reqId
  rw [hfind] at hstep
  rcases hstep.leased_after hs with ⟨j₀, hj₀, hs₀, hw₀, -⟩ | ⟨⟨_, _, _, _, _, now, hop⟩, -⟩
  · exact hbefore j₀ (Db.job?_eq_some_iff.mp hj₀).1 (hw₀.trans hw) hs₀
  · subst hop
    rcases hmark with ⟨time, hmark, hlt⟩ | hno
    · have hnew : s.db.job? j.reqId ≠ some j := by
        intro hold
        exact hbefore j (Db.job?_eq_some_iff.mp hold).1 hw hs
      rcases transact_cases s.db (dispatch _ s.db _ _ _ _ now) with hsame | ⟨d, hok⟩
      · exact hnew ((congrArg (Db.job? · j.reqId) hsame).symm.trans hfind)
      · have hclock := fun w ↦ (htimed.2.1 w).2
        obtain ⟨-, -, hmay, -⟩ := dispatch_job hok hclock hfind hnew
        rw [hw] at hmay
        have hle := hmay.mark_le hmark
        have hnow : now < time := hlt
        omega
    · exact hno _ _ _ _ _ _ rfl

/-- Calls that neither begin nor end a clear keep the clears guarded. -/
theorem guarded_next_of_mark {s : System} {op : Op} (htimed : op.Timed s.clock)
    (hguard : Guarded s) {c : Clear} (hc : c ∈ s.clears)
    (hlt : (next s op).clock < c.deadline)
    (hmark : (next s op).db.mark c.worker = s.db.mark c.worker) :
    (∃ time, (next s op).db.mark c.worker = some time ∧ c.deadline ≤ time) ∧
      (next s op).db.leasedTo c.worker = [] := by
  have hclock := clock_le_next htimed
  obtain ⟨⟨time, htime, hle⟩, hidle⟩ := hguard c ⟨hc, by omega⟩
  refine ⟨⟨time, hmark.trans htime, hle⟩, ?_⟩
  exact leasedTo_next htimed hidle (Or.inl ⟨time, htime, by omega⟩)

/-- A clear that begins is guarded, and keeps the others guarded: none of its worker is in
progress, since a marked worker is refused. -/
theorem guarded_beginClear {s : System} {pool workerId : String} {seen now : Int} {c : Clear}
    (htimed : (Op.beginClear pool workerId seen now).Timed s.clock) (hguard : Guarded s)
    (hc : c ∈ (next s (.beginClear pool workerId seen now)).clears) (hlt : now < c.deadline) :
    (∃ time, (next s (.beginClear pool workerId seen now)).db.mark c.worker = some time ∧
      c.deadline ≤ time) ∧
      (next s (.beginClear pool workerId seen now)).db.leasedTo c.worker = [] := by
  have hmem : c ∈ clearsAfter s (.beginClear pool workerId seen now) := hc
  have hdb : (next s (.beginClear pool workerId seen now)).db =
    (transact s.db (beginClear s.db pool workerId seen now)).2 := rfl
  unfold clearsAfter at hmem
  dsimp only at hmem
  cases hb : beginClear s.db pool workerId seen now with
  | error e =>
    rw [hb] at hmem hdb
    exact guarded_next_of_mark htimed hguard hmem hlt (congrArg (Db.mark · c.worker) hdb)
  | ok r =>
    obtain ⟨r, db'⟩ := r
    rw [hb] at hmem hdb
    have hdb' : (next s (.beginClear pool workerId seen now)).db = db' := hdb
    rcases beginClear_eq_ok hb with ⟨hno, hsame⟩ | ⟨rfl, hsome, hidle, hold, hmarked⟩
    · have hmem' : c ∈ s.clears := by
        cases r with
        | begin => exact absurd rfl hno
        | busy state reqIds => exact hmem
        | unavailable state => exact hmem
        | noSuchPool => exact hmem
      refine guarded_next_of_mark htimed hguard hmem' hlt ?_
      rw [hdb', hsame]
    · rw [hmarked] at hdb'
      rcases List.mem_append.mp hmem with hin | hnew
      · refine guarded_next_of_mark htimed hguard hin hlt ?_
        rw [hdb']
        apply mark_markCleared_of_ne
        rintro rfl
        have hclock := htimed.1.trans htimed.2
        obtain ⟨⟨time, htime, hle⟩, -⟩ := hguard c ⟨hin, by omega⟩
        have hover := hold time htime
        have hseen := htimed.2
        omega
      · cases List.mem_singleton.mp hnew
        rw [hdb']
        exact ⟨⟨_, mark_markCleared_self hsome, le_rfl⟩, hidle⟩

/-- A step keeps the clears guarded when an end it records comes alone. -/
theorem guarded_next {s : System} {op : Op} (htimed : op.Timed s.clock) (hguard : Guarded s)
    (hends : EndsAlone ⟨s, op, next s op⟩) : Guarded (next s op) := by
  intro c hc
  obtain ⟨hmem, hlt⟩ := hc
  cases op with
  | beginClear pool workerId seen now => exact guarded_beginClear htimed hguard hmem hlt
  | endClear seq =>
    have hkept : c ∈ s.clears ∧ c.seq ≠ seq := by
      have hfilter : c ∈ s.clears.filter fun c ↦ c.seq != seq := hmem
      simpa using hfilter
    refine guarded_next_of_mark htimed hguard hkept.1 hlt ?_
    show (dbAfter s (.endClear seq)).mark c.worker = _
    unfold dbAfter
    dsimp only
    split
    · next c₀ hc₀ =>
      apply mark_endClear_of_ne
      have hseq : c₀.seq = seq := by simpa using List.find?_some hc₀
      exact hends seq rfl c₀ (List.mem_of_find?_eq_some hc₀) hseq c ⟨hkept.1, hlt⟩ hkept.2
    · rfl
  | _ =>
    exact guarded_next_of_mark htimed hguard hmem hlt (mark_next s _ c.worker nofun nofun)

/-- Along every run that starts without a clear, whose clocks do not go back and whose ends of
clears come alone, no job is leased to a worker while a clear of it is in progress. -/
theorem clear_excludes_leases (s : System) (ops : List Op) (hs : s.clears = [])
    (htimed : Timed s ops) (hends : ∀ t ∈ trace next s ops, EndsAlone t) :
    ∀ t ∈ trace next s ops, ∀ c, t.after.Clearing c → t.after.db.leasedTo c.worker = [] := by
  have hstart : Guarded s := by
    intro c hc
    rw [System.Clearing, hs] at hc
    cases hc.1
  have hall := invariant_of_trace hstart fun t ht hbefore ↦ by
    have hafter := after_of_mem_trace ht
    have hends' := hends t ht
    have htimed' := htimed t ht
    cases t with
    | mk before op after =>
      dsimp only at hafter
      subst hafter
      exact guarded_next htimed' hbefore hends'
  intro t ht c hc
  exact ((hall t ht).2 c hc).2

/-- The end of a clear that timed out lifts the mark of the next one, and a job is leased to the
worker that is being cleared. -/
def lateEndRun : List Op :=
  [.registry oneSession, .join "w1" "p" 1 0, .beginClear "p" "w1" 0 0,
    .beginClear "p" "w1" 65001 65001, .endClear 2,
    .dispatch Host.blank "p" (requestOf "r1" "w1") (fun _ ↦ 65002) (fun _ ↦ 65002) 65002]

theorem clear_excludes_leases_late_end :
    ¬ ∀ ops, Timed .empty ops → ∀ t ∈ trace next .empty ops, ∀ c, t.after.Clearing c →
      t.after.db.leasedTo c.worker = [] := by
  intro hclaim
  have htimed : Timed .empty lateEndRun := by
    simp [Timed, lateEndRun, trace, next, Op.Timed, Op.time?, System.empty]
  have hlast : ⟨run next .empty (lateEndRun.take 5),
      .dispatch Host.blank "p" (requestOf "r1" "w1") (fun _ ↦ 65002) (fun _ ↦ 65002) 65002,
      run next .empty lateEndRun⟩ ∈ trace next .empty lateEndRun :=
    List.mem_of_getElem? (i := 5) rfl
  have hclearing : (run next .empty lateEndRun).Clearing ⟨3, "w1", 130001⟩ := by
    refine ⟨?_, ?_⟩
    · decide
    · decide
  have hleased : (run next .empty lateEndRun).db.leasedTo "w1" = ["r1"] := by decide
  have hnone := hclaim lateEndRun htimed _ hlast _ hclearing
  rw [hleased] at hnone
  cases hnone

/-- A clear that ends in time, a job after it, and the next clear. -/
def clearedRun : List Op :=
  [.registry oneSession, .join "w1" "p" 1 0, .beginClear "p" "w1" 0 0, .endClear 2,
    .dispatch Host.blank "p" (requestOf "r1" "w1") (fun _ ↦ 5) (fun _ ↦ 5) 5,
    .reply "w1" "r1" "\"ok\"" 6, .beginClear "p" "w1" 7 7]

theorem endsAlone_clearedRun : ∀ t ∈ trace next .empty clearedRun, EndsAlone t := by
  intro t ht seq hop c hc hseq c' hc' hne
  simp only [clearedRun, trace, List.mem_cons, List.not_mem_nil, or_false] at ht
  rcases ht with rfl | rfl | rfl | rfl | rfl | rfl | rfl
  case inr.inr.inr.inl =>
    cases hop
    have honly : c' ∈ [⟨2, "w1", 65000⟩] := hc'.1
    rw [List.mem_singleton.mp honly] at hne
    exact absurd rfl hne
  all_goals cases hop

theorem clear_excludes_leases_cleared :
    (run next .empty clearedRun).Clearing ⟨6, "w1", 65007⟩ ∧
      (run next .empty clearedRun).db.leasedTo "w1" = [] := by
  have htimed : Timed .empty clearedRun := by
    simp [Timed, clearedRun, trace, next, Op.Timed, Op.time?, System.empty]
  have hlast : ⟨run next .empty (clearedRun.take 6), .beginClear "p" "w1" 7 7,
      run next .empty clearedRun⟩ ∈ trace next .empty clearedRun :=
    List.mem_of_getElem? (i := 6) rfl
  have hclearing : (run next .empty clearedRun).Clearing ⟨6, "w1", 65007⟩ := by
    refine ⟨?_, ?_⟩
    · decide
    · decide
  exact ⟨hclearing,
    clear_excludes_leases .empty clearedRun rfl htimed endsAlone_clearedRun _ hlast _ hclearing⟩

end Claudebase.Pool
