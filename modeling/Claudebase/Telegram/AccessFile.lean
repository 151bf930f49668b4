import Claudebase.Telegram.Batch
import Claudebase.Telegram.Commands

/-!
# The access file between the daemon and the commands

`src/daemon/telegram.rs:1754–1768,2191–2238`, `src/access_cli.rs:32–226`,
`src/daemon/channel_state.rs:180–235`. The daemon reads the file at the start of a poll cycle
and, when the cycle issued a code or dropped an expired one, writes its copy back; a command
reads and writes on its own. A write replaces the whole file. What was written between the
read and the write is lost, and so is everything when the read failed.
-/

namespace Claudebase.Telegram
open Claudebase.Base

/-! ### A batch leaves the rights -/

/-- The gate only issues codes. -/
theorem rights_gateDm (access : Access) (senderId chatId : String) (now : Int)
    (newCode : Option String) : (gateDm access senderId chatId now newCode).2.rights = access.rights := by
  unfold gateDm
  split
  · rfl
  · split
    · rfl
    · split
      · rfl
      · split
        · split
          · rfl
          · rfl
        · split
          · rfl
          · split
            · rfl
            · rfl

namespace Batch

/-- A tap never touches the access state. -/
theorem access_processCallback (b : Batch) (env : Env) (cb : CallbackQuery) :
    (b.processCallback env cb).access = b.access ∧
      (b.processCallback env cb).accessDirty = b.accessDirty := by
  have hask : ∀ askId suffix, ((b.acknowledge cb).tapAsk env cb askId suffix).access = b.access ∧
      ((b.acknowledge cb).tapAsk env cb askId suffix).accessDirty = b.accessDirty := by
    intro askId suffix
    unfold tapAsk
    split
    · exact ⟨rfl, rfl⟩
    · split
      · exact ⟨rfl, rfl⟩
      · dsimp only
        split
        · exact ⟨rfl, rfl⟩
        · split
          · exact ⟨rfl, rfl⟩
          · exact ⟨rfl, rfl⟩
  have hstart : ∀ ref suffix, ((b.acknowledge cb).tapStart env cb ref suffix).access = b.access ∧
      ((b.acknowledge cb).tapStart env cb ref suffix).accessDirty = b.accessDirty := by
    intro ref suffix
    unfold tapStart
    split
    · exact ⟨rfl, rfl⟩
    · dsimp only
      split
      · exact ⟨rfl, rfl⟩
      · exact ⟨rfl, rfl⟩
    · exact ⟨rfl, rfl⟩
  unfold processCallback
  split
  · exact ⟨rfl, rfl⟩
  · dsimp only
    split
    · exact ⟨rfl, rfl⟩
    · split
      · cases hmsg : cb.message with
        | none => exact ⟨rfl, rfl⟩
        | some ref => exact hstart ref _
      · cases hmsg : cb.message with
        | none => exact ⟨rfl, rfl⟩
        | some ref => exact ⟨rfl, rfl⟩
      · split
        · exact ⟨rfl, rfl⟩
        · exact hask _ _

/-- A message let in does not touch the access state. -/
theorem access_deliver (b : Batch) (uuids : Uuids) (env : Env) (m : Message) (content : String) :
    (b.deliver uuids env m content).access = b.access ∧
      (b.deliver uuids env m content).accessDirty = b.accessDirty := by
  unfold deliver
  extract_lets stored b'
  split
  · next cmd _ =>
    cases cmd with
    | start => exact ⟨rfl, rfl⟩
    | whoami => exact ⟨rfl, rfl⟩
    | agents => exact ⟨rfl, rfl⟩
    | switch name => exact ⟨rfl, rfl⟩
  · exact ⟨rfl, rfl⟩

/-- A message changes the access state as the gate does, and only to issue a code. -/
theorem access_processMessage (b : Batch) (uuids : Uuids) (env : Env) (m : Message) :
    (b.processMessage uuids env m).access =
        (match (gateDm b.access (toString m.userId) (toString m.chatId) env.now
          (env.pairingCode b.seen)).1 with
        | .pair _ _ => (gateDm b.access (toString m.userId) (toString m.chatId) env.now
            (env.pairingCode b.seen)).2
        | _ => b.access) := by
  unfold processMessage
  dsimp only
  split
  · next hgate => rw [hgate]
  · next code isResend hgate => rw [hgate]
  · next hgate =>
    rw [hgate]
    dsimp only
    split
    · exact (access_deliver b uuids env m _).1
    · exact (access_deliver b uuids env m _).1
    · rfl

variable (uuids : Uuids) (env : Env)

/-- No update changes the rights. -/
theorem rights_processUpdate (b : Batch) (u : Update) :
    (processUpdate uuids env b u).access.rights = b.access.rights := by
  unfold processUpdate
  dsimp only
  split
  · exact congrArg Access.rights (access_processCallback b env _).1
  · next m _ _ =>
    rw [access_processMessage]
    split
    · exact rights_gateDm _ _ _ _ _
    · rfl
  · rfl

/-- No batch changes the rights. -/
theorem rights_process (db : Db) (access : Access) (batch : List Update) :
    (process uuids env db access batch).access.rights = access.rights := by
  unfold process
  split
  · rfl
  · have hoffset : ∀ b : Batch, b.advanceOffset.access = b.access := by
      intro b
      unfold advanceOffset
      split
      · rfl
      · rfl
    rw [hoffset]
    exact rel_run (R := fun b b' : Batch ↦ b'.access.rights = b.access.rights) (fun _ ↦ rfl)
      (fun _ _ _ h h' ↦ h'.trans h) (rights_processUpdate uuids env)
      (.start db (pruneExpired access env.now).2 (pruneExpired access env.now).1) batch

end Batch

/-! ### Copies and writes -/

/-- A copy of the file in memory: how many commands had completed when it was read, and
whether reading it worked. The daemon goes on with the defaults when it did not. -/
structure Copy where
  access : Access
  since : Nat
  loaded : Bool

/-- A changed copy to be written, with the effect of the command it is for. -/
structure Write extends Copy where
  effect : Option Effect

/-- The rights a write is to leave. -/
def Write.target (w : Write) (rights : Rights) : Rights :=
  w.effect.elim rights fun effect ↦ effect.apply rights

/-- The write of a cycle whose batch changed the pairing state. -/
def Copy.gated (c : Copy) (uuids : Uuids) (env : Env) (db : Db) (batch : List Update) :
    List Write :=
  let done := Batch.process uuids env db c.access batch
  if done.accessDirty then [⟨{ c with access := done.access }, none⟩] else []

/-- The file, the daemon's copy of it, the writes under way, and the effects of the commands
completed so far. -/
structure AccessFile where
  file : Access
  cycle : Option Copy
  writes : List Write
  completed : List Effect

namespace AccessFile

/-- A file nobody has read yet. -/
def start (access : Access) : AccessFile := ⟨access, none, [], []⟩

/-- The daemon reads the file, gates a batch or gives its cycle up; a command reads the file
and decides; a write is made or lost. -/
inductive Op where
  | poll (readable : Bool)
  | gate (env : Env) (db : Db) (batch : List Update)
  | giveUp
  | command (cmd : Command) (now : Int)
  | save (i : Nat)
  | lose (i : Nat)

variable (unicode : Unicode) (uuids : Uuids)

/-- What a command does with the file it has read: nothing, or a write. -/
def writesOf (s : AccessFile) (cmd : Command) (now : Int) : List Write :=
  match cmd.execute unicode now s.file with
  | .ok (_, some access) => [⟨⟨access, s.completed.length, true⟩, cmd.effect? unicode now s.file⟩]
  | _ => []

/-- One step. -/
def next (s : AccessFile) : Op → AccessFile
  | .poll readable =>
    { s with
      cycle := some ⟨if readable then s.file else .default, s.completed.length, readable⟩ }
  | .gate env db batch =>
    match s.cycle with
    | none => s
    | some c => { s with cycle := none, writes := s.writes ++ c.gated uuids env db batch }
  | .giveUp => { s with cycle := none }
  | .command cmd now => { s with writes := s.writes ++ s.writesOf unicode cmd now }
  | .save i =>
    match s.writes[i]? with
    | none => s
    | some w =>
      { s with
        file := w.access
        writes := s.writes.eraseIdx i
        completed := s.completed ++ w.effect.toList }
  | .lose i => { s with writes := s.writes.eraseIdx i }

/-! ### Effects kept -/

/-- The rights after some effects. -/
def replay (rights : Rights) (effects : List Effect) : Rights := effects.foldl Effect.apply rights

/-- What the completed commands did is there: a sender granted access and not revoked since, no
sender revoked and not granted since, the policy set last; and nothing else has changed. -/
structure Kept (access : Access) (s : AccessFile) : Prop where
  granted : ∀ before senderId after, s.completed = before ++ .grant senderId :: after →
    .revoke senderId ∉ after → senderId ∈ s.file.allowFrom
  revoked : ∀ before senderId after, s.completed = before ++ .revoke senderId :: after →
    .grant senderId ∉ after → senderId ∉ s.file.allowFrom
  policy : ∀ before p after, s.completed = before ++ .policy p :: after →
    (∀ q, .policy q ∉ after) → s.file.dmPolicy = p
  rights : s.file.rights = replay access.rights s.completed

/-- A write of a copy that could not be read, or since whose reading a command has
completed. -/
def Stale (t : Step AccessFile Op) : Prop :=
  ∃ i, t.op = .save i ∧ ∃ w, t.before.writes[i]? = some w ∧
    (w.loaded = false ∨ w.since ≠ t.before.completed.length)

/-- A grant lasts until it is revoked. -/
theorem mem_replay {rights : Rights} {senderId : String} {effects : List Effect}
    (h : senderId ∈ rights.allowed) (hkeep : .revoke senderId ∉ effects) :
    senderId ∈ (replay rights effects).allowed := by
  induction effects generalizing rights with
  | nil => exact h
  | cons e effects ih =>
    rw [List.mem_cons, not_or] at hkeep
    apply ih _ hkeep.2
    cases e with
    | grant id =>
      by_cases hlisted : id ∈ rights.allowed
      · rwa [Effect.apply_grant_of_mem hlisted]
      · rw [Effect.apply_grant_of_not_mem hlisted]
        exact List.mem_append_left _ h
    | revoke id =>
      have hne : senderId ≠ id := fun heq ↦ hkeep.1 (heq ▸ rfl)
      exact List.mem_filter.mpr ⟨h, by simpa using hne⟩
    | policy p => exact h

/-- A revocation lasts until the next grant. -/
theorem not_mem_replay {rights : Rights} {senderId : String} {effects : List Effect}
    (h : senderId ∉ rights.allowed) (hkeep : .grant senderId ∉ effects) :
    senderId ∉ (replay rights effects).allowed := by
  induction effects generalizing rights with
  | nil => exact h
  | cons e effects ih =>
    rw [List.mem_cons, not_or] at hkeep
    apply ih _ hkeep.2
    cases e with
    | grant id =>
      have hne : senderId ≠ id := fun heq ↦ hkeep.1 (heq ▸ rfl)
      by_cases hlisted : id ∈ rights.allowed
      · rwa [Effect.apply_grant_of_mem hlisted]
      · rw [Effect.apply_grant_of_not_mem hlisted, List.mem_append, List.mem_singleton, not_or]
        exact ⟨h, hne⟩
    | revoke id => exact fun hmem ↦ h (List.mem_filter.mp hmem).1
    | policy p => exact h

/-- A policy lasts until the next one. -/
theorem policy_replay {rights : Rights} {effects : List Effect}
    (hkeep : ∀ q, .policy q ∉ effects) : (replay rights effects).policy = rights.policy := by
  induction effects generalizing rights with
  | nil => rfl
  | cons e effects ih =>
    have hrest : ∀ q, .policy q ∉ effects := fun q hq ↦ hkeep q (List.mem_cons_of_mem _ hq)
    have happly : (e.apply rights).policy = rights.policy := by
      cases e with
      | grant id =>
        by_cases hlisted : id ∈ rights.allowed
        · rw [Effect.apply_grant_of_mem hlisted]
        · rw [Effect.apply_grant_of_not_mem hlisted]
      | revoke id => rfl
      | policy p => exact absurd List.mem_cons_self (hkeep p)
    exact (ih hrest).trans happly

/-- A file that holds the replayed rights keeps every effect. -/
theorem kept_of_rights {access : Access} {s : AccessFile}
    (h : s.file.rights = replay access.rights s.completed) : s.Kept access := by
  have hsplit : ∀ before e after, s.completed = before ++ e :: after →
      s.file.rights = replay (e.apply (replay access.rights before)) after := by
    intro before e after heq
    rw [h, heq]
    unfold replay
    rw [List.foldl_append, List.foldl_cons]
  constructor
  · intro before senderId after heq hkeep
    have hmem : senderId ∈ ((Effect.grant senderId).apply (replay access.rights before)).allowed := by
      by_cases hlisted : senderId ∈ (replay access.rights before).allowed
      · rwa [Effect.apply_grant_of_mem hlisted]
      · rw [Effect.apply_grant_of_not_mem hlisted]
        exact List.mem_append_right _ List.mem_cons_self
    have hfinal := mem_replay hmem hkeep
    rwa [← hsplit _ _ _ heq] at hfinal
  · intro before senderId after heq hkeep
    have hnot : senderId ∉
        ((Effect.revoke senderId).apply (replay access.rights before)).allowed :=
      fun hmem ↦ by simpa using (List.mem_filter.mp hmem).2
    have hfinal := not_mem_replay hnot hkeep
    rwa [← hsplit _ _ _ heq] at hfinal
  · intro before p after heq hkeep
    have hfinal : (replay ((Effect.policy p).apply (replay access.rights before)) after).policy = p :=
      policy_replay hkeep
    rwa [← hsplit _ _ _ heq] at hfinal
  · exact h

/-! ### Runs -/

/-- The file holds the effects of all completed commands, and so does every copy that is up to
date; one to be written adds the effect it is for. -/
structure Current (access : Access) (s : AccessFile) : Prop where
  rights : s.file.rights = replay access.rights s.completed
  cycle : ∀ c ∈ s.cycle, c.since ≤ s.completed.length ∧
    (c.loaded = true → c.since = s.completed.length → c.access.rights = s.file.rights)
  writes : ∀ w ∈ s.writes, w.since ≤ s.completed.length ∧
    (w.loaded = true → w.since = s.completed.length → w.access.rights = w.target s.file.rights)

theorem current_start (access : Access) : (start access).Current access := by
  constructor
  · rfl
  · exact fun c hc ↦ nomatch hc
  · exact fun w hw ↦ absurd hw List.not_mem_nil

variable {unicode : Unicode} {uuids : Uuids} {access : Access}

theorem Current.command {s : AccessFile} (h : s.Current access) (cmd : Command) (now : Int) :
    (s.next unicode uuids (.command cmd now)).Current access := by
  refine ⟨h.rights, h.cycle, fun w hw ↦ ?_⟩
  rcases List.mem_append.mp hw with hw | hw
  · exact h.writes w hw
  · unfold writesOf at hw
    split at hw
    · next reply access' hdone =>
      obtain rfl := List.mem_singleton.mp hw
      obtain ⟨effect, heffect, hrights⟩ := Command.rights_execute hdone
      refine ⟨le_refl _, fun _ _ ↦ ?_⟩
      unfold Write.target
      rw [heffect]
      exact hrights
    · cases hw

theorem Current.gate {s : AccessFile} (h : s.Current access) (env : Env) (db : Db)
    (batch : List Update) : (s.next unicode uuids (.gate env db batch)).Current access := by
  unfold next
  dsimp only
  split
  · exact h
  · next c hc =>
    refine ⟨h.rights, fun c' hc' ↦ (nomatch hc'), fun w hw ↦ ?_⟩
    rcases List.mem_append.mp hw with hw | hw
    · exact h.writes w hw
    · unfold Copy.gated at hw
      dsimp only at hw
      split at hw
      · obtain rfl := List.mem_singleton.mp hw
        obtain ⟨hsince, hcopy⟩ := h.cycle c hc
        refine ⟨hsince, fun hloaded hlast ↦ ?_⟩
        exact (Batch.rights_process uuids env db c.access batch).trans (hcopy hloaded hlast)
      · cases hw

/-- A write that is not stale. -/
theorem Current.save {s : AccessFile} (h : s.Current access) (i : Nat)
    (hstale : ¬ Stale ⟨s, .save i, s.next unicode uuids (.save i)⟩) :
    (s.next unicode uuids (.save i)).Current access := by
  unfold next at hstale ⊢
  dsimp only at hstale ⊢
  split
  · exact h
  · next w hw =>
    have hmem : w ∈ s.writes := List.mem_of_getElem? hw
    obtain ⟨-, htarget⟩ := h.writes w hmem
    have hloaded : w.loaded = true := by
      by_contra hnot
      exact hstale ⟨i, rfl, w, hw, Or.inl (Bool.eq_false_of_not_eq_true hnot)⟩
    have hlast : w.since = s.completed.length := by
      by_contra hnot
      exact hstale ⟨i, rfl, w, hw, Or.inr hnot⟩
    have hrights : w.access.rights = w.target s.file.rights := htarget hloaded hlast
    have hsub : ∀ w' ∈ s.writes.eraseIdx i, w' ∈ s.writes := fun _ h ↦ List.mem_of_mem_eraseIdx h
    cases heffect : w.effect with
    | none =>
      -- the daemon's write leaves the rights as they are
      have hsame : w.access.rights = s.file.rights := by
        rw [hrights]
        simp [Write.target, heffect]
      constructor
      · simpa [hsame] using h.rights
      · simpa [hsame] using h.cycle
      · simpa [hsame] using fun w' hw' ↦ h.writes w' (hsub w' hw')
    | some effect =>
      -- every other copy was read before this command completed
      have hlength : (s.completed ++ [effect]).length = s.completed.length + 1 := by simp
      have hnew : w.access.rights = effect.apply s.file.rights := by
        rw [hrights]
        simp [Write.target, heffect]
      constructor
      · dsimp only
        rw [hnew, h.rights]
        simp [replay]
      · intro c hc
        have hsince := (h.cycle c hc).1
        dsimp only [Option.toList]
        rw [hlength]
        exact ⟨by omega, fun _ hlast' ↦ absurd hlast' (by omega)⟩
      · intro w' hw'
        have hsince := (h.writes w' (hsub w' hw')).1
        dsimp only [Option.toList]
        rw [hlength]
        exact ⟨by omega, fun _ hlast' ↦ absurd hlast' (by omega)⟩

/-- Every step but a stale write keeps the file current. -/
theorem current_next {s : AccessFile} (h : s.Current access) (op : Op)
    (hstale : ¬ Stale ⟨s, op, s.next unicode uuids op⟩) :
    (s.next unicode uuids op).Current access := by
  cases op with
  | poll readable =>
    refine ⟨h.rights, fun c hc ↦ ?_, h.writes⟩
    obtain rfl := Option.some.inj hc
    refine ⟨le_refl _, fun hloaded _ ↦ ?_⟩
    have hloaded : readable = true := hloaded
    rw [hloaded]
    rfl
  | gate env db batch => exact h.gate env db batch
  | giveUp => exact ⟨h.rights, fun c hc ↦ (nomatch hc), h.writes⟩
  | command cmd now => exact h.command cmd now
  | save i => exact h.save i hstale
  | lose i => exact ⟨h.rights, h.cycle, fun w hw ↦ h.writes w (List.mem_of_mem_eraseIdx hw)⟩

end AccessFile

open AccessFile in
/-- No completed command's effect is lost, in every run without a stale write. -/
theorem access_changes_kept (unicode : Unicode) (uuids : Uuids) (access : Access)
    (ops : List AccessFile.Op)
    (hstale : ∀ t ∈ trace (AccessFile.next unicode uuids) (.start access) ops, ¬ Stale t) :
    ∀ t ∈ trace (AccessFile.next unicode uuids) (.start access) ops, t.after.Kept access := by
  intro t ht
  have hcurrent : t.after.Current access := by
    refine (invariant_of_trace (I := Current access) (current_start access) ?_ t ht).2
    intro t ht hbefore
    have hs := hstale t ht
    rw [after_of_mem_trace ht]
    apply current_next hbefore t.op
    rwa [← after_of_mem_trace ht]
  exact kept_of_rights hcurrent.rights

namespace AccessFile

/-- A machine that draws one pairing code. -/
def drawEnv : Env where
  host := ⟨"host", fun _ ↦ true⟩
  now := 0
  clock _ := 0
  seed _ := 0
  pairingCode _ := some "abc123"
  isoSeconds _ := ""
  isoMillis _ := ""

/-- A file with one sender allowed. -/
def pairingAccess : Access := ⟨.pairing, ["7"], .empty⟩

/-- A stranger writes to the bot. -/
def strangerUpdate : Update :=
  ⟨1, some ⟨10, some ⟨8, none⟩, 8, 0, some "hi", none, none⟩, none, Or.inr rfl⟩

/-- A revocation completes, then a cycle that read the file after it saves a new code. -/
def revokedRun : List Op :=
  [.command (.revoke "7") 0, .save 0, .poll true, .gate drawEnv .empty [strangerUpdate], .save 0]

end AccessFile

open AccessFile in
/-- The revoked sender stays off the list. -/
theorem access_changes_kept_revoked :
    (∀ t ∈ trace (AccessFile.next .ascii .longer) (.start pairingAccess) revokedRun,
      t.after.Kept pairingAccess) ∧
    (run (AccessFile.next .ascii .longer) (.start pairingAccess) revokedRun).file.allowFrom = [] := by
  refine ⟨access_changes_kept .ascii .longer pairingAccess revokedRun ?_, by decide⟩
  have hfresh : ∀ t ∈ trace (AccessFile.next .ascii .longer) (.start pairingAccess) revokedRun,
      (match t.op with | .save _ => true | _ => false) = true →
        ∀ w ∈ t.before.writes, w.loaded = true ∧ w.since = t.before.completed.length := by
    decide
  rintro t ht ⟨i, hop, w, hw, hold⟩
  obtain ⟨hloaded, hsince⟩ := hfresh t ht (by rw [hop]) w (List.mem_of_getElem? hw)
  rcases hold with hnot | hnot
  · rw [hloaded] at hnot
    cases hnot
  · exact hnot hsince

open AccessFile in
/-- A cycle that read the file before the revocation brings the sender back. -/
theorem access_changes_kept_regranted :
    let s := run (AccessFile.next .ascii .longer) (.start pairingAccess)
      [.poll true, .command (.revoke "7") 0, .save 0, .gate drawEnv .empty [strangerUpdate], .save 0]
    s.completed = [.revoke "7"] ∧ s.file.allowFrom = ["7"] ∧ ¬ s.Kept pairingAccess := by
  intro s
  have hcompleted : s.completed = [.revoke "7"] := by decide
  have hlisted : s.file.allowFrom = ["7"] := by decide
  refine ⟨hcompleted, hlisted, fun h ↦ ?_⟩
  have hgone := h.revoked [] "7" [] hcompleted List.not_mem_nil
  rw [hlisted] at hgone
  exact hgone List.mem_cons_self

end Claudebase.Telegram
