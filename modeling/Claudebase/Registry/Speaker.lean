import Claudebase.Registry.Routing

/-!
# Chats that change hands

`src/daemon/telegram.rs:529–656,950–978,1284–1338`, `src/daemon/agent_registry.rs:560–600,1424–1459,
1528–1640`. The session that holds a chat and topic is marked with the user who last wrote to it;
`/switch` gives them to another session only on behalf of that user.
-/

namespace Claudebase.Registry
open Claudebase.Base

/-- The registry, and its column `last_user_id`. -/
structure Chats where
  db : Db
  lastUserId : String → Option Int

/-- What `/switch` answers. -/
inductive SwitchReply where
  | notFound (name : String)
  | alreadyBound (agentName : String)
  | denied (agentName : String)
  | switched (agentName agentId : String)
  deriving DecidableEq, Repr

/-- The text of an answer. -/
def SwitchReply.text : SwitchReply → String
  | .notFound name =>
    "CLI '" ++ name ++ "' not found among alive CLIs. Use /agents to list bound CLIs in this " ++
      "chat/topic."
  | .alreadyBound agentName => "Already bound to " ++ agentName ++ " — no change."
  | .denied agentName =>
    "Denied: only the user who last messaged this chat/topic via the bound CLI (" ++ agentName ++
      ") may /switch. Have them rebind, or wait for chat-admin fallback (deferred sub-slice)."
  | .switched agentName agentId =>
    "Switched: this chat/topic is now bound to " ++ agentName ++ " (agent_id=" ++ agentId ++
      "). Subsequent inbound messages route to that CLI."

namespace Db

/-- `list_online`, where `online` tells the processes that are still there. -/
def listOnline (db : Db) (online : AgentRow → Bool) : List AgentRow :=
  ((db.agentRegistry.rows.filter AgentRow.isAlive).insertionSort
    fun a b ↦ b.lastPingedAt ≤ a.lastPingedAt).filter online

/-- `list_routings_for`. -/
def listRoutingsFor (db : Db) (chatId : Int) (threadId : Option Int) : List AgentRow :=
  db.agentRegistry.rows.filter fun r ↦ r.isAlive && r.routes chatId threadId

/-- `max_by_key` on `spawned_at`: of equals the last. -/
def youngest : List AgentRow → Option AgentRow
  | [] => none
  | r :: rows =>
    match youngest rows with
    | none => some r
    | some best => if r.spawnedAt ≤ best.spawnedAt then some best else some r

/-- The session `/switch` means by a name. -/
def switchTarget (db : Db) (name : String) (online : AgentRow → Bool) : Option AgentRow :=
  youngest ((db.listOnline online).filter fun r ↦
    r.agentName.toList.map Char.toLower == name.toList.map Char.toLower)

/-- `bind_routing_key_in_tx`: the others have lost the key also where the session cannot get it. -/
def bindRoutingKeyInTx (db : Db) (agentId : String) (chatId : Int) (threadId : Option Int) :
    Except Violation Unit × Db :=
  match db.bindRoutingKey agentId chatId threadId with
  | .ok db => (.ok (), db)
  | .error v => (.error v, db.cleared agentId chatId threadId)

end Db

namespace Chats

/-- Nobody has registered. -/
def empty : Chats := ⟨.empty, fun _ ↦ none⟩

/-- `stamp_last_user_id`. -/
def stampLastUserId (s : Chats) (agentId : String) (userId : Int) : Chats :=
  if s.db.aliveOf agentId = true then
    { s with lastUserId := Function.update s.lastUserId agentId (some userId) }
  else s

/-- A message to a chat and topic, as far as it marks the session it is routed to. -/
def message (s : Chats) (chatId : Int) (threadId : Option Int) (userId : Int) : Chats :=
  match s.db.resolveRouting chatId threadId with
  | some agentId => s.stampLastUserId agentId userId
  | none => s

/-- The end of `handle_switch`: the chat is bound to the session, and to its name. -/
def rebind (db : Db) (chatId : Int) (threadId : Option Int) (target : AgentRow) (now : Int) :
    Except Violation SwitchReply × Db :=
  match db.bindRoutingKeyInTx target.agentId chatId threadId with
  | (.ok _, db) =>
    (.ok (.switched target.agentName target.agentId),
      db.bindChatToName chatId threadId target.agentName now)
  | (.error v, db) => (.error v, db)

/-- `handle_switch`. -/
def handleSwitch (s : Chats) (chatId : Int) (threadId : Option Int) (senderUserId : Int)
    (targetName : String) (online : AgentRow → Bool) (now : Int) :
    Except Violation SwitchReply × Db :=
  match s.db.switchTarget targetName online with
  | none => (.ok (.notFound targetName), s.db)
  | some target =>
    match s.db.listRoutingsFor chatId threadId with
    | [] => rebind s.db chatId threadId target now
    | current :: _ =>
      if current.agentId = target.agentId then (.ok (.alreadyBound target.agentName), s.db)
      else if s.lastUserId current.agentId = some senderUserId then
        rebind s.db chatId threadId target now
      else (.ok (.denied current.agentName), s.db)

end Chats

/-- What happens: a user's message, a `/switch`, typed or tapped, or another call to the registry. -/
inductive ChatAct where
  | message (chatId : Int) (threadId : Option Int) (userId : Int)
  | switch (chatId : Int) (threadId : Option Int) (userId : Int) (name : String)
      (online : AgentRow → Bool) (now : Int)
  | call (op : Op)

/-- What it leaves. -/
def Chats.next (s : Chats) : ChatAct → Chats
  | .message chatId threadId userId => s.message chatId threadId userId
  | .switch chatId threadId userId name online now =>
    { s with db := (s.handleSwitch chatId threadId userId name online now).2 }
  | .call op => { s with db := Registry.next s.db op }

/-! ### Who spoke last -/

/-- The chat and topic a session is bound to. -/
def Db.bindingOf (db : Db) (agentId : String) : Option (Int × Int) :=
  (db.agentRegistry.get? agentId).bind fun r ↦
    r.routingChatId.map fun chatId ↦ (chatId, r.routingThreadId.getD (-1))

/-- The chats, and for each session the user who sent the last message that was routed through its
present binding. -/
structure Watch where
  chats : Chats
  speaker : String → Option Int

namespace Watch

/-- Nobody has registered. -/
def empty : Watch := ⟨.empty, fun _ ↦ none⟩

/-- Who spoke last: a new binding has not been spoken through. -/
def speakerAfter (w : Watch) (after : Chats) (act : ChatAct) (agentId : String) : Option Int :=
  if after.db.bindingOf agentId = w.chats.db.bindingOf agentId then
    match act with
    | .message chatId threadId userId =>
      if w.chats.db.resolveRouting chatId threadId = some agentId then some userId
      else w.speaker agentId
    | _ => w.speaker agentId
  else none

/-- One step. -/
def next (w : Watch) (act : ChatAct) : Watch :=
  let chats := w.chats.next act
  ⟨chats, w.speakerAfter chats act⟩

end Watch

/-- A live session holds a chat and topic. -/
def Db.Holds (db : Db) (agentId : String) (chatId : Int) (threadId : Option Int) : Prop :=
  ∃ r ∈ db.agentRegistry.rows, r.isAlive = true ∧ r.routes chatId threadId = true ∧
    r.agentId = agentId

/-- The step gives a chat and topic that a live session holds to another one, by `/switch`, only on
behalf of the user who spoke last. -/
def GivenByLastSpeaker (t : Step Watch ChatAct) : Prop :=
  ∀ chatId threadId userId name online now,
    t.op = .switch chatId threadId userId name online now →
    ∀ a b, a ≠ b → t.before.chats.db.Holds a chatId threadId →
      t.after.chats.db.Holds b chatId threadId → t.before.speaker a = some userId

/-- Whoever spoke last through a binding is not refused by the gate. -/
def Watch.LastSpeakerMaySwitch (w : Watch) : Prop :=
  ∀ a chatId threadId userId, w.chats.db.Holds a chatId threadId → w.speaker a = some userId →
    ∀ name online now agentName,
      (w.chats.handleSwitch chatId threadId userId name online now).1 ≠ .ok (.denied agentName)

/-- A `/switch` by a user whose mark on the session that holds the chat and topic is left from an
earlier binding, and who names another live session. -/
def Watch.UsesOldMark (w : Watch) : ChatAct → Prop
  | .switch chatId threadId userId name online _ =>
    (∀ topic ∈ threadId, 0 < topic) ∧ ∃ a, w.chats.db.Holds a chatId threadId ∧
      w.chats.lastUserId a = some userId ∧ w.speaker a = none ∧
      ∃ target, w.chats.db.switchTarget name online = some target ∧ target.agentId ≠ a
  | _ => False

/-!
## Only the last speaker switches

The mark on a session is that of whoever spoke last through its present binding, once somebody has;
before that it may be left from an earlier one.
-/

/-! ### The session that holds a chat -/

namespace Db

variable {db db' : Db} {a b agentId name : String} {chatId : Int} {threadId : Option Int}
  {online : AgentRow → Bool}

theorem mem_of_youngest {rows : List AgentRow} {r : AgentRow} (h : youngest rows = some r) :
    r ∈ rows := by
  induction rows generalizing r with
  | nil => cases h
  | cons x rows ih =>
    rw [youngest] at h
    cases hbest : youngest rows with
    | none =>
      rw [hbest] at h
      cases h
      exact List.mem_cons_self
    | some best =>
      rw [hbest] at h
      dsimp only at h
      split at h
      · cases h
        exact List.mem_cons_of_mem x (ih hbest)
      · cases h
        exact List.mem_cons_self

/-- `/switch` means a live session. -/
theorem aliveOf_switchTarget {target : AgentRow} (h : db.switchTarget name online = some target) :
    db.aliveOf target.agentId = true := by
  have hmem := (List.mem_filter.mp (mem_of_youngest h)).1
  have hsorted := (List.mem_filter.mp hmem).1
  have halive := (List.perm_insertionSort _ _).mem_iff.mp hsorted
  obtain ⟨hrow, halive⟩ := List.mem_filter.mp halive
  exact aliveOf_iff.mpr ⟨target, hrow, rfl, halive⟩

/-- A chat and topic have one session. -/
theorem Sound.holds_unique (h : db.Sound) (ha : db.Holds a chatId threadId)
    (hb : db.Holds b chatId threadId) : a = b := by
  obtain ⟨r, hr, halive, hroutes, rfl⟩ := ha
  obtain ⟨r', hr', halive', hroutes', rfl⟩ := hb
  rw [h.eq_of_routes hr hr' halive halive' hroutes hroutes']

/-- The session that holds a chat and topic is the one that is listed for them. -/
theorem Sound.listRoutingsFor (h : db.Sound) (ha : db.Holds a chatId threadId) :
    ∃ r rest, db.listRoutingsFor chatId threadId = r :: rest ∧ r.agentId = a := by
  cases hlist : db.listRoutingsFor chatId threadId with
  | nil =>
    obtain ⟨r, hr, halive, hroutes, -⟩ := ha
    have hmem : r ∈ db.listRoutingsFor chatId threadId :=
      List.mem_filter.mpr ⟨hr, by rw [halive, hroutes]; rfl⟩
    rw [hlist] at hmem
    cases hmem
  | cons r rest =>
    have hmem : r ∈ db.listRoutingsFor chatId threadId := by
      rw [hlist]
      exact List.mem_cons_self
    obtain ⟨hr, hp⟩ := List.mem_filter.mp hmem
    obtain ⟨halive, hroutes⟩ := Bool.and_eq_true_iff.mp hp
    exact ⟨r, rest, rfl, h.holds_unique ⟨r, hr, halive, hroutes, rfl⟩ ha⟩

/-- What the first statement of a bind leaves to a session it had before. -/
theorem holds_of_cleared (h : (db.cleared agentId chatId threadId).Holds b chatId threadId) :
    db.Holds b chatId threadId := by
  obtain ⟨r, hr, halive, hroutes, hid⟩ := h
  obtain ⟨x, hx, rfl⟩ := (Table.mem_update AgentRow.agentId_unrouted).mp hr
  by_cases hp : (x.isAlive && x.routes chatId threadId && x.agentId != agentId) = true
  · rw [if_pos hp] at hroutes
    cases hroutes
  · rw [if_neg hp] at halive hroutes hid
    exact ⟨x, hx, halive, hroutes, hid⟩

/-- A live session is only bound to a real topic. -/
theorem topic_of_bindRoutingKey (h : db.bindRoutingKey agentId chatId threadId = .ok db')
    (halive : db.aliveOf agentId = true) : ∀ topic ∈ threadId, 0 < topic := by
  obtain ⟨rfl, hsound⟩ := write_eq_ok.mp h
  obtain ⟨x, hx, rfl, hxalive⟩ := aliveOf_iff.mp halive
  have hkept : x ∈ (db.cleared x.agentId chatId threadId).agentRegistry.rows :=
    (Table.mem_update AgentRow.agentId_unrouted).mpr ⟨x, hx, by simp⟩
  have htopic := hsound.topic (x.routed chatId threadId) <|
    (Table.mem_update (AgentRow.agentId_routed chatId threadId)).mpr
      ⟨x, hkept, by simp [hxalive]⟩
  intro topic htopic'
  cases htopic'
  simpa [AgentRow.topicOk, AgentRow.routed] using htopic

theorem sound_bindRoutingKeyInTx (h : db.Sound) :
    (db.bindRoutingKeyInTx agentId chatId threadId).2.Sound := by
  unfold bindRoutingKeyInTx
  cases hok : db.bindRoutingKey agentId chatId threadId with
  | ok db' => exact (write_eq_ok.mp hok).2
  | error v => exact h.unroute

end Db

/-! ### `/switch` -/

namespace Chats

variable {s : Chats} {a b name : String} {chatId userId : Int} {threadId : Option Int}
  {online : AgentRow → Bool} {now : Int} {target : AgentRow}

theorem sound_rebind {db : Db} (h : db.Sound) : (rebind db chatId threadId target now).2.Sound := by
  have hbind : (db.bindRoutingKeyInTx target.agentId chatId threadId).2.Sound :=
    Db.sound_bindRoutingKeyInTx h
  unfold rebind
  rcases hbound : db.bindRoutingKeyInTx target.agentId chatId threadId with ⟨e | u, db'⟩
  · rw [hbound] at hbind
    exact hbind
  · rw [hbound] at hbind
    exact ⟨hbind.topic, hbind.name, hbind.routing⟩

theorem sound_handleSwitch (h : s.db.Sound) :
    (s.handleSwitch chatId threadId userId name online now).2.Sound := by
  unfold handleSwitch
  split
  · exact h
  · split
    · exact sound_rebind h
    · split
      · exact h
      · split
        · exact sound_rebind h
        · exact h

theorem rebind_ne_denied {db : Db} {agentName : String} :
    (rebind db chatId threadId target now).1 ≠ .ok (.denied agentName) := by
  unfold rebind
  rcases db.bindRoutingKeyInTx target.agentId chatId threadId with ⟨e | u, db'⟩
  · exact fun h ↦ by cases h
  · exact fun h ↦ by cases h

/-- The gate lets the user through whose mark is on the session. -/
theorem not_denied (h : s.db.Sound) (ha : s.db.Holds a chatId threadId)
    (hmark : s.lastUserId a = some userId) (agentName : String) :
    (s.handleSwitch chatId threadId userId name online now).1 ≠ .ok (.denied agentName) := by
  obtain ⟨current, rest, hlist, rfl⟩ := h.listRoutingsFor ha
  unfold handleSwitch
  split
  · exact fun h ↦ by cases h
  · rw [hlist]
    dsimp only
    split
    · exact fun h ↦ by cases h
    · exact rebind_ne_denied

/-- A chat and topic that a session holds pass to another only where the gate lets the user
through. -/
theorem gate_of_given (h : s.db.Sound) (ha : s.db.Holds a chatId threadId) (hne : a ≠ b)
    (hb : (s.handleSwitch chatId threadId userId name online now).2.Holds b chatId threadId) :
    s.lastUserId a = some userId ∧ (∀ topic ∈ threadId, 0 < topic) ∧
      ∃ target, s.db.switchTarget name online = some target ∧ target.agentId ≠ a := by
  obtain ⟨current, rest, hlist, rfl⟩ := h.listRoutingsFor ha
  unfold handleSwitch at hb
  cases htarget : s.db.switchTarget name online with
  | none =>
    rw [htarget] at hb
    exact absurd (h.holds_unique ha hb) hne
  | some target =>
    rw [htarget, hlist] at hb
    dsimp only at hb
    split at hb
    · exact absurd (h.holds_unique ha hb) hne
    · next hother =>
      split at hb
      · next hmark =>
        refine ⟨hmark, ?_, target, rfl, Ne.symm hother⟩
        unfold rebind Db.bindRoutingKeyInTx at hb
        cases hbound : s.db.bindRoutingKey target.agentId chatId threadId with
        | ok db' => exact Db.topic_of_bindRoutingKey hbound (Db.aliveOf_switchTarget htarget)
        | error v =>
          rw [hbound] at hb
          exact absurd (h.holds_unique ha (Db.holds_of_cleared hb)) hne
      · exact absurd (h.holds_unique ha hb) hne

/-- Where the gate lets the user through, the session that is named gets the chat and topic. -/
theorem given_of_gate (h : s.db.Sound) (ha : s.db.Holds a chatId threadId)
    (hmark : s.lastUserId a = some userId) (htopic : ∀ topic ∈ threadId, 0 < topic)
    (htarget : s.db.switchTarget name online = some target) (hne : target.agentId ≠ a) :
    (s.handleSwitch chatId threadId userId name online now).2.Holds target.agentId chatId
      threadId := by
  obtain ⟨current, rest, hlist, rfl⟩ := h.listRoutingsFor ha
  obtain ⟨db', hbound⟩ := h.bindRoutingKey target.agentId chatId htopic
  unfold handleSwitch
  rw [htarget, hlist]
  dsimp only
  rw [if_neg (Ne.symm hne), if_pos hmark]
  unfold rebind Db.bindRoutingKeyInTx
  rw [hbound]
  have hgiven := Db.exists_of_bindRoutingKey hbound (Db.aliveOf_switchTarget htarget)
  obtain ⟨r, hr, halive, hroutes, hid⟩ := hgiven
  exact ⟨r, hr, halive, hroutes, hid⟩

end Chats

/-! ### The mark of the last speaker -/

namespace Watch

variable {w : Watch} {act : ChatAct}

/-- Whoever spoke last through a binding left the mark on its session. -/
structure Marked (w : Watch) : Prop where
  sound : w.chats.db.Sound
  mark : ∀ a userId, w.speaker a = some userId → w.chats.lastUserId a = some userId

theorem marked_empty : empty.Marked := ⟨Db.sound_empty, fun _ _ h ↦ by cases h⟩

theorem sound_next (h : w.chats.db.Sound) : (w.chats.next act).db.Sound := by
  cases act with
  | message chatId threadId userId =>
    unfold Chats.next Chats.message Chats.stampLastUserId
    dsimp only
    split
    · split
      · exact h
      · exact h
    · exact h
  | switch chatId threadId userId name online now => exact Chats.sound_handleSwitch h
  | call op => exact Registry.sound_next h op

/-- A message marks the session it is routed to. -/
theorem lastUserId_message {s : Chats} (h : s.db.Sound) {a : String} {chatId userId : Int}
    {threadId : Option Int} (hrouted : s.db.resolveRouting chatId threadId = some a) :
    (s.message chatId threadId userId).lastUserId =
      Function.update s.lastUserId a (some userId) := by
  obtain ⟨r, hr, halive, -, hid⟩ := h.resolveRouting_eq_some_iff.mp hrouted
  have haliveOf : s.db.aliveOf a = true := Db.aliveOf_iff.mpr ⟨r, hr, hid, halive⟩
  unfold Chats.message Chats.stampLastUserId
  rw [hrouted]
  dsimp only
  rw [if_pos haliveOf]

/-- Only a message that is routed to a session marks it. -/
theorem lastUserId_message_of_ne {s : Chats} {a : String} {chatId userId : Int}
    {threadId : Option Int} (hrouted : s.db.resolveRouting chatId threadId ≠ some a) :
    (s.message chatId threadId userId).lastUserId a = s.lastUserId a := by
  unfold Chats.message
  cases hother : s.db.resolveRouting chatId threadId with
  | none => rfl
  | some b =>
    have hne : a ≠ b := by
      rintro rfl
      exact hrouted hother
    dsimp only
    unfold Chats.stampLastUserId
    split
    · exact Function.update_of_ne hne _ _
    · rfl

/-- One step. -/
theorem Marked.next (h : w.Marked) (act : ChatAct) : (w.next act).Marked where
  sound := sound_next h.sound
  mark a userId hspeaker := by
    unfold Watch.next at hspeaker ⊢
    dsimp only at hspeaker ⊢
    unfold speakerAfter at hspeaker
    split at hspeaker
    · cases act with
      | message chatId threadId user =>
        dsimp only at hspeaker
        split at hspeaker
        · next hrouted =>
          cases hspeaker
          show (w.chats.message chatId threadId userId).lastUserId a = some userId
          rw [lastUserId_message h.sound hrouted, Function.update_self]
        · next hrouted =>
          show (w.chats.message chatId threadId user).lastUserId a = some userId
          rw [lastUserId_message_of_ne hrouted]
          exact h.mark a userId hspeaker
      | switch chatId threadId user name online now => exact h.mark a userId hspeaker
      | call op => exact h.mark a userId hspeaker
    · cases hspeaker

theorem Marked.lastSpeakerMaySwitch (h : w.Marked) : w.LastSpeakerMaySwitch :=
  fun a _ _ userId ha hspeaker _ _ _ agentName ↦
    Chats.not_denied h.sound ha (h.mark a userId hspeaker) agentName

/-- A step gives a chat away on behalf of the last speaker only, exactly where no old mark is
used. -/
theorem Marked.givenByLastSpeaker_iff (h : w.Marked) (act : ChatAct) :
    GivenByLastSpeaker ⟨w, act, w.next act⟩ ↔ ¬ w.UsesOldMark act := by
  cases act with
  | message chatId threadId userId =>
    exact iff_of_true (fun _ _ _ _ _ _ hop ↦ by cases hop) id
  | call op => exact iff_of_true (fun _ _ _ _ _ _ hop ↦ by cases hop) id
  | switch chatId threadId userId name online now =>
    constructor
    · rintro hgiven ⟨htopic, a, ha, hmark, hspeaker, target, htarget, hne⟩
      have hspoke := hgiven chatId threadId userId name online now rfl a target.agentId hne.symm ha
        (Chats.given_of_gate h.sound ha hmark htopic htarget hne)
      cases hspeaker.symm.trans hspoke
    · intro hold _ _ _ _ _ _ hop a b hne ha hb
      cases hop
      obtain ⟨hmark, htopic, htarget⟩ := Chats.gate_of_given h.sound ha hne hb
      cases hspeaker : w.speaker a with
      | none => exact absurd ⟨htopic, a, ha, hmark, hspeaker, htarget⟩ hold
      | some speaker => exact (h.mark a speaker hspeaker).symm.trans hmark

end Watch

/-- In every run whoever spoke last through a binding may switch it; and chats are only given away
on behalf of such users if and only if no `/switch` uses a mark from an earlier binding. -/
theorem switched_by_last_speaker (acts : List ChatAct) :
    (∀ t ∈ trace Watch.next .empty acts, t.after.LastSpeakerMaySwitch) ∧
      ((∀ t ∈ trace Watch.next .empty acts, GivenByLastSpeaker t) ↔
        ∀ t ∈ trace Watch.next .empty acts, ¬ t.before.UsesOldMark t.op) := by
  have hmarked : ∀ t ∈ trace Watch.next .empty acts, t.before.Marked ∧ t.after.Marked :=
    invariant_of_trace Watch.marked_empty fun t ht h ↦ after_of_mem_trace ht ▸ h.next t.op
  constructor
  · exact fun t ht ↦ (hmarked t ht).2.lastSpeakerMaySwitch
  · refine forall₂_congr fun t ht ↦ ?_
    rcases t with ⟨before, op, after⟩
    have hafter := after_of_mem_trace ht
    dsimp only at hafter
    subst hafter
    exact (hmarked _ ht).1.givenByLastSpeaker_iff op

/-- A user writes to a session in chat 1; somebody takes it to chat 2, which the user then switches
away from it. -/
def oldMarkRun : List ChatAct :=
  [.call (.register "s" "mira" "c1" none none 0), .call (.register "t" "nora" "c2" none none 0),
    .switch 1 none 7 "mira" (fun _ ↦ true) 0, .message 1 none 7,
    .switch 2 none 8 "mira" (fun _ ↦ true) 0, .switch 2 none 7 "nora" (fun _ ↦ true) 0]

theorem switched_by_old_mark : ¬ ∀ acts, ∀ t ∈ trace Watch.next .empty acts,
    GivenByLastSpeaker t := by
  intro hclaim
  have hlast : ∃ t ∈ trace Watch.next .empty oldMarkRun,
      t.before = run Watch.next .empty (oldMarkRun.take 5) ∧
        t.op = .switch 2 none 7 "nora" (fun _ ↦ true) 0 ∧
        t.after = run Watch.next .empty oldMarkRun :=
    ⟨_, List.mem_of_getElem? (i := 5) rfl, rfl, rfl, rfl⟩
  obtain ⟨t, ht, hbefore, hop, hafter⟩ := hlast
  have hspoke := hclaim oldMarkRun t ht 2 none 7 "nora" (fun _ ↦ true) 0 hop "s" "t" (by decide)
  rw [hbefore, hafter] at hspoke
  unfold Db.Holds at hspoke
  exact absurd (hspoke (by decide) (by decide)) (by decide)

end Claudebase.Registry
