import Claudebase.Telegram.Daemon
import Claudebase.Telegram.Inbound

/-!
# The message table over a run

A stored message is never changed or dropped, but for the mark that it was delivered, and a
mark is never taken back. Every step of the daemon keeps to that.
-/

namespace Claudebase.Telegram
open Claudebase.Base

/-- One message at two times: only the mark may differ. -/
def SameMessage (m m' : ChatMessage) : Prop := m' = { m with deliveredAt := m'.deliveredAt }

theorem SameMessage.refl (m : ChatMessage) : SameMessage m m := rfl

theorem SameMessage.trans {m m' m'' : ChatMessage} (h : SameMessage m m')
    (h' : SameMessage m' m'') : SameMessage m m'' := by
  unfold SameMessage at *
  rw [h', h]

theorem SameMessage.id_eq {m m' : ChatMessage} (h : SameMessage m m') : m'.id = m.id := by
  rw [h]

/-- What may happen to the messages: new ones, and marks. -/
structure Grows (db db' : Db) : Prop where
  kept : ∀ m ∈ db.chatMessages.rows, ∃ m' ∈ db'.chatMessages.rows, SameMessage m m'
  unmarked : ∀ m' ∈ db'.chatMessages.rows, m'.deliveredAt = none →
    m'.id ∈ db.chatMessages.rows.map ChatMessage.id → m' ∈ db.chatMessages.rows

theorem grows_refl (db : Db) : Grows db db := ⟨fun m hm ↦ ⟨m, hm, .refl m⟩, fun _ hm _ _ ↦ hm⟩

theorem Grows.mem_ids {db db' : Db} (h : Grows db db') {id : String}
    (hid : id ∈ db.chatMessages.rows.map ChatMessage.id) :
    id ∈ db'.chatMessages.rows.map ChatMessage.id := by
  obtain ⟨m, hm, rfl⟩ := List.mem_map.mp hid
  obtain ⟨m', hm', hsame⟩ := h.kept m hm
  rw [← hsame.id_eq]
  exact List.mem_map_of_mem hm'

theorem grows_trans (db db' db'' : Db) (h : Grows db db') (h' : Grows db' db'') :
    Grows db db'' where
  kept m hm := by
    obtain ⟨m', hm', hsame⟩ := h.kept m hm
    obtain ⟨m'', hm'', hsame'⟩ := h'.kept m' hm'
    exact ⟨m'', hm'', hsame.trans hsame'⟩
  unmarked m'' hm'' hnone hid :=
    h.unmarked m'' (h'.unmarked m'' hm'' hnone (h.mem_ids hid)) hnone hid

/-- A table that did not change. -/
theorem Grows.of_eq {db db' : Db} (h : db'.chatMessages = db.chatMessages) : Grows db db' := by
  constructor
  · intro m hm
    rw [h]
    exact ⟨m, hm, .refl m⟩
  · intro m hm _ _
    rw [h] at hm
    exact hm

/-- New rows have new ids, for the table keeps ids apart. -/
theorem Grows.of_append {db db' : Db} {new : List ChatMessage}
    (h : db'.chatMessages.rows = db.chatMessages.rows ++ new) : Grows db db' := by
  constructor
  · intro m hm
    rw [h]
    exact ⟨m, List.mem_append_left _ hm, .refl m⟩
  · intro m' hm' _ hid
    obtain ⟨m, hm, hmid⟩ := List.mem_map.mp hid
    have hm₂ : m ∈ db'.chatMessages.rows := by
      rw [h]
      exact List.mem_append_left _ hm
    rwa [← db'.chatMessages.eq_of_key_eq hm₂ hm' hmid]

theorem grows_markDelivered (db : Db) (id : String) (now : Int) :
    Grows db (db.markDelivered id now) := by
  constructor
  · intro m hm
    refine ⟨_, Db.mem_markDelivered.mpr ⟨m, hm, rfl⟩, ?_⟩
    split
    · rfl
    · rfl
  · intro m' hm' hnone _
    obtain ⟨m, hm, rfl⟩ := Db.mem_markDelivered.mp hm'
    split at hnone
    · cases hnone
    · next hne =>
      rw [if_neg hne]
      exact hm

theorem grows_drainBacklog (db : Db) (threadId : String) (now : Int) :
    Grows db (db.drainBacklog threadId now).2 := by
  have hstep : ∀ (db : Db) (m : ChatMessage), Grows db (db.markDelivered m.id now) :=
    fun db m ↦ grows_markDelivered db m.id now
  exact rel_run grows_refl grows_trans hstep db _

/-- A batch in progress only adds messages. -/
theorem grows_of_extends {b b' : Batch} (h : b.Extends b') : Grows b.db b'.db := by
  obtain ⟨new, -, happ⟩ := h
  exact .of_append happ.rows

theorem grows_process (uuids : Uuids) (env : Env) (db : Db) (access : Access)
    (batch : List Update) : Grows db (Batch.process uuids env db access batch).db := by
  unfold Batch.process
  split
  · exact .of_eq rfl
  · obtain ⟨new, -, happ⟩ := Batch.extends_updates uuids env db access batch
    apply Grows.of_append
    rw [(Batch.advanceOffset_db _).1]
    exact happ.rows

namespace Daemon

variable (uuids : Uuids) (telegram : Service)

theorem grows_commit (env : Env) (access : Access) (s : Daemon) (c : Commit) :
    Grows s.db (s.commit uuids env access c).db := by
  cases c with
  | park u => exact .of_eq rfl
  | advance maxId => exact .of_eq rfl
  | process batch => exact grows_process uuids env s.db access batch
  | unpark updateId => exact .of_eq rfl
  | collect => exact .of_eq rfl

/-- Messages grow along a relation on databases carried by the daemon. -/
theorem grows_commits (env : Env) (access : Access) (s : Daemon) (commits : List Commit) :
    Grows s.db (run (commit uuids env access) s commits).db :=
  rel_run (R := fun s s' : Daemon ↦ Grows s.db s'.db) (fun s ↦ grows_refl s.db)
    (fun a b c ↦ grows_trans a.db b.db c.db) (grows_commit uuids env access) s commits

theorem grows_pollCycle (s : Daemon) (upTo : Int) (access : Access) (env : Env)
    (progress : Progress) :
    Grows s.db (s.pollCycle uuids telegram upTo access env progress).db := by
  unfold pollCycle
  split
  · exact .of_eq rfl
  · exact grows_commits uuids env access (s.receive telegram upTo) _

theorem grows_transcribe (s : Daemon) (i : Nat) (outcome : Except String String) :
    Grows s.db (s.transcribe i outcome).db := by
  unfold transcribe
  split
  · exact .of_eq rfl
  · exact .of_eq rfl

theorem grows_handleChatPost (s : Daemon) (tool : Tool) (args : Json) (seed : Nat) (now : Int) :
    Grows s.db (s.handleChatPost uuids tool args seed now).db := by
  unfold handleChatPost
  extract_lets thread replyTo stored
  split
  · exact .of_eq rfl
  · have hstored : Grows s.db stored.2 := .of_append rfl
    split
    · exact hstored
    · exact hstored

theorem grows_sendNext (s : Daemon) (now : Int) (ok : Bool) :
    Grows s.db (s.sendNext now ok).db := by
  unfold sendNext
  split
  · exact .of_eq rfl
  · split
    · exact grows_markDelivered s.db _ now
    · exact .of_eq rfl

/-- No step changes a stored message or takes a mark back. -/
theorem grows_next (s : Daemon) (op : Op) : Grows s.db (next uuids telegram s op).db := by
  unfold next
  split
  · exact grows_pollCycle uuids telegram s _ _ _ _
  · exact grows_transcribe s _ _
  · exact grows_handleChatPost uuids s _ _ _ _
  · exact grows_sendNext s _ _
  · exact grows_drainBacklog s.db _ _
  · exact .of_eq rfl
  · exact .of_eq rfl
  · exact .of_eq rfl
  · exact .of_eq rfl

end Daemon

end Claudebase.Telegram
