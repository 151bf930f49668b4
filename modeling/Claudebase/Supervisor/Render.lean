import Claudebase.Base.Text
import Claudebase.Supervisor.Inject

/-!
# What is pasted for a message

`render` and `sanitize_nick`, `src/supervisor/inject.rs:360–371`, and the block the injector
assembles, `src/supervisor/inject.rs:187–192`. A label in brackets says where a message comes
from; names in it are cut down to letters, digits and three signs. The content follows as it is.
-/

namespace Claudebase.Supervisor
open Claudebase.Base

/-- The most characters of a name. -/
def nickLimit : Nat := 48

/-- `sanitize_nick`. -/
def sanitizeNick (unicode : Unicode) (nick : String) : String :=
  let cleaned := (nick.toList.filter fun c ↦
    unicode.isAlphanumeric c || c == '-' || c == '_' || c == '.').take nickLimit
  if cleaned.isEmpty then "unknown" else String.ofList cleaned

/-- Where a message comes from, and who sent it. -/
inductive Source where
  | telegram
  | telegramVoice
  | agent (nick : String)
  | callback (label : Option String)
  | poolJob (pool reqId : String) (callType : Option String)
  | reminder (entry : String)
  deriving DecidableEq, Repr

/-- The label of a source. -/
def Source.label (unicode : Unicode) : Source → String
  | telegram => "[telegram_message]"
  | telegramVoice => "[telegram_voice_message]"
  | agent nick => "[agent-to-agent:" ++ sanitizeNick unicode nick ++ "]"
  | callback none => "[callback]"
  | callback (some label) => "[callback:" ++ sanitizeNick unicode label ++ "]"
  | reminder entry => "[reminder #" ++ sanitizeNick unicode entry ++ "]"
  | poolJob pool reqId callType =>
    "[pool-job:" ++ sanitizeNick unicode pool ++ " " ++ sanitizeNick unicode reqId ++
      (callType.elim "" fun ct ↦ " " ++ sanitizeNick unicode ct) ++ "]"

section

variable (unicode : Unicode)

@[simp] theorem label_telegram : Source.telegram.label unicode = "[telegram_message]" := rfl

@[simp] theorem label_telegramVoice :
    Source.telegramVoice.label unicode = "[telegram_voice_message]" := rfl

@[simp] theorem label_agent (nick : String) : (Source.agent nick).label unicode =
    "[agent-to-agent:" ++ sanitizeNick unicode nick ++ "]" := rfl

@[simp] theorem label_callback_none : (Source.callback none).label unicode = "[callback]" := rfl

@[simp] theorem label_callback_some (label : String) : (Source.callback (some label)).label unicode =
    "[callback:" ++ sanitizeNick unicode label ++ "]" := rfl

@[simp] theorem label_poolJob (pool reqId : String) (callType : Option String) :
    (Source.poolJob pool reqId callType).label unicode =
      "[pool-job:" ++ sanitizeNick unicode pool ++ " " ++ sanitizeNick unicode reqId ++
        (callType.elim "" fun ct ↦ " " ++ sanitizeNick unicode ct) ++ "]" := rfl

@[simp] theorem label_reminder (entry : String) : (Source.reminder entry).label unicode =
    "[reminder #" ++ sanitizeNick unicode entry ++ "]" := rfl

end

/-- `render`. -/
def render (unicode : Unicode) (source : Source) (content : String) : String :=
  source.label unicode ++ ": " ++ content

/-- A message as it came from the daemon. -/
structure Received where
  messageId : String
  source : Source
  content : String
  deriving DecidableEq, Repr

/-- The message handed to the injector. -/
def Received.inbound (unicode : Unicode) (m : Received) : InboundMessage :=
  ⟨m.messageId, render unicode m.source m.content⟩

/-- What is pasted for some messages. -/
def block (unicode : Unicode) (messages : List Received) : String :=
  coalesce (messages.map (Received.inbound unicode))

@[simp] theorem block_nil (unicode : Unicode) : block unicode [] = "" := rfl

@[simp] theorem block_singleton (unicode : Unicode) (m : Received) :
    block unicode [m] = render unicode m.source m.content := by
  simp [block, coalesce, Received.inbound]

/-- The messages of a block are set apart by an empty line. -/
theorem block_cons_cons (unicode : Unicode) (m m' : Received) (messages : List Received) :
    block unicode (m :: m' :: messages) =
      render unicode m.source m.content ++ "\n\n" ++ block unicode (m' :: messages) := by
  simp [block, coalesce, Received.inbound]

/-! ### The characters of a label -/

/-- What may stand between the brackets. -/
def isLabelChar (unicode : Unicode) (c : Char) : Bool :=
  unicode.isAlphanumeric c || ['-', '_', '.', ':', '#', ' '].contains c

/-- Among the ASCII characters it is known which. -/
theorem isLabelChar_ascii (unicode : Unicode) {c : Char} (h : c.toNat < 128) :
    isLabelChar unicode c = (c.isAlphanum || ['-', '_', '.', ':', '#', ' '].contains c) := by
  unfold isLabelChar
  rw [unicode.isAlphanumeric_ascii c h]

variable {unicode : Unicode}

/-- A fixed part of a label. -/
theorem isLabelChar_of_ascii {s : String} (h : s.toList.all (fun c => decide (c.toNat < 128) &&
    (c.isAlphanum || ['-', '_', '.', ':', '#', ' '].contains c)) = true) :
    ∀ c ∈ s.toList, isLabelChar unicode c = true := by
  intro c hc
  have hchar := List.all_eq_true.mp h c hc
  rw [Bool.and_eq_true, decide_eq_true_eq] at hchar
  rw [isLabelChar_ascii unicode hchar.1]
  exact hchar.2

theorem isLabelChar_sanitizeNick (nick : String) :
    ∀ c ∈ (sanitizeNick unicode nick).toList, isLabelChar unicode c = true := by
  unfold sanitizeNick
  dsimp only
  split
  · exact isLabelChar_of_ascii (by decide)
  · intro c hc
    rw [String.toList_ofList] at hc
    have hkept := (List.mem_filter.mp (List.mem_of_mem_take hc)).2
    unfold isLabelChar
    simp only [Bool.or_eq_true, beq_iff_eq] at hkept
    rcases hkept with ((h | h) | h) | h
    · simp [h]
    · simp [h]
    · simp [h]
    · simp [h]

/-- A label is a bracket, such characters, and a bracket. -/
theorem label_eq (unicode : Unicode) (source : Source) : ∃ tag : String,
    source.label unicode = "[" ++ tag ++ "]" ∧ ∀ c ∈ tag.toList, isLabelChar unicode c = true := by
  have happend : ∀ {s t : String}, (∀ c ∈ s.toList, isLabelChar unicode c = true) →
      (∀ c ∈ t.toList, isLabelChar unicode c = true) →
      ∀ c ∈ (s ++ t).toList, isLabelChar unicode c = true := by
    intro s t hs ht c hc
    rw [String.toList_append] at hc
    exact (List.mem_append.mp hc).elim (hs c) (ht c)
  cases source with
  | telegram => exact ⟨"telegram_message", rfl, isLabelChar_of_ascii (by decide)⟩
  | telegramVoice => exact ⟨"telegram_voice_message", rfl, isLabelChar_of_ascii (by decide)⟩
  | agent nick =>
    exact ⟨"agent-to-agent:" ++ sanitizeNick unicode nick, rfl,
      happend (isLabelChar_of_ascii (by decide)) (isLabelChar_sanitizeNick nick)⟩
  | callback label =>
    cases label with
    | none => exact ⟨"callback", rfl, isLabelChar_of_ascii (by decide)⟩
    | some label =>
      exact ⟨"callback:" ++ sanitizeNick unicode label, rfl,
        happend (isLabelChar_of_ascii (by decide)) (isLabelChar_sanitizeNick label)⟩
  | poolJob pool reqId callType =>
    have hhead : ∀ c ∈ ("pool-job:" ++ sanitizeNick unicode pool ++ " " ++
        sanitizeNick unicode reqId).toList, isLabelChar unicode c = true :=
      happend (happend (happend (isLabelChar_of_ascii (by decide)) (isLabelChar_sanitizeNick pool))
        (isLabelChar_of_ascii (by decide))) (isLabelChar_sanitizeNick reqId)
    have hlabel : ∀ rest : String, "[pool-job:" ++ sanitizeNick unicode pool ++ " " ++
        sanitizeNick unicode reqId ++ rest ++ "]" = "[" ++ ("pool-job:" ++ sanitizeNick unicode pool ++
          " " ++ sanitizeNick unicode reqId ++ rest) ++ "]" := by
      intro rest
      apply String.toList_inj.mp
      simp
    cases callType with
    | none =>
      refine ⟨_, hlabel "", ?_⟩
      rw [String.append_empty]
      exact hhead
    | some ct =>
      exact ⟨_, hlabel (" " ++ sanitizeNick unicode ct),
        happend hhead (happend (s := " ") (isLabelChar_of_ascii (by decide))
          (isLabelChar_sanitizeNick ct))⟩
  | reminder entry =>
    exact ⟨"reminder #" ++ sanitizeNick unicode entry, rfl,
      happend (isLabelChar_of_ascii (by decide)) (isLabelChar_sanitizeNick entry)⟩

end Claudebase.Supervisor
