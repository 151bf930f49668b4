import Claudebase.Base.Stream
import Claudebase.Callback.Request

/-!
# The callback listener

`src/daemon/callback.rs:568–721`, with `src/daemon/pool.rs:29` and `src/daemon/api.rs:15`. A head is
read until its end is there or there is too much of it, then a body until it has the declared
length or the client closes; what is there then is acted on.
-/

namespace Claudebase.Callback
open Claudebase.Base

/-- `MAX_HEAD`. -/
def maxHead : Nat := 8 * 1024

/-- `MAX_BODY`, of a callback, the pool and the public API. -/
def maxBody : Nat := 64 * 1024

def poolMaxBody : Nat := 12 * 1024 * 1024

def apiMaxBody : Nat := 4 * 1024 * 1024

/-- The buffer the head is read through. -/
def chunk : Nat := 1024

/-- What is consulted besides the request: the Unicode tables, `serde_json` and the clients' tokens,
with the status and the error of a refusal. -/
structure Env where
  unicode : Unicode
  parse : List Char → Option Json
  refuseToken : Option (List Char) → Option (String × String)

/-- `CallbackRequest`. -/
structure CallbackRequest where
  target : List Char
  label : Option String
  token : Option (List Char)
  deriving DecidableEq

/-- What is acted on. -/
inductive Request where
  | page (target : List Char)
  | pool (method target : List Char) (token : Option (List Char)) (body : Bytes)
  | api (method target : List Char) (body : Bytes)
  | callback (request : CallbackRequest) (text : List Char)
  deriving DecidableEq

/-- What becomes of a connection: nothing, a refusal with its status and error, or a request. -/
inductive Handled where
  | failed
  | refused (status error : String)
  | acted (request : Request)
  deriving DecidableEq

def Handled.action : Handled → Option Request
  | acted request => some request
  | failed | refused _ _ => none

/-! ### Head and body -/

/-- The families of requests that have a body. -/
inductive Family where
  | pool
  | api
  | callback
  deriving DecidableEq

/-- The buffer a body is read through. -/
def Family.chunk : Family → Nat
  | pool | api => 64 * 1024
  | callback => Callback.chunk

/-- What a head leads to. -/
inductive Route where
  | done (handled : Handled)
  | read (family : Family)

/-- The checks that are made before a body is read. -/
def route (env : Env) (head : Head) : Route :=
  if "/mindmap/".toList <+: head.target then
    if head.method.map Char.toLower = "get".toList then .done (.acted (.page head.target))
    else .done (.refused "405 Method Not Allowed" "use GET")
  else if "/pool/".toList <+: head.target then
    if poolMaxBody < head.contentLength then .done (.refused "413 Payload Too Large" "too_large")
    else .read .pool
  else if "/v1/".toList <+: head.target then
    match env.refuseToken head.token with
    | some (status, error) => .done (.refused status error)
    | none =>
      if apiMaxBody < head.contentLength then .done (.refused "413 Payload Too Large" "too_large")
      else .read .api
  else if head.method.map Char.toLower ≠ "post".toList then
    .done (.refused "405 Method Not Allowed" "use POST")
  else if maxBody < head.contentLength then
    .done (.refused "413 Payload Too Large" "body too large")
  else .read .callback

/-- What is done with a head and a body; the first check of `dispatch` with it. -/
def answer (env : Env) (head : Head) (body : Bytes) : Family → Handled
  | .pool => .acted (.pool (head.method.map Char.toUpper) head.target head.token body)
  | .api => .acted (.api (head.method.map Char.toUpper) head.target body)
  | .callback =>
    match parseTarget env.unicode head.target with
    | none => .refused "200 OK" "path must be /callback/<nick>"
    | some (nick, label) =>
      let text := sanitizeBody (extractText env.parse (fromUtf8Lossy body))
      if trim text = [] then .refused "200 OK" "empty body"
      else .acted (.callback ⟨nick, label, head.token⟩ text)

/-! ### The connection -/

/-- What the head loop stops at. -/
inductive HeadRead where
  | found (pos : Nat)
  | tooLarge
  deriving DecidableEq

/-- The head's end is looked for before its length is. -/
def headVerdict (buf : Bytes) : Option HeadRead :=
  match findHeadEnd buf with
  | some pos => some (.found pos)
  | none => if maxHead < buf.length then some .tooLarge else none

/-- `handle_connection`. The client's bytes come in pieces, and after them it closes the connection
or it is lost. -/
def handle (env : Env) (schedule : Nat → Nat) (bytes : Bytes) (closes : Bool) : Handled :=
  match scan chunk headVerdict schedule 0 [] bytes with
  | none => .failed
  | some stop =>
    match stop.verdict with
    | .tooLarge => .refused "413 Payload Too Large" "request head too large"
    | .found pos =>
      let head := readHead (stop.buf.take pos)
      match route env head with
      | .done handled => handled
      | .read family =>
        let body := (fill family.chunk schedule head.contentLength stop.reads
          (stop.buf.drop (pos + 4)) stop.left).1
        if body.length < head.contentLength ∧ closes = false then .failed
        else answer env head (body.take head.contentLength) family

/-! ### The end of a head -/

theorem headMark_length : headMark.length = 4 := rfl

/-- The end of a head is there with its mark. -/
theorem findHeadEnd_le {s : Bytes} {pos : Nat} (h : findHeadEnd s = some pos) :
    pos + 4 ≤ s.length := by
  induction s generalizing pos with
  | nil => cases h
  | cons b s ih =>
    rw [findHeadEnd] at h
    split at h
    · next hmark =>
      cases h
      exact hmark.length_le
    · obtain ⟨pos', hpos, rfl⟩ := Option.map_eq_some_iff.mp h
      have hle := ih hpos
      rw [List.length_cons]
      omega

/-- More bytes do not move it. -/
theorem findHeadEnd_append {s : Bytes} {pos : Nat} (h : findHeadEnd s = some pos) (t : Bytes) :
    findHeadEnd (s ++ t) = some pos := by
  induction s generalizing pos with
  | nil => cases h
  | cons b s ih =>
    rw [List.cons_append, findHeadEnd]
    rw [findHeadEnd] at h
    split at h
    · next hmark =>
      cases h
      exact if_pos (hmark.trans (List.prefix_append (b :: s) t))
    · next hmark =>
      obtain ⟨pos', hpos, rfl⟩ := Option.map_eq_some_iff.mp h
      have hlength := findHeadEnd_le hpos
      rw [if_neg, ih hpos, Option.map_some]
      intro hmark'
      refine hmark (List.prefix_of_prefix_length_le hmark' (List.prefix_append (b :: s) t) ?_)
      rw [headMark_length, List.length_cons]
      omega

/-- It is found as soon as its mark is there. -/
theorem findHeadEnd_take {s : Bytes} {pos n : Nat} (h : findHeadEnd s = some pos)
    (hn : pos + 4 ≤ n) : findHeadEnd (s.take n) = some pos := by
  induction s generalizing pos n with
  | nil => cases h
  | cons b s ih =>
    obtain ⟨m, rfl⟩ : ∃ m, n = m + 1 := ⟨n - 1, by omega⟩
    rw [List.take_succ_cons, findHeadEnd]
    rw [findHeadEnd] at h
    split at h
    · next hmark =>
      cases h
      have htake : headMark <+: (b :: s).take (m + 1) :=
        List.prefix_take_iff.mpr ⟨hmark, hn⟩
      exact if_pos htake
    · next hmark =>
      obtain ⟨pos', hpos, rfl⟩ := Option.map_eq_some_iff.mp h
      rw [if_neg, ih hpos (by omega), Option.map_some]
      intro hmark'
      have htake : (b :: s).take (m + 1) <+: b :: s := List.take_prefix _ _
      exact hmark (hmark'.trans htake)

/-! ### What comes of the bytes -/

/-- What is done with the head that ends at `pos` and the bytes behind it, however they came. -/
def meant (env : Env) (bytes : Bytes) (closes : Bool) (pos : Nat) : Handled :=
  let head := readHead (bytes.take pos)
  match route env head with
  | .done handled => handled
  | .read family =>
    if (bytes.drop (pos + 4)).length < head.contentLength ∧ closes = false then .failed
    else answer env head ((bytes.drop (pos + 4)).take head.contentLength) family

/-- `413`. -/
def headTooLarge : Handled := .refused "413 Payload Too Large" "request head too large"

theorem Family.chunk_pos (family : Family) : 0 < family.chunk := by
  cases family with
  | _ => decide

theorem pieceSize_le (cap : Nat) (schedule : Nat → Nat) (k : Nat) :
    pieceSize cap schedule k ≤ cap :=
  Nat.min_le_left _ _

variable {env : Env} {schedule : Nat → Nat} {bytes : Bytes} {closes : Bool}

/-- Once the head is there, what follows depends on the bytes only. -/
theorem handle_of_found {stop : Stop UInt8 HeadRead} {pos : Nat}
    (hscan : scan chunk headVerdict schedule 0 [] bytes = some stop)
    (hverdict : stop.verdict = .found pos) (hall : stop.buf ++ stop.left = bytes)
    (hend : findHeadEnd stop.buf = some pos) :
    handle env schedule bytes closes = meant env bytes closes pos := by
  have hle := findHeadEnd_le hend
  have hhead : stop.buf.take pos = bytes.take pos := by
    rw [← hall, List.take_append_of_le_length (by omega)]
  have hrest : stop.buf.drop (pos + 4) ++ stop.left = bytes.drop (pos + 4) := by
    rw [← hall, List.drop_append_of_le_length hle]
  simp only [handle, hscan, hverdict, meant, hhead]
  cases route env (readHead (bytes.take pos)) with
  | done handled => rfl
  | read family =>
    dsimp only
    have hlength := need_le_fill_iff family.chunk_pos schedule
      (readHead (bytes.take pos)).contentLength stop.reads (stop.buf.drop (pos + 4)) stop.left
    rw [hrest] at hlength
    rw [take_fill family.chunk_pos, hrest]
    simp only [← not_le, hlength]

/-- Where the head ends, it is read, or there was too much of it. What is read exceeds the limit by
less than a piece. -/
theorem handle_cases {pos size : Nat} (hend : findHeadEnd bytes = some pos)
    (hsize : ∀ k, pieceSize chunk schedule k ≤ size) :
    handle env schedule bytes closes = meant env bytes closes pos ∧
        pos + 4 ≤ maxHead + size ∨
      handle env schedule bytes closes = headTooLarge ∧ maxHead + 1 < pos + 4 := by
  have hlong := findHeadEnd_le hend
  have hne : bytes ≠ [] := by
    rintro rfl
    cases hend
  cases hscan : scan chunk headVerdict schedule 0 [] bytes with
  | none =>
    have hquiet := scan_eq_none (by decide) hne hscan
    rw [List.nil_append, headVerdict, hend] at hquiet
    cases hquiet
  | some stop =>
    obtain ⟨hall, hverdict, before, j, hbefore, hpre, hpiece⟩ := scan_eq_some hscan
    rw [List.nil_append] at hall
    have htake : stop.buf = bytes.take stop.buf.length := by
      rw [← hall, List.take_left]
    rw [headVerdict] at hverdict
    split at hverdict
    · next pos' hpos =>
      have hsame : pos' = pos := by
        have happend := findHeadEnd_append hpos stop.left
        rw [hall, hend] at happend
        exact (Option.some.inj happend).symm
      subst hsame
      refine .inl ⟨handle_of_found hscan (Option.some.inj hverdict).symm hall hpos, ?_⟩
      have hshort : before.length ≤ maxHead := by
        rcases hbefore with rfl | hbefore
        · exact Nat.zero_le _
        · rw [headVerdict] at hbefore
          split at hbefore
          · cases hbefore
          · split at hbefore
            · cases hbefore
            · next hle => exact not_lt.mp hle
      have hlast := hsize j
      have hle := findHeadEnd_le hpos
      omega
    · next hnone =>
      split at hverdict
      · next hlarge =>
        refine .inr ⟨?_, ?_⟩
        · simp only [handle, hscan, ← Option.some.inj hverdict, headTooLarge]
        · by_contra hsmall
          have hfound := findHeadEnd_take hend (n := stop.buf.length) (by omega)
          rw [← htake, hnone] at hfound
          cases hfound
      · cases hverdict

/-- Without the end of a head nothing is acted on. -/
theorem action_of_no_end (hend : findHeadEnd bytes = none) :
    (handle env schedule bytes closes).action = none := by
  unfold handle
  cases hscan : scan chunk headVerdict schedule 0 [] bytes with
  | none => rfl
  | some stop =>
    obtain ⟨hall, hverdict, -⟩ := scan_eq_some hscan
    rw [List.nil_append] at hall
    rw [headVerdict] at hverdict
    split at hverdict
    · next pos hpos =>
      have happend := findHeadEnd_append hpos stop.left
      rw [hall, hend] at happend
      cases happend
    · split at hverdict
      · simp only [← Option.some.inj hverdict]
        rfl
      · cases hverdict

/-- Byte by byte a head that is too large is not read. -/
theorem handle_single {pos : Nat} (hend : findHeadEnd bytes = some pos)
    (hlarge : maxHead + 1 < pos + 4) :
    handle env (fun _ ↦ 0) bytes closes = headTooLarge := by
  have hsize : ∀ k, pieceSize chunk (fun _ ↦ 0) k ≤ 1 := fun _ ↦ Nat.min_le_right _ _
  rcases handle_cases hend hsize with ⟨-, hsmall⟩ | ⟨hhandle, -⟩
  · omega
  · exact hhandle

/-- Before the end of the head nothing is said of a buffer within the limit. -/
theorem headVerdict_take {pos n : Nat} (hend : findHeadEnd bytes = some pos) (hn : n < pos + 4)
    (hlimit : n ≤ maxHead) : headVerdict (bytes.take n) = none := by
  have hnone : findHeadEnd (bytes.take n) = none := by
    by_contra hsome
    obtain ⟨pos', hpos⟩ := Option.ne_none_iff_exists'.mp hsome
    have hle := findHeadEnd_le hpos
    have happend := findHeadEnd_append hpos (bytes.drop n)
    rw [List.take_append_drop, hend] at happend
    rw [List.length_take, ← Option.some.inj happend] at hle
    omega
  rw [headVerdict, hnone]
  refine if_neg ?_
  rw [List.length_take]
  omega

/-- In full pieces a head is read that is too large by less than a piece. -/
theorem handle_full {pos : Nat} (hend : findHeadEnd bytes = some pos)
    (hfits : pos + 4 ≤ maxHead + chunk) :
    handle env (fun _ ↦ chunk) bytes closes = meant env bytes closes pos := by
  by_cases hlarge : maxHead + 1 < pos + 4
  · have hlong := findHeadEnd_le hend
    have hpiece : ∀ k, pieceSize chunk (fun _ ↦ chunk) k = chunk := fun _ ↦ rfl
    have hmul : chunk * 8 = maxHead := rfl
    have hleft : bytes.drop maxHead ≠ [] := by
      rw [Ne, List.drop_eq_nil_iff]
      omega
    have hlast : bytes.take maxHead ++ (bytes.drop maxHead).take chunk =
        bytes.take (maxHead + chunk) :=
      List.take_add.symm
    have hfound : findHeadEnd (bytes.take (maxHead + chunk)) = some pos :=
      findHeadEnd_take hend hfits
    have hscan : scan chunk headVerdict (fun _ ↦ chunk) 0 [] bytes =
        some ⟨.found pos, bytes.take (maxHead + chunk), (bytes.drop maxHead).drop chunk, 9⟩ := by
      rw [scan_full (by decide) hpiece bytes 8 (by omega)
        fun n hn ↦ headVerdict_take hend (by omega) (by omega), hmul, scan,
        if_neg (not_or.mpr ⟨hleft, by decide⟩)]
      simp only [hpiece, hlast, headVerdict, hfound]
    refine handle_of_found hscan rfl ?_ hfound
    rw [List.drop_drop, List.take_append_drop]
  · rcases handle_cases hend (pieceSize_le chunk fun _ ↦ chunk) with ⟨hhandle, -⟩ | ⟨-, hlarge'⟩
    · exact hhandle
    · exact absurd hlarge' hlarge

/-! ### What was sent is what is acted on -/

/-- A request that is carried to a session or the pool. -/
def Request.carried : Request → Bool
  | callback _ _ | pool _ _ _ _ => true
  | page _ | api _ _ _ => false

/-- The declared length of the body behind a head that ends at `pos`. -/
def declared (bytes : Bytes) (pos : Nat) : Nat := (readHead (bytes.take pos)).contentLength

/-- The head and all bytes of the body are there, and the request is made of these. -/
def Complete (env : Env) (bytes : Bytes) (request : Request) : Prop :=
  ∃ pos family, findHeadEnd bytes = some pos ∧
    route env (readHead (bytes.take pos)) = .read family ∧
    declared bytes pos ≤ (bytes.drop (pos + 4)).length ∧
    (answer env (readHead (bytes.take pos))
      ((bytes.drop (pos + 4)).take (declared bytes pos)) family).action = some request

/-- What is acted on is the same however the bytes come, and it is complete. -/
def Faithful (env : Env) (bytes : Bytes) (closes : Bool) : Prop :=
  (∀ schedule schedule', (handle env schedule bytes closes).action =
    (handle env schedule' bytes closes).action) ∧
  ∀ schedule request, (handle env schedule bytes closes).action = some request →
    request.carried = true → Complete env bytes request

/-- The head is no larger than the limit, or by more than a piece, and the client does not close
before the declared length of a body that is carried; or the request is refused in any case. -/
def Whole (env : Env) (bytes : Bytes) (closes : Bool) : Prop :=
  ∀ pos, findHeadEnd bytes = some pos → pos + 4 ≤ maxHead + chunk →
    ∀ request, (meant env bytes closes pos).action = some request →
      pos + 4 ≤ maxHead + 1 ∧
        (request.carried = true → declared bytes pos ≤ (bytes.drop (pos + 4)).length)

/-- Without a body a request is refused or for a page. -/
theorem not_carried_of_done {head : Head} {handled : Handled}
    (hroute : route env head = .done handled) {request : Request}
    (hacted : handled.action = some request) : request.carried = false := by
  unfold route at hroute
  split at hroute
  · split at hroute
    · cases hroute
      cases hacted
      rfl
    · cases hroute
      cases hacted
  · split at hroute
    · split at hroute
      · cases hroute
        cases hacted
      · cases hroute
    · split at hroute
      · split at hroute
        · cases hroute
          cases hacted
        · split at hroute
          · cases hroute
            cases hacted
          · cases hroute
      · split at hroute
        · cases hroute
          cases hacted
        · split at hroute
          · cases hroute
            cases hacted
          · cases hroute

/-- A request that is acted on is complete when its body has the declared length. -/
theorem complete_of_declared {pos : Nat} (hend : findHeadEnd bytes = some pos) {request : Request}
    (hacted : (meant env bytes closes pos).action = some request)
    (hcarried : request.carried = true)
    (hlength : declared bytes pos ≤ (bytes.drop (pos + 4)).length) :
    Complete env bytes request := by
  unfold meant at hacted
  cases hroute : route env (readHead (bytes.take pos)) with
  | done handled =>
    simp only [hroute] at hacted
    rw [not_carried_of_done hroute hacted] at hcarried
    cases hcarried
  | read family =>
    simp only [hroute] at hacted
    rw [if_neg fun h ↦ absurd h.1 (not_lt.mpr hlength)] at hacted
    exact ⟨pos, family, hend, hroute, hlength, hacted⟩

/-- What a client sent is what is acted on just if its request is whole. -/
theorem faithful_iff_whole (env : Env) (bytes : Bytes) (closes : Bool) :
    Faithful env bytes closes ↔ Whole env bytes closes := by
  constructor
  · rintro ⟨hsame, hcomplete⟩ pos hend hfits request hacted
    have hfull : (handle env (fun _ ↦ chunk) bytes closes).action = some request := by
      rw [handle_full hend hfits, hacted]
    constructor
    · by_contra hlarge
      rw [hsame (fun _ ↦ chunk) (fun _ ↦ 0), handle_single hend (not_le.mp hlarge)] at hfull
      cases hfull
    · intro hcarried
      obtain ⟨pos', family, hend', -, hlength, -⟩ := hcomplete _ _ hfull hcarried
      rw [hend] at hend'
      cases hend'
      exact hlength
  · intro hwhole
    cases hend : findHeadEnd bytes with
    | none =>
      refine ⟨fun _ _ ↦ ?_, fun _ request hacted ↦ ?_⟩
      · rw [action_of_no_end hend, action_of_no_end hend]
      · rw [action_of_no_end hend] at hacted
        cases hacted
    | some pos =>
      by_cases hacts : pos + 4 ≤ maxHead + chunk ∧ (meant env bytes closes pos).action ≠ none
      · obtain ⟨request, hrequest⟩ := Option.ne_none_iff_exists'.mp hacts.2
        obtain ⟨hsmall, hlength⟩ := hwhole pos hend hacts.1 request hrequest
        have hhandle : ∀ schedule,
            handle env schedule bytes closes = meant env bytes closes pos := by
          intro schedule
          rcases handle_cases hend (pieceSize_le chunk schedule) with ⟨hhandle, -⟩ | ⟨-, hlarge⟩
          · exact hhandle
          · omega
        refine ⟨fun _ _ ↦ by rw [hhandle, hhandle], fun _ request' hacted hcarried ↦ ?_⟩
        rw [hhandle, hrequest] at hacted
        cases hacted
        exact complete_of_declared hend hrequest hcarried (hlength hcarried)
      · have hnone : ∀ schedule, (handle env schedule bytes closes).action = none := by
          intro schedule
          rcases handle_cases hend (pieceSize_le chunk schedule) with
            ⟨hhandle, hfits⟩ | ⟨hhandle, -⟩
          · rw [hhandle]
            by_contra hsome
            exact hacts ⟨hfits, hsome⟩
          · rw [hhandle]
            rfl
        refine ⟨fun _ _ ↦ by rw [hnone, hnone], fun _ request hacted ↦ ?_⟩
        rw [hnone] at hacted
        cases hacted

/-- What is consulted for the two requests below. -/
def asciiEnv : Env := ⟨.ascii, fun _ ↦ none, fun _ ↦ none⟩

/-- A callback that declares nine bytes and has the first five of them. -/
def halfCallback : Bytes :=
  "POST /callback/mira HTTP/1.1\r\nContent-Length: 9\r\n\r\ndo it".toList.map
    fun c ↦ c.toNat.toUInt8

/-- The five bytes are acted on. -/
theorem half_acted : (handle asciiEnv (fun _ ↦ 0) halfCallback true).action =
      some (.callback ⟨"mira".toList, none, none⟩ "do it".toList) ∧
    declared halfCallback 47 = 9 ∧ (halfCallback.drop (47 + 4)).length = 5 := by
  have hend : findHeadEnd halfCallback = some 47 := by decide +kernel
  have hmeant : (meant asciiEnv halfCallback true 47).action =
      some (.callback ⟨"mira".toList, none, none⟩ "do it".toList) := by
    decide +kernel
  refine ⟨?_, by decide +kernel, by decide +kernel⟩
  rcases handle_cases hend (pieceSize_le chunk fun _ ↦ 0) with ⟨hhandle, -⟩ | ⟨-, hlarge⟩
  · rw [hhandle, hmeant]
  · exact absurd hlarge (by decide)

end Claudebase.Callback
