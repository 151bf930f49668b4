import Claudebase.Base.Json
import Claudebase.Base.Split
import Claudebase.Supervisor.Render

/-!
# HTTP requests as they are read

`src/daemon/callback.rs:222–319,573–740`. The head of a request as bytes and as text, what is
named in it, and where the request goes: to a mind map's page, the pool, the public API or a
session.
-/

namespace Claudebase.Callback
open Claudebase.Base Claudebase.Supervisor

/-- The bytes on the wire. -/
abbrev Bytes := List UInt8

/-! ### Bytes as text -/

/-- A character of which some bytes are missing: its number so far, how many are, and the range of
the next one. -/
structure Pending where
  value : Nat
  need : Nat
  low : UInt8
  high : UInt8

/-- What the first byte of a character of several bytes calls for. -/
def leadByte (b : UInt8) : Option Pending :=
  if 0xc2 ≤ b ∧ b ≤ 0xdf then some ⟨b.toNat - 0xc0, 1, 0x80, 0xbf⟩
  else if 0xe0 ≤ b ∧ b ≤ 0xef then
    some ⟨b.toNat - 0xe0, 2, if b = 0xe0 then 0xa0 else 0x80, if b = 0xed then 0x9f else 0xbf⟩
  else if 0xf0 ≤ b ∧ b ≤ 0xf4 then
    some ⟨b.toNat - 0xf0, 3, if b = 0xf0 then 0x90 else 0x80, if b = 0xf4 then 0x8f else 0xbf⟩
  else none

/-- `U+FFFD`. -/
def replacement : Char := '\ufffd'

/-- The text of bytes, from inside a character or between two; what does not become a character is
replaced, as far as it might have been one. -/
def decodeFrom : Option Pending → Bytes → List Char
  | none, [] => []
  | some _, [] => [replacement]
  | state, b :: bs =>
    let fresh :=
      if b < 0x80 then Char.ofNat b.toNat :: decodeFrom none bs
      else
        match leadByte b with
        | some p => decodeFrom (some p) bs
        | none => replacement :: decodeFrom none bs
    match state with
    | none => fresh
    | some p =>
      if p.low ≤ b ∧ b ≤ p.high then
        let value := 64 * p.value + (b.toNat - 0x80)
        if p.need = 1 then Char.ofNat value :: decodeFrom none bs
        else decodeFrom (some ⟨value, p.need - 1, 0x80, 0xbf⟩) bs
      else replacement :: fresh

/-- `String::from_utf8_lossy`. -/
def fromUtf8Lossy (bs : Bytes) : List Char := decodeFrom none bs

/-- `str::lines`. -/
def textLines (s : List Char) : List (List Char) :=
  let pieces := s.splitOn '\n'
  let ended := pieces.dropLast.map fun line ↦ (line.dropSuffix? ['\r']).getD line
  match pieces.getLast? with
  | some [] | none => ended
  | some last => ended ++ [last]

/-- `str::parse::<usize>`. -/
def parseUsize (s : List Char) : Option Nat :=
  let ds := (s.dropPrefix? ['+']).getD s
  if ds ≠ [] ∧ ds.all isAsciiDigit = true ∧ digitsValue ds < 2 ^ 64 then some (digitsValue ds)
  else none

/-! ### The head -/

/-- `b"\r\n\r\n"`. -/
def headMark : Bytes := [13, 10, 13, 10]

/-- `find_head_end`. -/
def findHeadEnd : Bytes → Option Nat
  | [] => none
  | b :: bs => if headMark <+: b :: bs then some 0 else (findHeadEnd bs).map (· + 1)

/-- What is read of a head. -/
structure Head where
  method : List Char
  target : List Char
  token : Option (List Char)
  contentLength : Nat
  deriving DecidableEq

/-- A header line. -/
def Head.header (head : Head) (line : List Char) : Head :=
  match splitAtFirst [':'] line with
  | none => head
  | some (name, value) =>
    let name := (trim name).map Char.toLower
    let value := trim value
    if name = "x-api-token".toList then { head with token := some value }
    else if name = "content-length".toList then
      { head with contentLength := (parseUsize value).getD 0 }
    else head

/-- The request line and the headers. -/
def readHead (bs : Bytes) : Head :=
  let lines := textLines (fromUtf8Lossy bs)
  let parts := splitWhitespace (lines.head?.getD [])
  lines.tail.foldl Head.header ⟨parts.head?.getD [], parts[1]?.getD [], none, 0⟩

/-! ### Target and text of a callback -/

/-- `char::to_digit(16)`, for a byte. -/
def hexValue (b : UInt8) : Option Nat :=
  if 0x30 ≤ b ∧ b ≤ 0x39 then some (b.toNat - 0x30)
  else if 0x41 ≤ b ∧ b ≤ 0x46 then some (b.toNat - 0x41 + 10)
  else if 0x61 ≤ b ∧ b ≤ 0x66 then some (b.toNat - 0x61 + 10)
  else none

/-- The byte two hexadecimal digits stand for. -/
def hexPair : Bytes → Option UInt8
  | hi :: lo :: _ => (hexValue hi).bind fun h ↦ (hexValue lo).map fun l ↦ (16 * h + l).toUInt8
  | _ => none

/-- The bytes of `percent_decode`, where some are skipped first; a `%` without two digits stays. -/
def percentBytes : Nat → Bytes → Bytes
  | _, [] => []
  | skip + 1, _ :: bs => percentBytes skip bs
  | 0, b :: bs =>
    if b = 0x25 then
      match hexPair bs with
      | some v => v :: percentBytes 2 bs
      | none => b :: percentBytes 0 bs
    else if b = 0x2b then 0x20 :: percentBytes 0 bs
    else b :: percentBytes 0 bs

/-- `percent_decode`. -/
def percentDecode (s : List Char) : List Char :=
  fromUtf8Lossy (percentBytes 0 (s.flatMap String.utf8EncodeChar))

/-- `sanitize_label`. -/
def sanitizeLabel (unicode : Unicode) (raw : List Char) : Option String :=
  let cleaned := sanitizeNick unicode (String.ofList raw)
  if cleaned = "unknown" ∧ raw.all (fun c ↦ !unicode.isAlphanumeric c) = true then none
  else some cleaned

/-- The label of a query. -/
def queryLabel (unicode : Unicode) (query : List Char) : Option String :=
  let found := (query.splitOn '&').findSome? fun kv ↦ kv.dropPrefix? "label=".toList
  ((found.map percentDecode).filter (· ≠ [])).bind (sanitizeLabel unicode)

/-- `parse_target`. -/
def parseTarget (unicode : Unicode) (target : List Char) : Option (List Char × Option String) :=
  let (path, query) :=
    match splitAtFirst ['?'] target with
    | some (p, q) => (p, some q)
    | none => (target, none)
  (path.dropPrefix? "/callback/".toList).bind fun rest ↦
    let nick := trimMatches (· = '/') rest
    if nick = [] ∨ '/' ∈ nick then none
    else some (percentDecode nick, query.bind (queryLabel unicode))

/-- `extract_text`. -/
def extractText (parse : List Char → Option Json) (body : List Char) : List Char :=
  let trimmed := body.dropWhile isWhitespace
  if trimmed.head? = some '\x7b' then
    (((parse trimmed).bind fun v ↦ v.str? "text").map String.toList).getD body
  else body

/-- `char::is_control`. -/
def isControl (c : Char) : Bool := c.toNat < 0x20 || (0x7f ≤ c.toNat && c.toNat < 0xa0)

/-- `sanitize_body`. -/
def sanitizeBody (s : List Char) : List Char :=
  s.filter fun c ↦ c = '\n' || c = '\t' || !isControl c

end Claudebase.Callback
