import Claudebase.Base.Run
import Claudebase.Base.Split

/-!
# The address of a daemon

`src/daemon/remote.rs:33–38,415–463`. An address is a URL with the host, the port, the pin of the
certificate and the token. Reading one trims the text, cuts host and port apart at the last
colon, and takes brackets off the host; writing one puts brackets round a host with a colon.
-/

namespace Claudebase.Address
open Claudebase.Base

/-- `SCHEME`. -/
def scheme : List Char := "claudebase://".toList

/-- `DEFAULT_PORT`. -/
def defaultPort : Nat := 8586

/-- `Remote`, `src/daemon/remote.rs:417`. -/
structure Remote where
  host : List Char
  port : Nat
  pin : List Char
  token : List Char
  deriving DecidableEq

/-- Decimal digits that fit 16 bits. -/
def parseDigits (ds : List Char) : Option Nat :=
  if ds ≠ [] ∧ ds.all isAsciiDigit = true ∧ digitsValue ds < 2 ^ 16 then some (digitsValue ds)
  else none

/-- `str::parse::<u16>`. -/
def parseU16 : List Char → Option Nat
  | '+' :: ds => parseDigits ds
  | ds => parseDigits ds

/-- The host and the port of an authority, brackets and all. -/
def readAuthority (authority : List Char) : Except String (List Char × Nat) :=
  match splitAtLast ':' authority with
  | some (h, p) =>
    if h.getLast? ≠ some ']' ∨ h.head? = some '[' then
      match parseU16 p with
      | some port => .ok (h, port)
      | none => .error s!"`{String.ofList p}` is not a port"
    else .ok (authority, defaultPort)
  | none => .ok (authority, defaultPort)

/-- A host without its brackets. -/
def unbracket (host : List Char) : List Char :=
  (host.dropWhile (· = '[')).rdropWhile (· = ']')

/-- One pair of the query: the pin and the token so far. -/
def readPair (found : Option (List Char) × Option (List Char)) (pair : List Char) :
    Option (List Char) × Option (List Char) :=
  match splitAtFirst ['='] pair with
  | some (key, v) =>
    if key = "pin".toList then (some v, found.2)
    else if key = "token".toList then (found.1, some v)
    else found
  | none => found

/-- The pin and the token of a query. -/
def readQuery (query : List Char) : Option (List Char) × Option (List Char) :=
  (query.splitOn '&').foldl readPair (none, none)

/-- `char::is_ascii_hexdigit`. -/
def isHexDigit (c : Char) : Bool :=
  isAsciiDigit c || ('a' ≤ c && c ≤ 'f') || ('A' ≤ c && c ≤ 'F')

/-- `sha256:` and 64 hexadecimal digits. -/
def isPin (pin : List Char) : Bool :=
  match pin.dropPrefix? "sha256:".toList with
  | some digits => digits.length = 64 && digits.all isHexDigit
  | none => false

/-- A remote from the parts of its URL. -/
def readParts (authority query : List Char) : Except String Remote := do
  let (host, port) ← readAuthority (authority.rdropWhile (· = '/'))
  let host := unbracket host
  if host = [] then .error "the URL names no host"
  else
    match readQuery query with
    | (none, _) => .error "the URL has no pin=sha256:…"
    | (some pin, token) =>
      if isPin pin = true then
        match token.filter (· ≠ []) with
        | none => .error "the URL has no token=…"
        | some token => .ok ⟨host, port, pin.map Char.toLower, token⟩
      else .error "pin must be sha256:<64 hex digits>"

/-- `Remote::parse`. -/
def parse (s : List Char) : Except String Remote :=
  match (trim s).dropPrefix? scheme with
  | none => .error s!"a daemon URL starts with {String.ofList scheme}"
  | some rest =>
    match splitAtFirst ['?'] rest with
    | none => .error "the URL has no ?pin=…&token=…"
    | some (authority, query) => readParts authority query

/-- `Remote::url`. -/
def Remote.url (r : Remote) : List Char :=
  let host := if ':' ∈ r.host then '[' :: r.host ++ [']'] else r.host
  scheme ++ host ++ ':' :: decimal r.port ++ "?pin=".toList ++ r.pin ++ "&token=".toList ++ r.token

/-! ### What is read -/

/-- What reading makes of a URL: a host without brackets at its ends, nowhere a separator, a port
of 16 bits, a pin in lower case. -/
structure Remote.Read (r : Remote) : Prop where
  host : r.host ≠ []
  opens : r.host.head? ≠ some '['
  closes : r.host.getLast? ≠ some ']'
  plain : '?' ∉ r.host
  port : r.port < 2 ^ 16
  pin : isPin r.pin = true
  lower : r.pin.map Char.toLower = r.pin
  token : r.token ≠ []
  single : '&' ∉ r.token

/-- A port is read back. -/
theorem parseU16_decimal {n : Nat} (h : n < 2 ^ 16) : parseU16 (decimal n) = some n := by
  have hdigits : ∀ c ∈ decimal n, isAsciiDigit c = true := fun c ↦ isAsciiDigit_of_mem_decimal
  have hparse : parseDigits (decimal n) = some n := by
    have hlt : digitsValue (decimal n) < 2 ^ 16 := by
      rw [digitsValue_decimal]
      exact h
    unfold parseDigits
    rw [if_pos ⟨decimal_ne_nil n, List.all_eq_true.mpr hdigits, hlt⟩, digitsValue_decimal]
  unfold parseU16
  split
  · next ds heq =>
    have hplus := hdigits '+' (heq ▸ List.mem_cons_self)
    cases hplus
  · exact hparse

theorem lt_of_parseU16 {s : List Char} {n : Nat} (h : parseU16 s = some n) : n < 2 ^ 16 := by
  have hdigits : ∀ ds, parseDigits ds = some n → n < 2 ^ 16 := by
    intro ds hds
    obtain ⟨⟨-, -, hlt⟩, heq⟩ := Option.ite_none_right_eq_some.mp hds
    exact Option.some.inj heq ▸ hlt
  unfold parseU16 at h
  split at h
  · exact hdigits _ h
  · exact hdigits _ h

/-- Host and port are cut apart at the last colon, unless the host ends in a bracket only. -/
theorem readAuthority_port {host : List Char} {port : Nat} (hport : port < 2 ^ 16)
    (hhost : host.getLast? ≠ some ']' ∨ host.head? = some '[') :
    readAuthority (host ++ ':' :: decimal port) = .ok (host, port) := by
  have hcolon : ':' ∉ decimal (port : Int) := fun h ↦ by
    have hdigit := isAsciiDigit_of_mem_decimal h
    cases hdigit
  unfold readAuthority
  rw [splitAtLast_eq_some_iff.mpr ⟨rfl, hcolon⟩]
  dsimp only
  rw [if_pos hhost, parseU16_decimal hport]

/-- Brackets inside stay. -/
theorem unbracket_eq {host : List Char} (hopens : host.head? ≠ some '[')
    (hcloses : host.getLast? ≠ some ']') : unbracket host = host := by
  unfold unbracket
  rw [dropWhile_ne hopens, rdropWhile_ne hcloses]

/-- Brackets round a host are taken off. -/
theorem unbracket_brackets {host : List Char} (hhost : host ≠ []) (hopens : host.head? ≠ some '[')
    (hcloses : host.getLast? ≠ some ']') : unbracket ('[' :: host ++ [']']) = host := by
  have hopens' : (host ++ [']']).head? ≠ some '[' := by
    rw [List.head?_append_of_ne_nil _ hhost]
    exact hopens
  unfold unbracket
  rw [List.cons_append, List.dropWhile_cons_of_pos (by decide), dropWhile_ne hopens',
    List.rdropWhile_concat_pos _ _ _ (by decide), rdropWhile_ne hcloses]

/-! ### The query -/

/-- The value of a pair, if its key is the one. -/
def valueOf (key pair : List Char) : Option (List Char) := pair.dropPrefix? (key ++ ['='])

/-- The value of the last pair with a key. -/
def lastValue (key : List Char) (pairs : List (List Char)) : Option (List Char) :=
  pairs.reverse.findSome? (valueOf key)

theorem valueOf_eq_some_iff {key pair v : List Char} :
    valueOf key pair = some v ↔ pair = key ++ '=' :: v := by
  unfold valueOf
  rw [List.dropPrefix?_eq_some_iff]
  constructor
  · rintro ⟨start, rfl, hstart⟩
    rw [eq_of_beq hstart, List.append_assoc, List.singleton_append]
  · rintro rfl
    exact ⟨key ++ ['='], by simp, BEq.rfl⟩

@[simp] theorem valueOf_append (key v : List Char) : valueOf key (key ++ '=' :: v) = some v :=
  valueOf_eq_some_iff.mpr rfl

theorem readPair_eq (found : Option (List Char) × Option (List Char)) (pair : List Char) :
    readPair found pair = ((valueOf "pin".toList pair).or found.1,
      (valueOf "token".toList pair).or found.2) := by
  have hother : ∀ key : List Char, '=' ∉ key → ∀ k v, '=' ∉ k → key ≠ k →
      valueOf key (k ++ '=' :: v) = none := by
    intro key hkey k v hk hne
    by_contra hsome
    obtain ⟨v', hv'⟩ := Option.ne_none_iff_exists'.mp hsome
    have hcut := @splitAtFirst_append '=' k v hk
    rw [valueOf_eq_some_iff.mp hv', splitAtFirst_append hkey] at hcut
    cases hcut
    exact hne rfl
  unfold readPair
  split
  · next key v hcut =>
    obtain ⟨rfl, hkey⟩ := splitAtFirst_eq_some_iff.mp hcut
    split
    · next hpin =>
      subst hpin
      rw [valueOf_append, hother "token".toList (by decide) _ _ hkey (by decide)]
      rfl
    · next hpin =>
      rw [hother "pin".toList (by decide) _ _ hkey (Ne.symm hpin)]
      split
      · next htoken =>
        subst htoken
        rw [valueOf_append]
        rfl
      · next htoken =>
        rw [hother "token".toList (by decide) _ _ hkey (Ne.symm htoken)]
        rfl
  · next hcut =>
    have hnone : ∀ key, valueOf key pair = none := by
      intro key
      by_contra hsome
      obtain ⟨v, hv⟩ := Option.ne_none_iff_exists'.mp hsome
      rw [valueOf_eq_some_iff.mp hv] at hcut
      exact splitAtFirst_eq_none_iff.mp hcut (List.mem_append_right _ List.mem_cons_self)
    rw [hnone, hnone]
    rfl

theorem lastValue_concat (key : List Char) (pairs : List (List Char)) (pair : List Char) :
    lastValue key (pairs ++ [pair]) = (valueOf key pair).or (lastValue key pairs) := by
  unfold lastValue
  rw [List.reverse_append, List.reverse_singleton, List.singleton_append, List.findSome?_cons]
  cases valueOf key pair <;> rfl

/-- The last pin and the last token of a query count. -/
theorem readQuery_eq (query : List Char) :
    readQuery query = (lastValue "pin".toList (query.splitOn '&'),
      lastValue "token".toList (query.splitOn '&')) := by
  unfold readQuery
  generalize query.splitOn '&' = pairs
  induction pairs using List.reverseRecOn with
  | nil => rfl
  | append_singleton pairs pair ih =>
    rw [List.foldl_append, ih, List.foldl_cons, List.foldl_nil, readPair_eq, lastValue_concat,
      lastValue_concat]

/-- A query that ends with the pin and the token. -/
theorem readQuery_ends {extra : List (List Char)} {pin token : List Char}
    (hextra : ∀ pair ∈ extra, '&' ∉ pair) (hpin : '&' ∉ pin) (htoken : '&' ∉ token) :
    readQuery (['&'].intercalate (extra ++ ["pin=".toList ++ pin, "token=".toList ++ token])) =
      (some pin, some token) := by
  have hpairs : ∀ pair ∈ extra ++ ["pin=".toList ++ pin, "token=".toList ++ token],
      '&' ∉ pair := by
    intro pair hpair
    simp only [List.mem_append, List.mem_cons, List.not_mem_nil, or_false] at hpair
    rcases hpair with hpair | rfl | rfl
    · exact hextra pair hpair
    · simpa using hpin
    · simpa using htoken
  have hvalue : ∀ v : List Char, valueOf "token".toList ("token=".toList ++ v) = some v ∧
      valueOf "pin".toList ("token=".toList ++ v) = none ∧
      valueOf "pin".toList ("pin=".toList ++ v) = some v := by
    intro v
    exact ⟨valueOf_append "token".toList v, rfl, valueOf_append "pin".toList v⟩
  obtain ⟨htokenValue, hother, -⟩ := hvalue token
  obtain ⟨-, -, hpinValue⟩ := hvalue pin
  rw [readQuery_eq, List.splitOn_intercalate _ hpairs (by simp)]
  have hsplit : extra ++ ["pin=".toList ++ pin, "token=".toList ++ token] =
      extra ++ ["pin=".toList ++ pin] ++ ["token=".toList ++ token] := by simp
  rw [hsplit, lastValue_concat, lastValue_concat, lastValue_concat, hother, hpinValue, htokenValue]
  rfl

/-! ### The pin -/

theorem isPin_iff {pin : List Char} : isPin pin = true ↔
    ∃ digits, pin = "sha256:".toList ++ digits ∧ digits.length = 64 ∧
      ∀ c ∈ digits, isHexDigit c = true := by
  unfold isPin
  constructor
  · intro h
    split at h
    · next digits hdigits =>
      obtain ⟨start, hpin, hstart⟩ := List.dropPrefix?_eq_some_iff.mp hdigits
      rw [eq_of_beq hstart] at hpin
      rw [Bool.and_eq_true, decide_eq_true_eq, List.all_eq_true] at h
      exact ⟨digits, hpin, h⟩
    · cases h
  · rintro ⟨digits, rfl, hlength, hall⟩
    rw [List.dropPrefix?_append_of_beq _ BEq.rfl]
    dsimp only
    rw [hlength, List.all_eq_true.mpr hall]
    rfl

/-- A hexadecimal digit in lower case is one. -/
theorem hexDigit_toLower {c : Char} (h : isHexDigit c = true) :
    c ≠ '&' ∧ isHexDigit c.toLower = true ∧ c.toLower.toLower = c.toLower := by
  have hall : ∀ n < 128, isHexDigit (Char.ofNat n) = true → Char.ofNat n ≠ '&' ∧
      isHexDigit (Char.ofNat n).toLower = true ∧
      (Char.ofNat n).toLower.toLower = (Char.ofNat n).toLower := by
    decide +kernel
  have hlt : c.toNat < 128 := by
    have hle : ∀ d : Char, d.toNat < 128 → c ≤ d → c.toNat < 128 := fun d hd hc ↦
      lt_of_le_of_lt (UInt32.le_iff_toNat_le.mp hc) hd
    simp only [isHexDigit, isAsciiDigit, Bool.or_eq_true, Bool.and_eq_true, decide_eq_true_eq] at h
    rcases h with (⟨-, h⟩ | ⟨-, h⟩) | ⟨-, h⟩
    · exact hle '9' (by decide) h
    · exact hle 'f' (by decide) h
    · exact hle 'F' (by decide) h
  have hc := hall c.toNat hlt
  rw [Char.ofNat_toNat] at hc
  exact hc h

/-- A pin in lower case is one, and stays. -/
theorem isPin_toLower {pin : List Char} (h : isPin pin = true) :
    '&' ∉ pin ∧ isPin (pin.map Char.toLower) = true ∧
      (pin.map Char.toLower).map Char.toLower = pin.map Char.toLower := by
  obtain ⟨digits, rfl, hlength, hall⟩ := isPin_iff.mp h
  have hstart : "sha256:".toList.map Char.toLower = "sha256:".toList := by decide
  refine ⟨?_, ?_, ?_⟩
  · rw [List.mem_append, not_or]
    exact ⟨by decide, fun hc ↦ (hexDigit_toLower (hall _ hc)).1 rfl⟩
  · rw [List.map_append, hstart]
    refine isPin_iff.mpr ⟨_, rfl, by rw [List.length_map, hlength], ?_⟩
    intro c hc
    obtain ⟨d, hd, rfl⟩ := List.mem_map.mp hc
    exact (hexDigit_toLower (hall d hd)).2.1
  · rw [List.map_append, List.map_append, hstart, hstart, List.map_map]
    congr 1
    exact List.map_congr_left fun c hc ↦ (hexDigit_toLower (hall c hc)).2.2

/-! ### Reading the parts -/

/-- A text that begins with the scheme is trimmed at its end only, at most down to what stays. -/
theorem parse_token {authority query token : List Char} (h : '?' ∉ authority) :
    parse (scheme ++ authority ++ '?' :: query ++ '=' :: token) =
      readParts authority (query ++ '=' :: token.rdropWhile isWhitespace) := by
  have hfront : (scheme ++ authority ++ '?' :: query ++ '=' :: token).dropWhile isWhitespace =
      scheme ++ authority ++ '?' :: query ++ '=' :: token := rfl
  have htrim : trim (scheme ++ authority ++ '?' :: query ++ '=' :: token) =
      scheme ++ (authority ++ '?' :: (query ++ '=' :: token.rdropWhile isWhitespace)) := by
    show ((scheme ++ authority ++ '?' :: query ++ '=' :: token).dropWhile isWhitespace).rdropWhile
      isWhitespace = _
    rw [hfront, rdropWhile_append_cons (by decide)]
    simp only [List.append_assoc, List.cons_append]
  unfold parse
  rw [htrim, List.dropPrefix?_append_of_beq _ BEq.rfl]
  dsimp only
  rw [splitAtFirst_append h]

/-- The remote of parts that can be read, unless the token is missing. -/
theorem readParts_eq {authority query host pin token : List Char} {port : Nat}
    (hauthority : readAuthority (authority.rdropWhile (· = '/')) = .ok (host, port))
    (hhost : unbracket host ≠ []) (hquery : readQuery query = (some pin, some token))
    (hpin : isPin pin = true) :
    readParts authority query =
      if token = [] then .error "the URL has no token=…"
      else .ok ⟨unbracket host, port, pin.map Char.toLower, token⟩ := by
  unfold readParts
  rw [hauthority]
  show (if unbracket host = [] then _ else _) = _
  rw [if_neg hhost, hquery]
  dsimp only
  rw [if_pos hpin]
  by_cases htoken : token = []
  · rw [if_pos htoken, Option.filter_some, if_neg (by simpa using htoken)]
  · rw [if_neg htoken, Option.filter_some, if_pos (by simpa using htoken)]

/-- What a URL was read as. -/
theorem exists_of_readParts {authority query : List Char} {r : Remote}
    (h : readParts authority query = .ok r) :
    ∃ host pin, readAuthority (authority.rdropWhile (· = '/')) = .ok (host, r.port) ∧
      r.host = unbracket host ∧ r.host ≠ [] ∧ readQuery query = (some pin, some r.token) ∧
      isPin pin = true ∧ r.pin = pin.map Char.toLower ∧ r.token ≠ [] := by
  unfold readParts at h
  obtain ⟨⟨host, port⟩, hauthority, h⟩ := bind_eq_ok.mp h
  dsimp only at h
  split at h
  · cases h
  · next hhost =>
    split at h
    · cases h
    · next pin token hquery =>
      split at h
      · next hpin =>
        split at h
        · cases h
        · next token' htoken =>
          cases h
          obtain ⟨htoken, hne⟩ := Option.filter_eq_some_iff.mp htoken
          rw [htoken] at hquery
          exact ⟨host, pin, hauthority, rfl, hhost, hquery, hpin, rfl, of_decide_eq_true hne⟩
      · cases h

/-- A text ends in white space. -/
def endsBlank (s : List Char) : Bool := s.getLast?.any isWhitespace

theorem intercalate_concat_append (sep a b : List Char) (xs : List (List Char)) :
    sep.intercalate (xs ++ [a ++ b]) = sep.intercalate (xs ++ [a]) ++ b := by
  induction xs with
  | nil => simp
  | cons x xs ih =>
    rw [List.cons_append, List.cons_append, List.intercalate_cons_of_ne_nil (by simp),
      List.intercalate_cons_of_ne_nil (by simp), ih, List.append_assoc, List.append_assoc,
      List.append_assoc]

/-- A URL whose token comes last is read without the white space at the end of the token. -/
theorem parse_query {authority pin token : List Char} {extra : List (List Char)}
    (hplain : '?' ∉ authority) :
    parse (scheme ++ authority ++ '?' ::
        ['&'].intercalate (extra ++ ["pin=".toList ++ pin, "token=".toList ++ token])) =
      readParts authority (['&'].intercalate
        (extra ++ ["pin=".toList ++ pin, "token=".toList ++ token.rdropWhile isWhitespace])) := by
  have hquery : ∀ t : List Char,
      ['&'].intercalate (extra ++ ["pin=".toList ++ pin, "token=".toList ++ t]) =
        ['&'].intercalate (extra ++ ["pin=".toList ++ pin] ++ ["token".toList]) ++ '=' :: t := by
    intro t
    rw [← intercalate_concat_append]
    simp
  rw [hquery, ← List.cons_append, ← List.append_assoc, parse_token hplain, ← hquery]

theorem parse_parts {authority host pin token : List Char} {port : Nat} {extra : List (List Char)}
    (hplain : '?' ∉ authority)
    (hauthority : readAuthority (authority.rdropWhile (· = '/')) = .ok (host, port))
    (hhost : unbracket host ≠ []) (hextra : ∀ pair ∈ extra, '&' ∉ pair) (hpin : isPin pin = true)
    (htoken : '&' ∉ token) :
    parse (scheme ++ authority ++ '?' ::
        ['&'].intercalate (extra ++ ["pin=".toList ++ pin, "token=".toList ++ token])) =
      if token.rdropWhile isWhitespace = [] then .error "the URL has no token=…"
      else .ok ⟨unbracket host, port, pin.map Char.toLower, token.rdropWhile isWhitespace⟩ := by
  have hpre : token.rdropWhile isWhitespace <+: token := List.rdropWhile_prefix _ _
  rw [parse_query hplain]
  exact readParts_eq hauthority hhost (readQuery_ends hextra (isPin_toLower hpin).1
    fun h ↦ htoken (hpre.subset h)) hpin

/-- It is read as its parts exactly when the token does not end in white space. -/
theorem parse_parts_iff {authority host pin token : List Char} {port : Nat}
    {extra : List (List Char)} (hplain : '?' ∉ authority)
    (hauthority : readAuthority (authority.rdropWhile (· = '/')) = .ok (host, port))
    (hhost : unbracket host ≠ []) (hextra : ∀ pair ∈ extra, '&' ∉ pair) (hpin : isPin pin = true)
    (htoken : '&' ∉ token) (hne : token ≠ []) :
    parse (scheme ++ authority ++ '?' ::
        ['&'].intercalate (extra ++ ["pin=".toList ++ pin, "token=".toList ++ token])) =
      .ok ⟨unbracket host, port, pin.map Char.toLower, token⟩ ↔ endsBlank token = false := by
  rw [parse_parts hplain hauthority hhost hextra hpin htoken, endsBlank, ← rdropWhile_eq_self_iff]
  constructor
  · intro h
    split at h
    · cases h
    · exact congrArg Remote.token (Except.ok.inj h)
  · intro h
    rw [h, if_neg hne]

/-! ### Written and read -/

/-- What reading makes of a URL. -/
theorem read_of_parse {s : List Char} {r : Remote} (h : parse s = .ok r) : r.Read := by
  unfold parse at h
  split at h
  · cases h
  · next rest _ =>
    split at h
    · cases h
    · next authority query hcut =>
      obtain ⟨host, pin, hauthority, hhost, hne, hquery, hpin, hlower, htoken⟩ :=
        exists_of_readParts h
      obtain ⟨-, hplain⟩ := splitAtFirst_eq_some_iff.mp hcut
      have htrimmed : authority.rdropWhile (· = '/') <+: authority := List.rdropWhile_prefix _ _
      obtain ⟨hsub, hport⟩ : host ⊆ authority ∧ r.port < 2 ^ 16 := by
        unfold readAuthority at hauthority
        split at hauthority
        · next before after hcolon =>
          obtain ⟨hparts, -⟩ := splitAtLast_eq_some_iff.mp hcolon
          split at hauthority
          · split at hauthority
            · next port hport =>
              cases hauthority
              refine ⟨fun c hc ↦ htrimmed.subset ?_, lt_of_parseU16 hport⟩
              rw [hparts]
              exact List.mem_append_left _ hc
            · cases hauthority
          · obtain ⟨rfl, hport⟩ := Prod.mk.inj (Except.ok.inj hauthority)
            exact ⟨htrimmed.subset, hport ▸ by decide⟩
        · obtain ⟨rfl, hport⟩ := Prod.mk.inj (Except.ok.inj hauthority)
          exact ⟨htrimmed.subset, hport ▸ by decide⟩
      have hfront : unbracket host <+: host.dropWhile (· = '[') := List.rdropWhile_prefix _ _
      obtain ⟨-, hpin', hlower'⟩ := isPin_toLower hpin
      refine ⟨hne, ?_, ?_, ?_, hport, hlower ▸ hpin', hlower ▸ hlower', htoken, ?_⟩
      · rw [hhost] at hne ⊢
        obtain ⟨more, hmore⟩ := hfront
        intro hhead
        have hopen : (host.dropWhile (· = '[')).head? = some '[' := by
          rw [← hmore, List.head?_append_of_ne_nil _ hne]
          exact hhead
        have hstop := List.head?_dropWhile_not (· = '[') host
        rw [hopen] at hstop
        simp at hstop
      · intro hlast
        have hstop := getLast?_rdropWhile (· = ']') (host.dropWhile (· = '['))
        have hlast' : ((host.dropWhile (· = '[')).rdropWhile (· = ']')).getLast? = some ']' := by
          rw [hhost] at hlast
          exact hlast
        rw [hlast'] at hstop
        simp at hstop
      · intro hc
        rw [hhost] at hc
        exact hplain (hsub ((List.dropWhile_sublist _).subset (hfront.subset hc)))
      · intro hc
        rw [readQuery_eq, Prod.mk.injEq] at hquery
        obtain ⟨pair, hpair, hvalue⟩ := List.exists_of_findSome?_eq_some hquery.2
        refine not_mem_of_mem_splitOn (List.mem_reverse.mp hpair) ?_
        rw [valueOf_eq_some_iff.mp hvalue]
        exact List.mem_append_right _ (List.mem_cons_of_mem _ hc)

/-- The URL written for what was read is read as the same, unless its token ends in white
space. -/
theorem Remote.Read.parse_url_iff {r : Remote} (h : r.Read) :
    parse r.url = .ok r ↔ endsBlank r.token = false := by
  have hpin : r.pin.map Char.toLower = r.pin := h.lower
  have hdigits : ∀ c ∈ decimal (r.port : Int), isAsciiDigit c = true :=
    fun c ↦ isAsciiDigit_of_mem_decimal
  obtain ⟨host, hhost, hunbracket, hports, hplain⟩ : ∃ host,
      (if ':' ∈ r.host then '[' :: r.host ++ [']'] else r.host) = host ∧
      unbracket host = r.host ∧ (host.getLast? ≠ some ']' ∨ host.head? = some '[') ∧
      '?' ∉ host := by
    refine ⟨_, rfl, ?_⟩
    split
    · refine ⟨unbracket_brackets h.host h.opens h.closes, Or.inr rfl, ?_⟩
      simpa using h.plain
    · exact ⟨unbracket_eq h.opens h.closes, Or.inl h.closes, h.plain⟩
  have hurl : r.url = scheme ++ (host ++ ':' :: decimal r.port) ++ '?' ::
      ['&'].intercalate ([] ++ ["pin=".toList ++ r.pin, "token=".toList ++ r.token]) := by
    rw [Remote.url, hhost]
    simp [List.intercalate_cons_cons]
  have hlast : (host ++ ':' :: decimal r.port).getLast? ≠ some '/' := by
    rw [List.getLast?_append_of_ne_nil _ (List.cons_ne_nil _ _)]
    intro hslash
    rcases List.mem_cons.mp (List.mem_of_getLast? hslash) with hc | hc
    · cases hc
    · cases hdigits _ hc
  have hauthority : readAuthority ((host ++ ':' :: decimal r.port).rdropWhile (· = '/')) =
      .ok (host, r.port) := by
    rw [rdropWhile_ne hlast]
    exact readAuthority_port h.port hports
  have hquestion : '?' ∉ host ++ ':' :: decimal r.port := by
    rw [List.mem_append, List.mem_cons, not_or, not_or]
    exact ⟨hplain, by decide, fun hc ↦ by cases hdigits _ hc⟩
  have hparts := @parse_parts_iff _ host r.pin r.token r.port [] hquestion hauthority
    (hunbracket ▸ h.host) (fun _ hp ↦ absurd hp List.not_mem_nil) h.pin h.single h.token
  rw [hunbracket, hpin] at hparts
  rw [hurl]
  exact hparts

end Claudebase.Address
