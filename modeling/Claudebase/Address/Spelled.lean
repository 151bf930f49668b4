import Claudebase.Address.Remote

/-!
# Addresses as they are written down

`src/daemon/remote.rs:424–459`. A host name, an IPv4 address or an IPv6 address in brackets, with
or without a port, is read as it is meant, except for two kinds: brackets without a port are cut
apart at a colon inside them, and white space at the end of a token is lost.
-/

namespace Claudebase.Address
open Claudebase.Base

/-- A host as it is written down: a name or an IPv4 address, or an IPv6 address, which goes in
brackets. -/
inductive Host where
  | name (text : List Char) (ne : text ≠ [])
      (plain : ∀ c ∈ text, c ∉ [':', '/', '?', '[', ']'])
  | ipv6 (text : List Char) (colon : ':' ∈ text) (plain : ∀ c ∈ text, c ∉ ['/', '?', '[', ']'])

namespace Host

def text : Host → List Char
  | name text _ _ => text
  | ipv6 text _ _ => text

def spelled : Host → List Char
  | name text _ _ => text
  | ipv6 text _ _ => '[' :: text ++ [']']

def bracketed : Host → Bool
  | name _ _ _ => false
  | ipv6 _ _ _ => true

theorem text_ne_nil (h : Host) : h.text ≠ [] := by
  cases h with
  | name text ne plain => exact ne
  | ipv6 text colon plain => exact List.ne_nil_of_mem colon

theorem plain_text (h : Host) : ∀ c ∈ h.text, c ∉ ['/', '?', '[', ']'] := by
  cases h with
  | name text ne plain => exact fun c hc hmem ↦ plain c hc (List.mem_cons_of_mem _ hmem)
  | ipv6 text colon plain => exact plain

end Host

/-- What a URL is written from: besides host, port, pin and token some slashes after the port, and
other pairs in front of the pin. -/
structure Spelled where
  host : Host
  port : Option (Fin (2 ^ 16))
  slashes : Nat
  extra : List (List Char)
  pin : List Char
  token : List Char
  extra_plain : ∀ pair ∈ extra, '&' ∉ pair
  pin_ok : isPin pin = true
  token_ne : token ≠ []
  token_plain : '&' ∉ token

namespace Spelled

variable (a : Spelled)

/-- The port, if it is written down. -/
def portText : List Char :=
  match a.port with
  | some port => ':' :: decimal port.val
  | none => []

/-- Host and port. -/
def authority : List Char := a.host.spelled ++ a.portText

def url : List Char :=
  scheme ++ (a.authority ++ List.replicate a.slashes '/') ++ '?' ::
    ['&'].intercalate (a.extra ++ ["pin=".toList ++ a.pin, "token=".toList ++ a.token])

/-- What is meant; the digits of a pin are in lower case. -/
def remote : Remote :=
  ⟨a.host.text, (a.port.map Fin.val).getD defaultPort, a.pin.map Char.toLower, a.token⟩

theorem isAsciiDigit_of_mem_portText {c : Char} (hc : c ∈ a.portText) :
    c = ':' ∨ isAsciiDigit c = true := by
  unfold portText at hc
  split at hc
  · exact (List.mem_cons.mp hc).imp_right isAsciiDigit_of_mem_decimal
  · cases hc

/-- Host and port have no slash and no question mark. -/
theorem not_mem_authority {c : Char} (hc : c ∈ ['/', '?']) : c ∉ a.authority := by
  have hdigit : c ≠ ':' ∧ isAsciiDigit c = false ∧ c ≠ '[' ∧ c ≠ ']' ∧
      c ∈ ['/', '?', '[', ']'] ∧ c ∈ [':', '/', '?', '[', ']'] := by
    rcases List.mem_pair.mp hc with rfl | rfl
    · decide
    · decide
  obtain ⟨hcolon, hdigit, hopens, hcloses, hplain, hname⟩ := hdigit
  unfold authority
  rw [List.mem_append, not_or]
  constructor
  · cases a.host with
    | name text ne plain => exact fun h ↦ plain c h hname
    | ipv6 text colon plain =>
      intro h
      rcases List.mem_append.mp h with h | h
      · rcases List.mem_cons.mp h with h | h
        · exact hopens h
        · exact plain c h hplain
      · exact hcloses (List.mem_singleton.mp h)
  · intro h
    rcases a.isAsciiDigit_of_mem_portText h with h | h
    · exact hcolon h
    · rw [hdigit] at h
      cases h

/-- The slashes come off again. -/
theorem rdropWhile_authority :
    (a.authority ++ List.replicate a.slashes '/').rdropWhile (· = '/') = a.authority := by
  have hlast : a.authority.getLast? ≠ some '/' :=
    fun hslash ↦ a.not_mem_authority (by decide) (List.mem_of_getLast? hslash)
  exact rdropWhile_append_replicate hlast a.slashes

/-- Brackets come off the host. -/
theorem unbracket_spelled : unbracket a.host.spelled = a.host.text := by
  have hplain := a.host.plain_text
  have hopens : a.host.text.head? ≠ some '[' :=
    fun h ↦ hplain _ (List.mem_of_mem_head? h) (by decide)
  have hcloses : a.host.text.getLast? ≠ some ']' :=
    fun h ↦ hplain _ (List.mem_of_getLast? h) (by decide)
  cases hhost : a.host with
  | name text ne plain =>
    rw [hhost] at hopens hcloses
    exact unbracket_eq hopens hcloses
  | ipv6 text colon plain =>
    rw [hhost] at hopens hcloses
    exact unbracket_brackets (List.ne_nil_of_mem colon) hopens hcloses

/-- Host and port are read as they are meant, unless there are brackets and no port. -/
theorem readAuthority_authority (h : a.host.bracketed = true → a.port.isSome = true) :
    readAuthority a.authority = .ok (a.host.spelled, a.remote.port) := by
  unfold authority portText remote
  cases hport : a.port with
  | some port =>
    refine readAuthority_port port.isLt ?_
    cases hhost : a.host with
    | name text ne plain =>
      exact Or.inl fun hlast ↦ plain _ (List.mem_of_getLast? hlast) (by decide)
    | ipv6 text colon plain => exact Or.inr rfl
  | none =>
    cases hhost : a.host with
    | name text ne plain =>
      have hcolon : ':' ∉ text := fun hc ↦ plain _ hc (by decide)
      rw [List.append_nil]
      unfold readAuthority
      rw [show Host.spelled (.name text ne plain) = text from rfl,
        splitAtLast_eq_none_iff.mpr hcolon]
      rfl
    | ipv6 text colon plain =>
      rw [hhost, hport] at h
      cases h rfl

/-- Brackets without a port: what follows the last colon in them is no port. -/
theorem readAuthority_brackets (hhost : a.host.bracketed = true) (hport : a.port = none) :
    ∃ msg, readAuthority a.authority = .error msg := by
  unfold authority portText
  rw [hport]
  cases hhost' : a.host with
  | name text ne plain =>
    rw [hhost'] at hhost
    cases hhost
  | ipv6 text colon plain =>
    obtain ⟨before, after, rfl, hafter⟩ : ∃ before after, text = before ++ ':' :: after ∧
        ':' ∉ after := by
      obtain ⟨after, before, hrev, hmem⟩ := List.eq_append_cons_of_mem (List.mem_reverse.mpr colon)
      refine ⟨before.reverse, after.reverse, ?_, fun hc ↦ hmem (List.mem_reverse.mp hc)⟩
      rw [← List.reverse_reverse text, hrev]
      simp
    have hcut : splitAtLast ':' (Host.spelled (.ipv6 (before ++ ':' :: after) colon plain) ++ []) =
        some ('[' :: before, after ++ [']']) := by
      refine splitAtLast_eq_some_iff.mpr ⟨?_, ?_⟩
      · simp [Host.spelled]
      · rw [List.mem_append, not_or]
        exact ⟨hafter, by decide⟩
    have hdigits : ∀ ds : List Char, parseDigits (ds ++ [']']) = none := by
      intro ds
      refine if_neg fun h ↦ ?_
      have hlast := List.all_eq_true.mp h.2.1 ']' (List.mem_append_right _ List.mem_cons_self)
      cases hlast
    have hparse : parseU16 (after ++ [']']) = none := by
      unfold parseU16
      split
      · next ds heq =>
        cases after with
        | nil => cases heq
        | cons c after =>
          obtain ⟨-, rfl⟩ := List.cons.inj heq
          exact hdigits after
      · exact hdigits after
    have hopens : ('[' :: before).head? = some '[' := rfl
    unfold readAuthority
    rw [hcut]
    dsimp only
    rw [if_pos (Or.inr hopens), hparse]
    exact ⟨_, rfl⟩

/-- A URL is read as it is meant, except that brackets need a port and that the token must not
end in white space. -/
theorem parse_url_iff : parse a.url = .ok a.remote ↔
    (a.host.bracketed = true → a.port.isSome = true) ∧ endsBlank a.token = false := by
  have hquestion : '?' ∉ a.authority ++ List.replicate a.slashes '/' := by
    rw [List.mem_append, not_or]
    refine ⟨a.not_mem_authority (by decide), fun hc ↦ ?_⟩
    cases List.eq_of_mem_replicate hc
  by_cases hports : a.host.bracketed = true → a.port.isSome = true
  · have hauthority := a.readAuthority_authority hports
    rw [← a.rdropWhile_authority] at hauthority
    have hparts := parse_parts_iff hquestion hauthority
      (a.unbracket_spelled ▸ a.host.text_ne_nil) a.extra_plain a.pin_ok a.token_plain a.token_ne
    rw [a.unbracket_spelled] at hparts
    exact hparts.trans (and_iff_right hports).symm
  · obtain ⟨hhost, hport⟩ := Classical.not_imp.mp hports
    obtain ⟨msg, hmsg⟩ := a.readAuthority_brackets hhost (by simpa using hport)
    have herror : parse a.url = .error msg := by
      unfold url
      rw [parse_query hquestion, readParts, a.rdropWhile_authority, hmsg]
      rfl
    rw [herror]
    exact iff_of_false (fun h ↦ by cases h) fun h ↦ hports h.1

end Spelled

/-! ### Reading and writing -/

/-- The value of the last token in the query of a URL. -/
def tokenText (s : List Char) : Option (List Char) :=
  (splitAtFirst ['?'] (trim s)).bind fun cut ↦ lastValue "token".toList (cut.2.splitOn '&')

theorem tokenText_of_parse {s : List Char} {r : Remote} (h : parse s = .ok r) :
    tokenText s = some r.token := by
  unfold parse at h
  split at h
  · cases h
  · next rest hrest =>
    split at h
    · cases h
    · next authority query hcut =>
      obtain ⟨_, _, -, -, -, hquery, -, -, -⟩ := exists_of_readParts h
      rw [readQuery_eq, Prod.mk.injEq] at hquery
      obtain ⟨start, htrim, hstart⟩ := List.dropPrefix?_eq_some_iff.mp hrest
      rw [eq_of_beq hstart] at htrim
      obtain ⟨rfl, hauthority⟩ := splitAtFirst_eq_some_iff.mp hcut
      have hfirst : splitAtFirst ['?'] (trim s) = some (scheme ++ authority, query) := by
        refine splitAtFirst_eq_some_iff.mpr ⟨by rw [htrim, List.append_assoc], ?_⟩
        rw [List.mem_append, not_or]
        exact ⟨by decide, hauthority⟩
      rw [tokenText, hfirst]
      exact hquery.2

/-- What a URL was read as is written and read as itself, unless the last token of the URL ends in
white space; and a URL is read as it is meant, except that brackets need a port and that the token
must not end in white space. -/
theorem reads_back_iff (s : List Char) :
    (∀ r, parse s = .ok r →
      (parse r.url = .ok r ↔ ∀ t, tokenText s = some t → endsBlank t = false)) ∧
    ∀ a : Spelled, parse a.url = .ok a.remote ↔
      (a.host.bracketed = true → a.port.isSome = true) ∧ endsBlank a.token = false := by
  constructor
  · intro r h
    rw [(read_of_parse h).parse_url_iff, tokenText_of_parse h]
    simp
  · exact Spelled.parse_url_iff

/-- A pin of sixty-four zeros. -/
def zeroPin : List Char := "sha256:".toList ++ List.replicate 64 '0'

/-- An IPv6 address and its port are read, written and read again. -/
theorem reads_back_brackets :
    ∃ r, parse ("claudebase://[::1]:7?pin=".toList ++ zeroPin ++ "&token=t".toList) = .ok r ∧
      r.host = "::1".toList ∧ r.port = 7 ∧ parse r.url = .ok r := by
  have hparse : parse ("claudebase://[::1]:7?pin=".toList ++ zeroPin ++ "&token=t".toList) =
      .ok ⟨"::1".toList, 7, zeroPin, ['t']⟩ := by
    decide +kernel
  refine ⟨_, hparse, rfl, rfl, ((reads_back_iff _).1 _ hparse).mpr ?_⟩
  intro t ht
  rw [tokenText_of_parse hparse] at ht
  cases ht
  rfl

/-- A token that ends in a blank and is not last loses it; brackets without a port are refused. -/
theorem reads_back_blank :
    (¬∀ s r, parse s = .ok r → parse r.url = .ok r) ∧
      ¬∀ a : Spelled, parse a.url = .ok a.remote := by
  constructor
  · intro h
    have hparse : parse ("claudebase://h?token=t &pin=".toList ++ zeroPin) =
        .ok ⟨['h'], defaultPort, zeroPin, ['t', ' ']⟩ := by
      decide +kernel
    exact absurd (h _ _ hparse) (by decide +kernel)
  · intro h
    have hcolon : ':' ∈ ("::1".toList : List Char) := by decide
    have hplain : ∀ c ∈ ("::1".toList : List Char), c ∉ ['/', '?', '[', ']'] := by
      simp
    have hurl := h ⟨.ipv6 "::1".toList hcolon hplain, none, 0, [], zeroPin, ['t'],
      fun _ hp ↦ absurd hp List.not_mem_nil, by decide +kernel, by simp, by simp⟩
    cases ((Spelled.parse_url_iff _).mp hurl).1 rfl

end Claudebase.Address
