import Claudebase.Base.Text

/-!
# JSON values

The part of a JSON value's interface requests are read through: a field of an object, a path
of fields, a text, a signed 64-bit integer. Reading a field of anything but an object, or a
value of another type, gives nothing.
-/

namespace Claudebase.Base

/-- A JSON value. Numbers are integers or carry their text; the fields of an object differ. -/
inductive Json where
  | null
  | bool (b : Bool)
  | int (n : Int)
  | float (text : String)
  | str (s : String)
  | arr (items : List Json)
  | obj (fields : List (String × Json))

namespace Json

/-- The field `key` of an object. -/
def get? (v : Json) (key : String) : Option Json :=
  match v with
  | .obj fields => fields.lookup key
  | _ => none

/-- The value at a path of fields. -/
def path? (v : Json) : List String → Option Json
  | [] => some v
  | key :: keys => (v.get? key).bind fun w ↦ w.path? keys

/-- The text of a string. -/
def asStr? : Json → Option String
  | .str s => some s
  | _ => none

/-- An integer that fits 64 bits. -/
def asI64? : Json → Option Int
  | .int n => if -9223372036854775808 ≤ n ∧ n ≤ 9223372036854775807 then some n else none
  | _ => none

/-- A truth value. -/
def asBool? : Json → Option Bool
  | .bool b => some b
  | _ => none

/-- The items of an array. -/
def asArray? : Json → Option (List Json)
  | .arr items => some items
  | _ => none

/-- The items of an array, none of anything else. -/
def items : Json → List Json
  | .arr items => items
  | _ => []

/-- A text, or null. -/
def ofOption : Option String → Json
  | none => .null
  | some s => .str s

/-- The text of a field. -/
def str? (v : Json) (key : String) : Option String := (v.get? key).bind asStr?

end Json

/-!
## The text of a JSON value

A value is written without blanks, its texts between quotes; the quote, the backslash and the
control characters are escaped, everything else stays.
-/

/-- A digit of a hexadecimal number. -/
def hexDigit (n : Nat) : Char := if n < 10 then Char.ofNat (48 + n) else Char.ofNat (87 + n)

/-- A character of a text in JSON. -/
def jsonChar (c : Char) : List Char :=
  match c.toNat with
  | 8 => ['\\', 'b']
  | 9 => ['\\', 't']
  | 10 => ['\\', 'n']
  | 12 => ['\\', 'f']
  | 13 => ['\\', 'r']
  | 34 => ['\\', '"']
  | 92 => ['\\', '\\']
  | n => if n < 32 then ['\\', 'u', '0', '0', hexDigit (n / 16), hexDigit (n % 16)] else [c]

/-- A text in JSON. -/
def jsonQuote (s : List Char) : List Char := '"' :: s.flatMap jsonChar ++ ['"']

/-- Items between commas. -/
def commaSeparated : List (List Char) → List Char
  | [] => []
  | [item] => item
  | item :: next :: items => item ++ ',' :: commaSeparated (next :: items)

namespace Json

mutual

/-- The text of a value. -/
def render : Json → List Char
  | .null => ['n', 'u', 'l', 'l']
  | .bool true => ['t', 'r', 'u', 'e']
  | .bool false => ['f', 'a', 'l', 's', 'e']
  | .int n => decimal n
  | .float text => text.toList
  | .str s => jsonQuote s.toList
  | .arr items => '[' :: commaSeparated (renderItems items) ++ [']']
  | .obj fields => '{' :: commaSeparated (renderFields fields) ++ ['}']

/-- The items of an array. -/
def renderItems : List Json → List (List Char)
  | [] => []
  | item :: items => item.render :: renderItems items

/-- The fields of an object. -/
def renderFields : List (String × Json) → List (List Char)
  | [] => []
  | (key, value) :: fields => (jsonQuote key.toList ++ ':' :: value.render) :: renderFields fields

end

/-- The text as bytes. -/
def toBytes (v : Json) : List UInt8 := utf8 (String.ofList v.render)

end Json

/-! ### How many bytes -/

/-- The bytes of a text. -/
def byteCount (s : List Char) : Nat := (s.map Char.utf8Size).sum

@[simp] theorem byteCount_nil : byteCount [] = 0 := rfl

@[simp] theorem byteCount_cons (c : Char) (s : List Char) :
    byteCount (c :: s) = c.utf8Size + byteCount s := by
  simp [byteCount]

@[simp] theorem byteCount_append (s t : List Char) :
    byteCount (s ++ t) = byteCount s + byteCount t := by
  simp [byteCount]

/-- A text has a byte for every character. -/
theorem length_le_byteCount (s : List Char) : s.length ≤ byteCount s := by
  induction s with
  | nil => exact Nat.zero_le 0
  | cons c s ih =>
    have hc := c.utf8Size_pos
    rw [List.length_cons, byteCount_cons]
    omega

theorem length_utf8_ofList (s : List Char) : (utf8 (String.ofList s)).length = byteCount s := by
  rw [utf8_eq, String.toList_ofList, List.length_flatMap]
  unfold byteCount
  congr 2
  funext c
  exact String.length_utf8EncodeChar c

/-- The bytes of the text of a value. -/
def Json.size (v : Json) : Nat := byteCount v.render

theorem Json.length_toBytes (v : Json) : v.toBytes.length = v.size := length_utf8_ofList v.render

theorem Json.size_str (s : String) : (Json.str s).size = byteCount (jsonQuote s.toList) := by
  rw [Json.size, Json.render]

theorem Json.size_int (n : Int) : (Json.int n).size = byteCount (decimal n) := by
  rw [Json.size, Json.render]

theorem Json.size_arr (items : List Json) :
    (Json.arr items).size = byteCount (commaSeparated (Json.renderItems items)) + 2 := by
  have hopen : '['.utf8Size = 1 := rfl
  have hclose : ']'.utf8Size = 1 := rfl
  rw [Json.size, Json.render, List.cons_append, byteCount_cons, byteCount_append, byteCount_cons,
    byteCount_nil, hopen, hclose]
  omega

theorem Json.size_obj (fields : List (String × Json)) :
    (Json.obj fields).size = byteCount (commaSeparated (Json.renderFields fields)) + 2 := by
  have hopen : '\x7b'.utf8Size = 1 := rfl
  have hclose : '\x7d'.utf8Size = 1 := rfl
  rw [Json.size, Json.render, List.cons_append, byteCount_cons, byteCount_append, byteCount_cons,
    byteCount_nil]
  omega

theorem byteCount_commaSeparated_cons (item next : List Char) (items : List (List Char)) :
    byteCount (commaSeparated (item :: next :: items)) =
      byteCount item + 1 + byteCount (commaSeparated (next :: items)) := by
  have hcomma : ','.utf8Size = 1 := rfl
  rw [commaSeparated, byteCount_append, byteCount_cons, hcomma]
  omega

/-- An item between commas. -/
theorem Json.byteCount_field (key : String) (v : Json) :
    byteCount (jsonQuote key.toList ++ ':' :: v.render) =
      byteCount (jsonQuote key.toList) + 1 + v.size := by
  have hcolon : ':'.utf8Size = 1 := rfl
  rw [byteCount_append, byteCount_cons, hcolon, Json.size]
  omega

/-- The size of an object of one field. -/
theorem Json.size_obj_one (key : String) (v : Json) :
    (Json.obj [(key, v)]).size = byteCount (jsonQuote key.toList) + v.size + 3 := by
  rw [size_obj, renderFields, renderFields, commaSeparated, byteCount_field]
  omega

/-- A field more. -/
theorem Json.size_obj_cons (key : String) (v : Json) (field : String × Json)
    (fields : List (String × Json)) :
    (Json.obj ((key, v) :: field :: fields)).size =
      byteCount (jsonQuote key.toList) + v.size + (Json.obj (field :: fields)).size + 2 := by
  rw [size_obj, size_obj, renderFields, renderFields, byteCount_commaSeparated_cons,
    byteCount_field]
  omega

theorem Json.size_arr_one (v : Json) : (Json.arr [v]).size = v.size + 2 := by
  rw [size_arr, renderItems, renderItems, commaSeparated, Json.size]

/-- An escape is no shorter than the character. -/
theorem utf8Size_le_jsonChar (c : Char) : c.utf8Size ≤ byteCount (jsonChar c) := by
  by_cases hsmall : c.toNat < 128
  · have hone : c.utf8Size = 1 := by
      have hval : c.val ≤ 0x7f := UInt32.le_iff_toNat_le.mpr (Nat.le_of_lt_succ hsmall)
      unfold Char.utf8Size
      exact if_pos hval
    have hsome : 0 < (jsonChar c).length := by
      unfold jsonChar
      split <;> try exact Nat.succ_pos _
      split <;> exact Nat.succ_pos _
    have hbytes := length_le_byteCount (jsonChar c)
    omega
  · have hself : jsonChar c = [c] := by
      unfold jsonChar
      split
      all_goals try omega
      rw [if_neg (by omega)]
    rw [hself, byteCount_cons, byteCount_nil]
    omega

/-- Writing a text makes it longer by the quotes at least. -/
theorem byteCount_le_jsonQuote (s : List Char) : byteCount s + 2 ≤ byteCount (jsonQuote s) := by
  have hchars : byteCount s ≤ byteCount (s.flatMap jsonChar) := by
    induction s with
    | nil => exact Nat.le_refl 0
    | cons c s ih =>
      have hc := utf8Size_le_jsonChar c
      rw [List.flatMap_cons, byteCount_append, byteCount_cons]
      omega
  have hquote : '"'.utf8Size = 1 := rfl
  rw [jsonQuote, List.cons_append, byteCount_cons, byteCount_append, byteCount_cons, byteCount_nil,
    hquote]
  omega

end Claudebase.Base
