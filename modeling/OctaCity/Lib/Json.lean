/-
  OctaCity.Lib.Json

  JSON values as serde_json holds them: three kinds of number, objects as maps
  listed by name, the comparison that takes both zeros for one number, lookup
  by RFC 6901 pointer and the compact text.  How a float is printed is a
  parameter.
-/
import Mathlib.Algebra.Ring.Nat
import Mathlib.Data.Nat.Digits.Defs
import Mathlib.Data.String.Basic
import OctaCity.Lib.Result

namespace OctaCity.Lib

open List String

/-! ## Values -/

/-- A finite binary64 number by its bits. -/
structure FiniteFloat where
  bits : UInt64
  finite : bits &&& 0x7ff0000000000000 ≠ 0x7ff0000000000000
  deriving DecidableEq

def FiniteFloat.isZero (float : FiniteFloat) : Bool := float.bits &&& 0x7fffffffffffffff = 0

inductive JsonNumber
  | posInt (value : UInt64)
  | negInt (value : Int64)
  | float (value : FiniteFloat)

inductive Json
  | null
  | bool (value : Bool)
  | number (value : JsonNumber)
  | string (text : String)
  | array (items : List Json)
  | object (fields : List (String × Json))

namespace Json

/-- What holds of scalars and passes from the parts of a value to the value holds of all. -/
@[elab_as_elim] theorem ind {motive : Json → Prop} (null : motive .null)
    (bool : ∀ value, motive (.bool value)) (number : ∀ value, motive (.number value))
    (string : ∀ text, motive (.string text))
    (array : ∀ items, (∀ item ∈ items, motive item) → motive (.array items))
    (object : ∀ fields, (∀ field ∈ fields, motive field.2) → motive (.object fields)) :
    ∀ value, motive value
  | .null => null
  | .bool value => bool value
  | .number value => number value
  | .string text => string text
  | .array items => array items fun item _ => ind null bool number string array object item
  | .object fields => object fields fun field _ => ind null bool number string array object field.2
termination_by value => value
decreasing_by
  · have := sizeOf_lt_of_mem ‹item ∈ items›
    simp only [Json.array.sizeOf_spec]
    omega
  · have := sizeOf_lt_of_mem ‹field ∈ fields›
    cases field
    simp only [Json.object.sizeOf_spec, Prod.mk.sizeOf_spec] at *
    omega

def asI64 : Json → Option Int
  | .number (.posInt value) => if value.toNat < 2 ^ 63 then some value.toNat else none
  | .number (.negInt value) => some value.toInt
  | _ => none

def asStr : Json → Option String
  | .string text => some text
  | _ => none

def asArray : Json → Option (List Json)
  | .array items => some items
  | _ => none

def asObject : Json → Option (List (String × Json))
  | .object fields => some fields
  | _ => none

def isBoolean : Json → Bool
  | .bool _ => true
  | _ => false

def get (fields : List (String × Json)) (name : String) : Option Json :=
  (fields.find? fun field => field.1 = name).map Prod.snd

end Json

/-! ## Comparison -/

/-- IEEE equality of finite numbers: both zeros are one number. -/
def JsonNumber.eq : JsonNumber → JsonNumber → Bool
  | .posInt a, .posInt b => a = b
  | .negInt a, .negInt b => a = b
  | .float a, .float b => a = b || (a.isZero && b.isZero)
  | _, _ => false

theorem JsonNumber.eq_trans {a b c : JsonNumber} (hab : a.eq b = true) (hbc : b.eq c = true) :
    a.eq c = true := by
  cases a <;> cases b <;> first | cases hab | skip
  all_goals cases c <;> first | cases hbc | skip
  all_goals
    simp only [JsonNumber.eq, Bool.or_eq_true, Bool.and_eq_true, decide_eq_true_eq] at *
  · rw [hab, hbc]
  · rw [hab, hbc]
  · rcases hab with rfl | ⟨ha, hb⟩
    · exact hbc
    · rcases hbc with rfl | ⟨-, hc⟩
      · exact .inr ⟨ha, hb⟩
      · exact .inr ⟨ha, hc⟩

namespace Json

mutual

/-- `PartialEq` of values. -/
def eq : Json → Json → Bool
  | .null, .null => true
  | .bool a, .bool b => a = b
  | .number a, .number b => a.eq b
  | .string a, .string b => a = b
  | .array items, .array others => eqItems items others
  | .object fields, .object others => eqFields fields others
  | _, _ => false

def eqItems : List Json → List Json → Bool
  | [], [] => true
  | item :: items, other :: others => item.eq other && eqItems items others
  | _, _ => false

def eqFields : List (String × Json) → List (String × Json) → Bool
  | [], [] => true
  | (name, value) :: fields, (name', other) :: others =>
    name = name' && value.eq other && eqFields fields others
  | _, _ => false

end

theorem eqItems_iff {items others : List Json} :
    eqItems items others = true ↔ List.Forall₂ (fun a b => a.eq b = true) items others := by
  induction items generalizing others with
  | nil => cases others <;> simp [eqItems]
  | cons item items ih => cases others <;> simp [eqItems, ih]

variable {fields : List (String × Json)} {other : Json}

theorem eqFields_iff {others : List (String × Json)} : eqFields fields others = true ↔
      List.Forall₂ (fun a b => a.1 = b.1 ∧ a.2.eq b.2 = true) fields others := by
  induction fields generalizing others with
  | nil => cases others <;> simp [eqFields]
  | cons field fields ih => cases others <;> simp [eqFields, ih]

theorem eq_trans {a b c : Json} (hab : a.eq b = true) (hbc : b.eq c = true) : a.eq c = true := by
  induction a using Json.ind generalizing b c with
  | null =>
    cases b <;> first | exact hbc | cases hab
  | bool value =>
    cases b <;> first | cases hab | skip
    cases c <;> first | cases hbc | skip
    simp only [eq, decide_eq_true_eq] at *
    rw [hab, hbc]
  | number value =>
    cases b <;> first | cases hab | skip
    cases c <;> first | cases hbc | skip
    exact JsonNumber.eq_trans hab hbc
  | string text =>
    cases b <;> first | cases hab | skip
    cases c <;> first | cases hbc | skip
    simp only [eq, decide_eq_true_eq] at *
    rw [hab, hbc]
  | array items ih =>
    cases b <;> first | cases hab | skip
    cases c <;> first | cases hbc | skip
    simp only [eq, eqItems_iff] at *
    exact forall₂_trans (fun a ha b c => ih a ha) hab hbc
  | object fields ih =>
    cases b <;> first | cases hab | skip
    cases c <;> first | cases hbc | skip
    simp only [eq, eqFields_iff] at *
    refine forall₂_trans (fun a ha b c h h' => ⟨h.1.trans h'.1, ih a ha h.2 h'.2⟩) hab hbc

theorem eq_of_string_eq {text : String} (h : (Json.string text).eq other = true) :
    other = .string text := by
  cases other <;> first | cases h | skip
  rw [of_decide_eq_true h]

theorem eq_of_array_eq {items : List Json} (h : (Json.array items).eq other = true) :
    ∃ others, other = .array others ∧ List.Forall₂ (fun a b => a.eq b = true) items others := by
  cases other <;> first | cases h | skip
  exact ⟨_, rfl, eqItems_iff.mp h⟩

theorem eq_of_object_eq (h : (Json.object fields).eq other = true) :
    ∃ others, other = .object others ∧
      List.Forall₂ (fun a b => a.1 = b.1 ∧ a.2.eq b.2 = true) fields others := by
  cases other <;> first | cases h | skip
  exact ⟨_, rfl, eqFields_iff.mp h⟩

/-- Equal values are the same integer or none. -/
theorem asI64_of_eq {a b : Json} (h : a.eq b = true) : a.asI64 = b.asI64 := by
  cases a <;> cases b <;> first | cases h | skip
  all_goals try rfl
  rename_i left right
  cases left <;> cases right <;> first | cases h | skip
  · rw [of_decide_eq_true h]
  · rw [of_decide_eq_true h]
  · rfl

/-- Equal objects hold equal values under a name. -/
theorem get_of_eqFields {others : List (String × Json)}
    (h : List.Forall₂ (fun a b => a.1 = b.1 ∧ a.2.eq b.2 = true) fields others) (name : String) :
    Option.Rel (fun a b => a.eq b = true) (get fields name) (get others name) := by
  induction h with
  | nil => exact .none
  | @cons field other fields others hhead _ ih =>
    unfold get at ih ⊢
    rw [List.find?_cons, List.find?_cons, hhead.1]
    split
    · exact .some hhead.2
    · exact ih

end Json

/-! ## Pointers -/

/-- `str::replace` of a pattern of two different characters. -/
def replacePair (a b c : Char) : List Char → List Char
  | x :: y :: rest =>
    if x = a ∧ y = b then c :: replacePair a b c rest else x :: replacePair a b c (y :: rest)
  | rest => rest

/-- The unescaped reference tokens of a pointer. -/
def pointerTokens (path : String) : List String :=
  ((path.toList.splitOn '/').drop 1).map fun token =>
    String.ofList (replacePair '~' '0' '~' (replacePair '~' '1' '/' token))

/-- An unsigned decimal number without sign. -/
def parseDecimal (token : String) : Option Nat :=
  if token.toList = [] ∨ ¬token.toList.all Char.isDigit then none
  else some (token.toList.foldl (fun n c => 10 * n + (c.toNat - 48)) 0)

/-- An index without sign or leading zeros. -/
def parseIndex (token : String) : Option Nat :=
  if token.toList.head? = some '+' ∨ (token.toList.head? = some '0' ∧ token.toList.length ≠ 1) then
    none
  else (parseDecimal token).filter (· < 2 ^ 64)

namespace Json

/-- The part of a value that one reference token names. -/
def child : Json → String → Option Json
  | .object fields, token => get fields token
  | .array items, token => (parseIndex token).bind fun index => items[index]?
  | _, _ => none

def pointer (value : Json) (path : String) : Option Json :=
  if path.isEmpty then some value
  else if path.toList.head? ≠ some '/' then none
  else (pointerTokens path).foldlM child value

/-! ## Compact text -/

def hexDigit (n : Nat) : Char := if n < 10 then Char.ofNat (48 + n) else Char.ofNat (87 + n)

def escape (c : Char) : String :=
  if c.toNat = 34 then "\\\"" else if c.toNat = 92 then "\\\\"
  else if c.toNat = 8 then "\\b" else if c.toNat = 9 then "\\t" else if c.toNat = 10 then "\\n"
  else if c.toNat = 12 then "\\f" else if c.toNat = 13 then "\\r"
  else if c.toNat < 32 then
    "\\u00" ++ String.ofList [hexDigit (c.toNat / 16), hexDigit (c.toNat % 16)]
  else c.toString

def encodeString (text : String) : String :=
  "\"" ++ String.join (text.toList.map escape) ++ "\""

section

-- How a float is printed.
variable (floatText : FiniteFloat → String)

def encodeNumber : JsonNumber → String
  | .posInt value => toString value.toNat
  | .negInt value => toString value.toInt
  | .float value => floatText value

mutual

/-- `serde_json::to_vec` -/
def encode : Json → String
  | .null => "null"
  | .bool true => "true"
  | .bool false => "false"
  | .number value => encodeNumber floatText value
  | .string text => encodeString text
  | .array items => "[" ++ encodeItems items ++ "]"
  | .object fields => "\x7b" ++ encodeFields fields ++ "\x7d"

def encodeItems : List Json → String
  | [] => ""
  | [item] => item.encode
  | item :: other :: items => item.encode ++ "," ++ encodeItems (other :: items)

def encodeFields : List (String × Json) → String
  | [] => ""
  | [(name, value)] => encodeString name ++ ":" ++ value.encode
  | (name, value) :: other :: fields =>
    encodeString name ++ ":" ++ value.encode ++ "," ++ encodeFields (other :: fields)

end

end

variable {floatText : FiniteFloat → String}

/-- Bytes of the compact text. -/
def size (floatText : FiniteFloat → String) (value : Json) : Nat :=
  (value.encode floatText).utf8ByteSize

/-- Above the control characters an escape at most doubles a character. -/
theorem escape_size_le {c : Char} (hc : 32 ≤ c.toNat) :
    (escape c).utf8ByteSize ≤ 2 * c.utf8Size := by
  have hpos := c.utf8Size_pos
  have hquote : "\\\"".utf8ByteSize = 2 := by decide
  have hslash : "\\\\".utf8ByteSize = 2 := by decide
  have hself : c.toString.utf8ByteSize = c.utf8Size := by
    rw [Char.toString_eq_singleton, utf8ByteSize_singleton]
  unfold escape
  split
  · omega
  split
  · omega
  iterate 6 rw [if_neg (by omega)]
  omega

theorem join_size (texts : List String) :
    (String.join texts).utf8ByteSize = (texts.map String.utf8ByteSize).sum := by
  induction texts with
  | nil => rfl
  | cons text texts ih => rw [join_cons, utf8ByteSize_append, ih, map_cons, sum_cons]

/-- A text without control characters at most doubles, and gets two quotes. -/
theorem encodeString_size_le {text : String} (h : ∀ c ∈ text.toList, 32 ≤ c.toNat) :
    (encodeString text).utf8ByteSize ≤ 2 * text.utf8ByteSize + 2 := by
  have hquote : "\"".utf8ByteSize = 1 := by decide
  have hbody : ∀ chars : List Char, (∀ c ∈ chars, 32 ≤ c.toNat) →
      ((chars.map escape).map String.utf8ByteSize).sum ≤ 2 * String.utf8Len chars := by
    intro chars hchars
    induction chars with
    | nil => rfl
    | cons c chars ih =>
      obtain ⟨hc, hrest⟩ := forall_mem_cons.mp hchars
      have := escape_size_le hc
      have := ih hrest
      simp only [map_cons, sum_cons, utf8Len_cons]
      omega
  have hsize : text.utf8ByteSize = String.utf8Len text.toList := by
    rw [← utf8ByteSize_ofList, ofList_toList]
  have := hbody text.toList h
  simp only [encodeString, utf8ByteSize_append, join_size, hquote, hsize]
  omega

/-- A character takes at most four bytes. -/
theorem utf8ByteSize_le_length (text : String) : text.utf8ByteSize ≤ 4 * text.length := by
  have hchars : ∀ chars : List Char, String.utf8Len chars ≤ 4 * chars.length := by
    intro chars
    induction chars with
    | nil => rfl
    | cons c chars ih =>
      have := c.utf8Size_le_four
      simp only [utf8Len_cons, length_cons]
      omega
  rw [← length_toList, ← ofList_toList (s := text), utf8ByteSize_ofList]
  simpa using hchars text.toList

/-- A machine integer has at most twenty digits. -/
theorem encodeNumber_posInt_size_le (value : UInt64) :
    (encodeNumber floatText (.posInt value)).utf8ByteSize ≤ 80 := by
  have hlen : (toString value.toNat).length ≤ 20 :=
    Nat.repr_length _ 20 (by decide) (value.toNat_lt.trans (by decide))
  have := utf8ByteSize_le_length (toString value.toNat)
  change (toString value.toNat).utf8ByteSize ≤ 80
  omega

theorem encodeItems_size (items : List Json) : (encodeItems floatText items).utf8ByteSize =
      (items.map (size floatText)).sum + (items.length - 1) := by
  induction items with
  | nil => rfl
  | cons item items ih =>
    cases items with
    | nil => simp [encodeItems, size]
    | cons other items =>
      have hcomma : ",".utf8ByteSize = 1 := by decide
      simp only [encodeItems, utf8ByteSize_append, ih, hcomma, map_cons, sum_cons,
        length_cons, size]
      omega

/-- An array adds two brackets and a comma between items. -/
theorem encode_array_size (items : List Json) : size floatText (.array items) =
      2 + (items.map (size floatText)).sum + (items.length - 1) := by
  have hopen : "[".utf8ByteSize = 1 := by decide
  have hclose : "]".utf8ByteSize = 1 := by decide
  simp only [size, encode, utf8ByteSize_append, encodeItems_size, hopen, hclose]
  omega

theorem encodeFields_size (fields : List (String × Json)) :
    (encodeFields floatText fields).utf8ByteSize =
      (fields.map fun field => (encodeString field.1).utf8ByteSize + 1 +
        size floatText field.2).sum + (fields.length - 1) := by
  induction fields with
  | nil => rfl
  | cons field fields ih =>
    have hcolon : ":".utf8ByteSize = 1 := by decide
    have hcomma : ",".utf8ByteSize = 1 := by decide
    cases fields with
    | nil => simp [encodeFields, size, hcolon]
    | cons other fields =>
      simp only [encodeFields, utf8ByteSize_append, ih, hcolon, hcomma, map_cons,
        sum_cons, length_cons, size]
      omega

/-- An object adds two braces, a colon for each field and a comma between fields. -/
theorem encode_object_size (fields : List (String × Json)) : size floatText (.object fields) =
      2 + (fields.map fun field => (encodeString field.1).utf8ByteSize + 1 +
        size floatText field.2).sum + (fields.length - 1) := by
  have hopen : "\x7b".utf8ByteSize = 1 := by decide
  have hclose : "\x7d".utf8ByteSize = 1 := by decide
  simp only [size, encode, utf8ByteSize_append, encodeFields_size, hopen, hclose]
  omega

end Json

end OctaCity.Lib
