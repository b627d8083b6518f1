import EventHarbor.Basic
import Mathlib.Data.List.Sort
import Mathlib.Data.List.Lex
import Mathlib.Order.Lex

/-!
# Canonical JSON

`canonical_json_bytes`: `json.dumps` without insignificant whitespace, with
sorted keys, without ASCII escaping and without non-finite floats, encoded as
UTF-8. A Python string is a list of code points, lone surrogates included.
-/

namespace EventHarbor

abbrev CodePoint := Fin 0x110000

/-- A Python string. -/
abbrev PyStr := List CodePoint

instance PyStr.instLawfulBEq : LawfulBEq PyStr := inferInstance

def CodePoint.ofChar (c : Char) : CodePoint :=
  ⟨c.toNat, by have := c.valid; simp only [Char.toNat, UInt32.isValidChar, Nat.isValidChar] at *; omega⟩

def PyStr.ofChars (cs : List Char) : PyStr := cs.map CodePoint.ofChar

def PyStr.ofString (s : String) : PyStr := PyStr.ofChars s.toList

/-- A surrogate is no character; it is encoded nowhere. -/
def CodePoint.isSurrogate (c : CodePoint) : Bool := 0xD800 ≤ c.val && c.val ≤ 0xDFFF

/-- The text of a string without lone surrogates. -/
def PyStr.toText (s : PyStr) : String := String.ofList (s.map fun c => Char.ofNat c.val)

/-- An IEEE 754 double. -/
structure PyFloat where
  bits : BitVec 64
deriving DecidableEq, Repr

/-- Not an infinity and not a NaN. -/
def PyFloat.isFinite (x : PyFloat) : Bool := x.bits.toNat / 2 ^ 52 % 2 ^ 11 != 2047

/-- The values `json.loads` can produce. -/
inductive Json
  | null
  | bool (b : Bool)
  | int (n : ℤ)
  | float (x : PyFloat)
  | str (s : PyStr)
  | arr (items : List Json)
  | obj (members : List (PyStr × Json))

/-- `\uXXXX`, the escape of a control character without a short form. -/
def unicodeEscape (c : CodePoint) : PyStr := PyStr.ofChars ('\\' :: 'u' :: hexDigits 4 c.val)

/-- One character of a JSON string, with `ensure_ascii=False`. -/
def escapeCodePoint (c : CodePoint) : PyStr :=
  if c.val = 0x22 then PyStr.ofChars ['\\', '"']
  else if c.val = 0x5C then PyStr.ofChars ['\\', '\\']
  else if c.val = 0x0A then PyStr.ofChars ['\\', 'n']
  else if c.val = 0x0D then PyStr.ofChars ['\\', 'r']
  else if c.val = 0x09 then PyStr.ofChars ['\\', 't']
  else if c.val = 0x0C then PyStr.ofChars ['\\', 'f']
  else if c.val = 0x08 then PyStr.ofChars ['\\', 'b']
  else if c.val < 0x20 then unicodeEscape c
  else [c]

/-- A JSON string literal. -/
def quote (s : PyStr) : PyStr :=
  CodePoint.ofChar '"' :: (s.flatMap escapeCodePoint ++ [CodePoint.ofChar '"'])

/-- The decimal text of an integer. -/
def intText : ℤ → PyStr
  | .ofNat n => PyStr.ofChars (Nat.toDigits 10 n)
  | .negSucc n => CodePoint.ofChar '-' :: PyStr.ofChars (Nat.toDigits 10 (n + 1))

def joinComma : List PyStr → PyStr
  | [] => []
  | [t] => t
  | t :: ts => t ++ CodePoint.ofChar ',' :: joinComma ts

/-- One `key:value` member. -/
def memberText (m : PyStr × PyStr) : PyStr := quote m.1 ++ CodePoint.ofChar ':' :: m.2

/-- `sort_keys=True`. -/
def sortMembers (ms : List (PyStr × PyStr)) : List (PyStr × PyStr) :=
  ms.insertionSort fun a b => a.1 ≤ b.1

section Dumps

variable (floatRepr : PyFloat → List Char)

mutual

/-- The text of a value whose floats are finite. -/
def Json.text : Json → PyStr
  | .null => PyStr.ofChars ['n', 'u', 'l', 'l']
  | .bool true => PyStr.ofChars ['t', 'r', 'u', 'e']
  | .bool false => PyStr.ofChars ['f', 'a', 'l', 's', 'e']
  | .int n => intText n
  | .float x => PyStr.ofChars (floatRepr x)
  | .str s => quote s
  | .arr xs => CodePoint.ofChar '[' :: (joinComma (Json.itemTexts xs) ++ [CodePoint.ofChar ']'])
  | .obj ms => CodePoint.ofChar '{' ::
      (joinComma ((sortMembers (Json.memberTexts ms)).map memberText) ++ [CodePoint.ofChar '}'])

def Json.itemTexts : List Json → List PyStr
  | [] => []
  | x :: xs => x.text :: Json.itemTexts xs

def Json.memberTexts : List (PyStr × Json) → List (PyStr × PyStr)
  | [] => []
  | (k, v) :: ms => (k, v.text) :: Json.memberTexts ms

end

/-- `sys.int_info.default_max_str_digits`: longer integers have no decimal text. -/
def maxStrDigits : ℕ := 4300

mutual

/-- Every number in the value has a text: floats are finite and integers within
the interpreter's limit. -/
def Json.finite : Json → Bool
  | .int n => (Nat.toDigits 10 n.natAbs).length ≤ maxStrDigits
  | .float x => x.isFinite
  | .arr xs => Json.itemsFinite xs
  | .obj ms => Json.membersFinite ms
  | _ => true

def Json.itemsFinite : List Json → Bool
  | [] => true
  | x :: xs => x.finite && Json.itemsFinite xs

def Json.membersFinite : List (PyStr × Json) → Bool
  | [] => true
  | (_, v) :: ms => v.finite && Json.membersFinite ms

end

mutual

/-- A dict has each key once. -/
def Json.distinct : Json → Bool
  | .arr xs => Json.itemsDistinct xs
  | .obj ms => Json.membersDistinct ms
  | _ => true

def Json.itemsDistinct : List Json → Bool
  | [] => true
  | x :: xs => x.distinct && Json.itemsDistinct xs

def Json.membersDistinct : List (PyStr × Json) → Bool
  | [] => true
  | (k, v) :: ms => ms.all (·.1 ≠ k) && v.distinct && Json.membersDistinct ms

end

/-- `text.encode("utf-8")`; a lone surrogate has no encoding. -/
def encodeUtf8 (s : PyStr) : Option (List UInt8) :=
  if s.any CodePoint.isSurrogate then none
  else some (s.flatMap fun c => String.utf8EncodeChar (Char.ofNat c.val))

/-- Why `canonical_json_bytes` fails: its declared error, or the encoding error
that it lets through. -/
inductive CanonicalError
  | canonicalJSON
  | unicodeEncode
deriving DecidableEq, Repr

/-- The stable UTF-8 representation of one JSON-compatible value. -/
def canonicalJsonBytes (j : Json) : Except CanonicalError (List UInt8) :=
  if j.finite then
    match encodeUtf8 (j.text floatRepr) with
    | some bytes => .ok bytes
    | none => .error .unicodeEncode
  else .error .canonicalJSON

end Dumps

end EventHarbor
