import EventHarbor.JavaScript.Numbers

/-!
# JavaScript values

The values that JSON text stands for in JavaScript. An object is the list of its
entries.
-/

namespace EventHarbor

inductive JsValue
  | null
  | bool (b : Bool)
  | number (x : JsNumber)
  | string (s : JsStr)
  | array (items : List JsValue)
  | object (entries : List (JsStr × JsValue))

/-- The number that a double stands for. -/
def JsNumber.ofFloat (x : PyFloat) : JsNumber :=
  let negative := x.bits.toNat / 2 ^ 63 = 1
  let exponent : ℕ := x.bits.toNat / 2 ^ 52 % 2 ^ 11
  let fraction : ℕ := x.bits.toNat % 2 ^ 52
  let sign : ℚ := if negative then -1 else 1
  if exponent = 2047 then if fraction = 0 then .infinite negative else .nan
  else if exponent = 0 then .finite (sign * fraction * 2 ^ (-1074 : ℤ))
  else .finite (sign * (2 ^ 52 + fraction) * 2 ^ ((exponent : ℤ) - 1075))

mutual

/-- The value of JSON text in JavaScript: an integer is the number nearest to it. -/
def JsValue.ofJson : Json → JsValue
  | .null => .null
  | .bool b => .bool b
  | .int n => .number (.ofRat n)
  | .float x => .number (.ofFloat x)
  | .str s => .string (JavaScript.utf16 s)
  | .arr xs => .array (JsValue.ofItems xs)
  | .obj ms => .object (JsValue.ofMembers ms)

def JsValue.ofItems : List Json → List JsValue
  | [] => []
  | x :: xs => JsValue.ofJson x :: JsValue.ofItems xs

def JsValue.ofMembers : List (PyStr × Json) → List (JsStr × JsValue)
  | [] => []
  | (k, v) :: ms => (JavaScript.utf16 k, JsValue.ofJson v) :: JsValue.ofMembers ms

end

end EventHarbor
