import EventHarbor.JavaScript.Values

/-!
# `JSON.parse`

The grammar of JSON text on code units. The recursion of the parser is bounded by
fuel that its caller takes from the length of the text.
-/

namespace EventHarbor

namespace JavaScript

/-! ## Digits -/

def digit (u : CodeUnit) : Option ℕ :=
  if 0x30 ≤ u.val ∧ u.val ≤ 0x39 then some (u.val - 0x30) else none

/-- The digits a text starts with, and the rest. -/
def takeDigits : JsStr → List ℕ × JsStr
  | [] => ([], [])
  | u :: s =>
    match digit u with
    | some d => let (ds, rest) := takeDigits s; (d :: ds, rest)
    | none => ([], u :: s)

def ofDigits (ds : List ℕ) : ℕ := ds.foldl (fun n d => 10 * n + d) 0

/-- `e`, a sign and digits; without digits there is no exponent. -/
def takeExponent : JsStr → ℤ × JsStr
  | u :: s =>
    if isUnit u 'e' || isUnit u 'E' then
      let negative := s.head?.any (isUnit · '-')
      let signed := s.head?.any fun v => isUnit v '-' || isUnit v '+'
      match takeDigits (if signed then s.tail else s) with
      | ([], _) => (0, u :: s)
      | (ds, rest) => (if negative then -(ofDigits ds : ℤ) else ofDigits ds, rest)
    else (0, u :: s)
  | [] => (0, [])

/-- The number that digits around a point and an exponent stand for. -/
def decimal (whole fraction : List ℕ) (exponent : ℤ) : ℚ :=
  ofDigits (whole ++ fraction) * 10 ^ (exponent - fraction.length)

/-! ## The grammar -/

def isJsonBlank (u : CodeUnit) : Bool := u.val = 0x20 || u.val = 0x09 || u.val = 0x0A || u.val = 0x0D

def skipBlanks (s : JsStr) : JsStr := s.dropWhile isJsonBlank

/-- The rest of a text after a word. -/
def stripWord (word : List Char) (s : JsStr) : Option JsStr := (ofChars word).isPrefixOf? s

def hexDigit (u : CodeUnit) : Option ℕ :=
  if 0x30 ≤ u.val ∧ u.val ≤ 0x39 then some (u.val - 0x30)
  else if 0x41 ≤ u.val ∧ u.val ≤ 0x46 then some (u.val - 0x37)
  else if 0x61 ≤ u.val ∧ u.val ≤ 0x66 then some (u.val - 0x57)
  else none

def simpleEscape (u : CodeUnit) : Option CodeUnit :=
  if isUnit u '"' || isUnit u '\\' || isUnit u '/' then some u
  else if isUnit u 'b' then some 0x08
  else if isUnit u 'f' then some 0x0C
  else if isUnit u 'n' then some 0x0A
  else if isUnit u 'r' then some 0x0D
  else if isUnit u 't' then some 0x09
  else none

/-- A string after its opening quote. -/
def parseString : ℕ → JsStr → Option (JsStr × JsStr)
  | 0, _ => none
  | _, [] => none
  | fuel + 1, u :: s =>
    if isUnit u '"' then some ([], s)
    else if isUnit u '\\' then
      match s with
      | [] => none
      | e :: s =>
        if isUnit e 'u' then
          match s with
          | a :: b :: c :: d :: s => do
            let n := (← hexDigit a) * 0x1000 + (← hexDigit b) * 0x100 + (← hexDigit c) * 0x10 +
              (← hexDigit d)
            let (t, rest) ← parseString fuel s
            return (CodeUnit.ofNat n :: t, rest)
          | _ => none
        else do
          let v ← simpleEscape e
          let (t, rest) ← parseString fuel s
          return (v :: t, rest)
    else if u.val < 0x20 then none
    else do
      let (t, rest) ← parseString fuel s
      return (u :: t, rest)

/-- A number without its sign. -/
def parseUnsigned (s : JsStr) : Option (ℚ × JsStr) :=
  match takeDigits s with
  | ([], _) => none
  | (0 :: _ :: _, _) => none
  | (whole, s) =>
    let (fraction, s) := match s with
      | u :: t => if isUnit u '.' then (some (takeDigits t).1, (takeDigits t).2) else (none, s)
      | [] => (none, s)
    match fraction with
    | some [] => none
    | _ =>
      let (exponent, s) := takeExponent s
      some (decimal whole (fraction.getD []) exponent, s)

def parseNumber (s : JsStr) : Option (JsValue × JsStr) :=
  match s with
  | u :: t =>
    if isUnit u '-' then (parseUnsigned t).map fun p => (.number (.ofRat (-p.1)), p.2)
    else (parseUnsigned s).map fun p => (.number (.ofRat p.1), p.2)
  | [] => none

/-- A later entry replaces the value of an earlier one of its key. -/
def setEntry (es : List (JsStr × JsValue)) (k : JsStr) (v : JsValue) : List (JsStr × JsValue) :=
  if es.any (·.1 = k) then es.map fun e => if e.1 = k then (k, v) else e else es ++ [(k, v)]

mutual

def parseValue : ℕ → JsStr → Option (JsValue × JsStr)
  | 0, _ => none
  | fuel + 1, s =>
    match skipBlanks s with
    | [] => none
    | u :: t =>
      if isUnit u '"' then (parseString fuel t).map fun p => (.string p.1, p.2)
      else if isUnit u '[' then
        match skipBlanks t with
        | v :: rest =>
          if isUnit v ']' then some (.array [], rest)
          else (parseItems fuel t).map fun p => (.array p.1, p.2)
        | [] => none
      else if isUnit u '\x7b' then
        match skipBlanks t with
        | v :: rest =>
          if isUnit v '\x7d' then some (.object [], rest)
          else (parseEntries fuel [] t).map fun p => (.object p.1, p.2)
        | [] => none
      else
        match stripWord ['n', 'u', 'l', 'l'] (u :: t), stripWord ['t', 'r', 'u', 'e'] (u :: t),
          stripWord ['f', 'a', 'l', 's', 'e'] (u :: t) with
        | some rest, _, _ => some (.null, rest)
        | _, some rest, _ => some (.bool true, rest)
        | _, _, some rest => some (.bool false, rest)
        | _, _, _ => parseNumber (u :: t)

def parseItems : ℕ → JsStr → Option (List JsValue × JsStr)
  | 0, _ => none
  | fuel + 1, s => do
    let (x, s) ← parseValue fuel s
    match skipBlanks s with
    | u :: t =>
      if isUnit u ',' then
        let (xs, rest) ← parseItems fuel t
        return (x :: xs, rest)
      else if isUnit u ']' then return ([x], t)
      else none
    | [] => none

def parseEntries : ℕ → List (JsStr × JsValue) → JsStr → Option (List (JsStr × JsValue) × JsStr)
  | 0, _, _ => none
  | fuel + 1, es, s =>
    match skipBlanks s with
    | u :: t =>
      if isUnit u '"' then do
        let (k, s) ← parseString fuel t
        match skipBlanks s with
        | v :: s =>
          if isUnit v ':' then
            let (x, s) ← parseValue fuel s
            let es := setEntry es k x
            match skipBlanks s with
            | w :: t =>
              if isUnit w ',' then parseEntries fuel es t
              else if isUnit w '\x7d' then return (es, t)
              else none
            | [] => none
          else none
        | [] => none
      else none
    | [] => none

end

/-- `JSON.parse`, with `none` for a `SyntaxError`. -/
def parse (s : JsStr) : Option JsValue := do
  let (v, rest) ← parseValue (2 * s.length + 1) s
  if skipBlanks rest = [] then return v else none

end JavaScript

/-- A property of a parsed value that objects alone have. -/
def JsValue.get? (v : JsValue) (key : JsStr) : Option JsValue :=
  match v with
  | .object es => (es.find? (·.1 = key)).map Prod.snd
  | _ => none

end EventHarbor
