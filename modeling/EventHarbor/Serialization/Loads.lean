import EventHarbor.Serialization.Json

/-!
# Reading JSON

`json.loads` on a string, as its scanner works, and the UTF-8 decoders: the
strict one, and the lenient one that text evidence goes through. The recursion
of the scanner is bounded by fuel that its caller takes from the length of the
text.
-/

namespace EventHarbor

/-! ## Decoding bytes -/

def replacementChar : Char := Char.ofNat 0xFFFD

/-- The length of the sequence a byte starts; 0 when it starts none. -/
def utf8Length (b : UInt8) : ℕ :=
  let n := b.toNat
  if n < 0x80 then 1
  else if 0xC2 ≤ n ∧ n ≤ 0xDF then 2
  else if 0xE0 ≤ n ∧ n ≤ 0xEF then 3
  else if 0xF0 ≤ n ∧ n ≤ 0xF4 then 4
  else 0

def isContinuation (c : UInt8) : Bool := 0x80 ≤ c.toNat && c.toNat ≤ 0xBF

/-- The second byte of a sequence; overlong forms, surrogates and code points
after U+10FFFF are excluded here. -/
def isSecond (b c : UInt8) : Bool :=
  isContinuation c &&
    (b.toNat ≠ 0xE0 || 0xA0 ≤ c.toNat) && (b.toNat ≠ 0xED || c.toNat ≤ 0x9F) &&
    (b.toNat ≠ 0xF0 || 0x90 ≤ c.toNat) && (b.toNat ≠ 0xF4 || c.toNat ≤ 0x8F)

/-- `bytes.decode("utf-8", errors="replace")`: every maximal ill-formed prefix
becomes one replacement character. -/
def decodeReplace : List UInt8 → List Char
  | [] => []
  | b :: rest =>
    match utf8Length b, rest with
    | 1, rest => Char.ofNat b.toNat :: decodeReplace rest
    | 2, c :: cs =>
      if isSecond b c then
        Char.ofNat ((b.toNat - 0xC0) * 64 + (c.toNat - 0x80)) :: decodeReplace cs
      else replacementChar :: decodeReplace (c :: cs)
    | 3, c :: cs =>
      if isSecond b c then
        match cs with
        | d :: ds =>
          if isContinuation d then
            Char.ofNat ((b.toNat - 0xE0) * 4096 + (c.toNat - 0x80) * 64 + (d.toNat - 0x80)) ::
              decodeReplace ds
          else replacementChar :: decodeReplace (d :: ds)
        | [] => [replacementChar]
      else replacementChar :: decodeReplace (c :: cs)
    | 4, c :: cs =>
      if isSecond b c then
        match cs with
        | d :: ds =>
          if isContinuation d then
            match ds with
            | e :: es =>
              if isContinuation e then
                Char.ofNat ((b.toNat - 0xF0) * 262144 + (c.toNat - 0x80) * 4096 +
                  (d.toNat - 0x80) * 64 + (e.toNat - 0x80)) :: decodeReplace es
              else replacementChar :: decodeReplace (e :: es)
            | [] => [replacementChar]
          else replacementChar :: decodeReplace (d :: ds)
        | [] => [replacementChar]
      else replacementChar :: decodeReplace (c :: cs)
    | _, rest => replacementChar :: decodeReplace rest

/-- `bytes.decode("utf-8")` -/
def decodeUtf8 (bytes : List UInt8) : Option PyStr :=
  bytes.toByteArray.utf8Decode?.map fun cs => PyStr.ofChars cs.toList

/-! ## U+0000 -/

theorem nul_eq_ofNat {n : ℕ} (h : n.isValidChar) : '\x00' = Char.ofNat n ↔ n = 0 := by
  have hn : (Char.ofNat n).toNat = n := by
    rw [Char.ofNat, dif_pos h]
    rfl
  constructor
  · intro heq
    rw [← hn, ← heq]
    rfl
  · rintro rfl
    rfl

theorem nul_ne_ofNat {n : ℕ} (h : n.isValidChar) (hn : n ≠ 0) : '\x00' ≠ Char.ofNat n :=
  fun heq => hn ((nul_eq_ofNat h).mp heq)

theorem zero_ne_byte {b : UInt8} (h : 0x80 ≤ b.toNat) : 0 ≠ b := by
  rintro rfl
  exact absurd h (by decide)

/-- The bytes that start a sequence of each length. -/
theorem utf8Length_cases (b : UInt8) :
    (utf8Length b = 1 ∧ b.toNat < 0x80) ∨ (utf8Length b = 2 ∧ 0xC2 ≤ b.toNat ∧ b.toNat ≤ 0xDF) ∨
      (utf8Length b = 3 ∧ 0xE0 ≤ b.toNat ∧ b.toNat ≤ 0xEF) ∨
      (utf8Length b = 4 ∧ 0xF0 ≤ b.toNat ∧ b.toNat ≤ 0xF4) ∨
      (utf8Length b = 0 ∧ 0x80 ≤ b.toNat) := by
  simp only [utf8Length]
  split_ifs <;> omega

theorem zero_ne_lead {b : UInt8} (h : utf8Length b ≠ 1) : 0 ≠ b := by
  refine zero_ne_byte ?_
  rcases utf8Length_cases b with hb | hb | hb | hb | hb <;> omega

theorem toNat_of_continuation {c : UInt8} (h : isContinuation c = true) :
    0x80 ≤ c.toNat ∧ c.toNat ≤ 0xBF := by
  simpa [isContinuation] using h

theorem zero_ne_continuation {c : UInt8} (h : isContinuation c = true) : 0 ≠ c :=
  zero_ne_byte (toNat_of_continuation h).1

theorem continuation_of_second {b c : UInt8} (h : isSecond b c = true) :
    isContinuation c = true := by
  simp only [isSecond, Bool.and_eq_true] at h
  exact h.1.1.1.1

theorem nul_ne_replacementChar : '\x00' ≠ replacementChar := by decide

/-- U+0000 is decoded from the byte zero and from nothing else. -/
theorem nul_mem_decodeReplace (bs : List UInt8) : '\x00' ∈ decodeReplace bs ↔ (0 : UInt8) ∈ bs := by
  fun_induction decodeReplace bs with
  | case1 => simp
  | case2 b rest h ih =>
    have hb : b.toNat < 0x80 := by
      rcases utf8Length_cases b with hb | hb | hb | hb | hb <;> omega
    have hzero : b.toNat = 0 ↔ 0 = b := by
      rw [eq_comm, ← UInt8.toNat_inj]
      rfl
    rw [List.mem_cons, List.mem_cons, ih, nul_eq_ofNat (.inl (by omega)), hzero]
  | case3 b c cs h hsecond ih =>
    have hb : 0xC2 ≤ b.toNat ∧ b.toNat ≤ 0xDF := by
      rcases utf8Length_cases b with hb | hb | hb | hb | hb <;> omega
    have hc := toNat_of_continuation (continuation_of_second hsecond)
    have hn : '\x00' ≠ Char.ofNat ((b.toNat - 0xC0) * 64 + (c.toNat - 0x80)) :=
      nul_ne_ofNat (.inl (by omega)) (by omega)
    simp [ih, hn, zero_ne_lead (b := b) (by omega), zero_ne_byte hc.1]
  | case5 b c h hsecond d ds hd ih =>
    have hb : 0xE0 ≤ b.toNat ∧ b.toNat ≤ 0xEF := by
      rcases utf8Length_cases b with hb | hb | hb | hb | hb <;> omega
    have hc := toNat_of_continuation (continuation_of_second hsecond)
    have hd := toNat_of_continuation hd
    simp only [isSecond, Bool.and_eq_true, Bool.or_eq_true, decide_eq_true_eq] at hsecond
    have hn : '\x00' ≠ Char.ofNat ((b.toNat - 0xE0) * 4096 + (c.toNat - 0x80) * 64 +
        (d.toNat - 0x80)) := by
      refine nul_ne_ofNat ?_ (by omega)
      unfold Nat.isValidChar
      omega
    simp [ih, hn, zero_ne_lead (b := b) (by omega), zero_ne_byte hc.1, zero_ne_byte hd.1]
  | case9 b c h hsecond d hd e es he ih =>
    have hb : 0xF0 ≤ b.toNat ∧ b.toNat ≤ 0xF4 := by
      rcases utf8Length_cases b with hb | hb | hb | hb | hb <;> omega
    have hc := toNat_of_continuation (continuation_of_second hsecond)
    have hd := toNat_of_continuation hd
    have he := toNat_of_continuation he
    simp only [isSecond, Bool.and_eq_true, Bool.or_eq_true, decide_eq_true_eq] at hsecond
    have hn : '\x00' ≠ Char.ofNat ((b.toNat - 0xF0) * 262144 + (c.toNat - 0x80) * 4096 +
        (d.toNat - 0x80) * 64 + (e.toNat - 0x80)) := by
      refine nul_ne_ofNat ?_ (by omega)
      unfold Nat.isValidChar
      omega
    simp [ih, hn, zero_ne_lead (b := b) (by omega), zero_ne_byte hc.1, zero_ne_byte hd.1,
      zero_ne_byte he.1]
  -- The other cases replace bytes that are not zero.
  | case4 b c cs h hsecond ih => simp [ih, nul_ne_replacementChar, zero_ne_lead (b := b) (by omega)]
  | case6 b c h hsecond d ds hd ih =>
    simp [ih, nul_ne_replacementChar, zero_ne_lead (b := b) (by omega),
      zero_ne_continuation (continuation_of_second hsecond)]
  | case7 b c h hsecond =>
    simp [nul_ne_replacementChar, zero_ne_lead (b := b) (by omega),
      zero_ne_continuation (continuation_of_second hsecond)]
  | case8 b c cs h hsecond ih => simp [ih, nul_ne_replacementChar, zero_ne_lead (b := b) (by omega)]
  | case10 b c h hsecond d hd e es he ih =>
    simp [ih, nul_ne_replacementChar, zero_ne_lead (b := b) (by omega),
      zero_ne_continuation (continuation_of_second hsecond), zero_ne_continuation hd]
  | case11 b c h hsecond d hd =>
    simp [nul_ne_replacementChar, zero_ne_lead (b := b) (by omega),
      zero_ne_continuation (continuation_of_second hsecond), zero_ne_continuation hd]
  | case12 b c h hsecond d ds hd ih =>
    simp [ih, nul_ne_replacementChar, zero_ne_lead (b := b) (by omega),
      zero_ne_continuation (continuation_of_second hsecond)]
  | case13 b c h hsecond =>
    simp [nul_ne_replacementChar, zero_ne_lead (b := b) (by omega),
      zero_ne_continuation (continuation_of_second hsecond)]
  | case14 b c cs h hsecond ih => simp [ih, nul_ne_replacementChar, zero_ne_lead (b := b) (by omega)]
  | case15 b rest h₁ h₂ h₃ h₄ ih => simp [ih, nul_ne_replacementChar, zero_ne_lead h₁]

/-! ## Scanning text -/

/-- The exceptions of `json.loads`. Only the first two are decoding errors; an
integer literal with too many digits raises a plain `ValueError`. -/
inductive LoadsError
  | jsonDecode
  | unicodeDecode
  | value
deriving DecidableEq, Repr

/-- What a scanner read, with the text that follows. -/
abbrev Scanned (α : Type) := Except LoadsError (α × PyStr)

def isCode (c : CodePoint) (a : Char) : Bool := c.val = a.toNat

def isJsonSpace (c : CodePoint) : Bool :=
  isCode c ' ' || isCode c '\t' || isCode c '\n' || isCode c '\r'

def skipSpace (s : PyStr) : PyStr := s.dropWhile isJsonSpace

def digitOf (c : CodePoint) : Option ℕ :=
  if 48 ≤ c.val ∧ c.val ≤ 57 then some (c.val - 48) else none

def isDigit (c : CodePoint) : Bool := (digitOf c).isSome

def hexDigitOf (c : CodePoint) : Option ℕ :=
  if 48 ≤ c.val ∧ c.val ≤ 57 then some (c.val - 48)
  else if 97 ≤ c.val ∧ c.val ≤ 102 then some (c.val - 87)
  else if 65 ≤ c.val ∧ c.val ≤ 70 then some (c.val - 55)
  else none

/-- Four hexadecimal digits. -/
def hex4 : PyStr → Option (ℕ × PyStr)
  | a :: b :: c :: d :: rest =>
    match hexDigitOf a, hexDigitOf b, hexDigitOf c, hexDigitOf d with
    | some a, some b, some c, some d => some (a * 4096 + b * 256 + c * 16 + d, rest)
    | _, _, _, _ => none
  | _ => none

/-- A low surrogate after a high one belongs to the same character. -/
def joinSurrogates (u : ℕ) (rest : PyStr) : ℕ × PyStr :=
  if 0xD800 ≤ u ∧ u ≤ 0xDBFF then
    match rest with
    | a :: b :: rest' =>
      if isCode a '\\' && isCode b 'u' then
        match hex4 rest' with
        | some (v, rest'') =>
          if 0xDC00 ≤ v ∧ v ≤ 0xDFFF then
            (0x10000 + (u - 0xD800) * 1024 + (v - 0xDC00), rest'')
          else (u, rest)
        | none => (u, rest)
      else (u, rest)
    | _ => (u, rest)
  else (u, rest)

def shortEscape (c : CodePoint) : Option ℕ :=
  if isCode c '"' then some 0x22
  else if isCode c '\\' then some 0x5C
  else if isCode c '/' then some 0x2F
  else if isCode c 'b' then some 0x08
  else if isCode c 'f' then some 0x0C
  else if isCode c 'n' then some 0x0A
  else if isCode c 'r' then some 0x0D
  else if isCode c 't' then some 0x09
  else none

/-- Every number a scanner makes of an escape is a code point. -/
def CodePoint.ofNat (n : ℕ) : CodePoint := Fin.ofNat 0x110000 n

/-- One character in front of what was read. -/
def Scanned.cons (n : ℕ) (r : Scanned PyStr) : Scanned PyStr :=
  r.map fun p => (CodePoint.ofNat n :: p.1, p.2)

/-- A string, after its opening quote (`strict=True`). -/
def scanString : ℕ → PyStr → Scanned PyStr
  | 0, _ => .error .jsonDecode
  | _ + 1, [] => .error .jsonDecode
  | fuel + 1, c :: rest =>
    if isCode c '"' then .ok ([], rest)
    else if c.val < 0x20 then .error .jsonDecode
    else if isCode c '\\' then
      match rest with
      | [] => .error .jsonDecode
      | e :: rest =>
        if isCode e 'u' then
          match hex4 rest with
          | none => .error .jsonDecode
          | some (u, rest) =>
            let (u, rest) := joinSurrogates u rest
            (scanString fuel rest).cons u
        else
          match shortEscape e with
          | none => .error .jsonDecode
          | some n => (scanString fuel rest).cons n
    else (scanString fuel rest).cons c.val

def natOfDigits (ds : PyStr) : ℕ := ds.foldl (fun n d => 10 * n + (d.val - 48)) 0

def PyStr.chars (s : PyStr) : List Char := s.map fun c => Char.ofNat c.val

/-- `\.[0-9]+`, when it is there. -/
def scanFraction (s : PyStr) : PyStr × PyStr :=
  match s with
  | c :: rest =>
    if isCode c '.' && !(rest.takeWhile isDigit).isEmpty then
      (c :: rest.takeWhile isDigit, rest.dropWhile isDigit)
    else ([], s)
  | [] => ([], s)

/-- `[-+]?[0-9]+` -/
def scanSigned (s : PyStr) : Option (PyStr × PyStr) :=
  let (sign, digits) := match s with
    | c :: rest => if isCode c '-' || isCode c '+' then ([c], rest) else ([], s)
    | [] => ([], s)
  if (digits.takeWhile isDigit).isEmpty then none
  else some (sign ++ digits.takeWhile isDigit, digits.dropWhile isDigit)

/-- `[eE][-+]?[0-9]+`, when it is there. -/
def scanExponent (s : PyStr) : PyStr × PyStr :=
  match s with
  | c :: rest =>
    if isCode c 'e' || isCode c 'E' then
      match scanSigned rest with
      | some (digits, rest') => (c :: digits, rest')
      | none => ([], s)
    else ([], s)
  | [] => ([], s)

/-- `0|[1-9][0-9]*` -/
def scanInteger (s : PyStr) : Option (PyStr × PyStr) :=
  match s with
  | c :: rest =>
    if isCode c '0' then some ([c], rest)
    else if isDigit c then some (c :: rest.takeWhile isDigit, rest.dropWhile isDigit)
    else none
  | [] => none

def stripText (text : String) (s : PyStr) : Option PyStr :=
  if PyStr.ofString text <+: s then some (s.drop text.toList.length) else none

def PyFloat.nan : PyFloat := ⟨0x7FF8000000000000⟩

def PyFloat.infinity (negative : Bool) : PyFloat :=
  if negative then ⟨0xFFF0000000000000⟩ else ⟨0x7FF0000000000000⟩

/-- A later value for a key takes the place of the earlier one. -/
def dictSet (members : List (PyStr × Json)) (m : PyStr × Json) : List (PyStr × Json) :=
  if members.any (·.1 = m.1) then members.map fun p => if p.1 = m.1 then m else p
  else members ++ [m]

def dictOf (pairs : List (PyStr × Json)) : List (PyStr × Json) := pairs.foldl dictSet []

section Scanner

-- `float(text)` on a JSON number
variable (floatOf : List Char → PyFloat)

/-- A number after its sign. -/
def scanNumber (negative : Bool) (s : PyStr) : Scanned Json :=
  match scanInteger s with
  | none => .error .jsonDecode
  | some (digits, rest) =>
    let (fraction, rest) := scanFraction rest
    let (exponent, rest) := scanExponent rest
    if fraction.isEmpty && exponent.isEmpty then
      if maxStrDigits < digits.length then .error .value
      else .ok (.int (if negative then -natOfDigits digits else natOfDigits digits), rest)
    else
      let text := PyStr.chars (digits ++ fraction ++ exponent)
      .ok (.float (floatOf (if negative then '-' :: text else text)), rest)

/-- A value that is not a string, an array or an object. -/
def scanAtom (s : PyStr) : Scanned Json :=
  match stripText "null" s, stripText "true" s, stripText "false" s with
  | some rest, _, _ => .ok (.null, rest)
  | _, some rest, _ => .ok (.bool true, rest)
  | _, _, some rest => .ok (.bool false, rest)
  | none, none, none =>
    match stripText "NaN" s, stripText "Infinity" s, stripText "-Infinity" s with
    | some rest, _, _ => .ok (.float .nan, rest)
    | _, some rest, _ => .ok (.float (.infinity false), rest)
    | _, _, some rest => .ok (.float (.infinity true), rest)
    | none, none, none =>
      match s with
      | c :: rest => if isCode c '-' then scanNumber floatOf true rest else scanNumber floatOf false s
      | [] => .error .jsonDecode

mutual

/-- One value. -/
def scanOnce : ℕ → PyStr → Scanned Json
  | 0, _ => .error .jsonDecode
  | _ + 1, [] => .error .jsonDecode
  | fuel + 1, c :: rest =>
    if isCode c '"' then (scanString fuel rest).map fun p => (.str p.1, p.2)
    else if isCode c '[' then
      match skipSpace rest with
      | [] => .error .jsonDecode
      | d :: after =>
        if isCode d ']' then .ok (.arr [], after)
        else (scanItems fuel (d :: after)).map fun p => (.arr p.1, p.2)
    else if isCode c '{' then
      match skipSpace rest with
      | [] => .error .jsonDecode
      | d :: after =>
        if isCode d '}' then .ok (.obj [], after)
        else (scanMembers fuel (d :: after)).map fun p => (.obj (dictOf p.1), p.2)
    else scanAtom floatOf (c :: rest)

/-- The items of an array, from the first one on. -/
def scanItems : ℕ → PyStr → Scanned (List Json)
  | 0, _ => .error .jsonDecode
  | fuel + 1, s =>
    match scanOnce fuel s with
    | .error e => .error e
    | .ok (v, rest) =>
      match skipSpace rest with
      | [] => .error .jsonDecode
      | d :: after =>
        if isCode d ']' then .ok ([v], after)
        else if isCode d ',' then (scanItems fuel (skipSpace after)).map fun p => (v :: p.1, p.2)
        else .error .jsonDecode

/-- The members of an object, from the first key on. -/
def scanMembers : ℕ → PyStr → Scanned (List (PyStr × Json))
  | 0, _ => .error .jsonDecode
  | _ + 1, [] => .error .jsonDecode
  | fuel + 1, c :: s =>
    if isCode c '"' then
      match scanString fuel s with
      | .error e => .error e
      | .ok (key, rest) =>
        match skipSpace rest with
        | [] => .error .jsonDecode
        | d :: after =>
          if isCode d ':' then
            match scanOnce fuel (skipSpace after) with
            | .error e => .error e
            | .ok (v, rest) =>
              match skipSpace rest with
              | [] => .error .jsonDecode
              | d :: after =>
                if isCode d '}' then .ok ([(key, v)], after)
                else if isCode d ',' then
                  (scanMembers fuel (skipSpace after)).map fun p => ((key, v) :: p.1, p.2)
                else .error .jsonDecode
          else .error .jsonDecode
    else .error .jsonDecode

end

/-- `json.loads(text)` -/
def Json.loads (text : PyStr) : Except LoadsError Json :=
  match text with
  | c :: _ =>
    if c.val = 0xFEFF then .error .jsonDecode
    else
      match scanOnce floatOf (2 * text.length + 2) (skipSpace text) with
      | .error e => .error e
      | .ok (j, rest) => if skipSpace rest = [] then .ok j else .error .jsonDecode
  | [] => .error .jsonDecode

end Scanner

end EventHarbor
