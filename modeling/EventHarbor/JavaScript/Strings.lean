import EventHarbor.Serialization.Json

/-!
# JavaScript strings

A JavaScript string is a list of UTF-16 code units, lone surrogates included. Its
length counts code units, its order compares them, and iterating it combines
surrogate pairs into code points.
-/

namespace EventHarbor

abbrev CodeUnit := Fin 0x10000

theorem codeUnits_ne_zero : NeZero 0x10000 := ⟨by decide⟩

def CodeUnit.ofNat (n : ℕ) : CodeUnit := @Fin.ofNat 0x10000 codeUnits_ne_zero n

theorem CodeUnit.val_ofNat (n : ℕ) : (CodeUnit.ofNat n).val = n % 0x10000 := rfl

/-- A JavaScript string. -/
abbrev JsStr := List CodeUnit

namespace JavaScript

def isHigh (u : CodeUnit) : Bool := 0xD800 ≤ u.val && u.val ≤ 0xDBFF

def isLow (u : CodeUnit) : Bool := 0xDC00 ≤ u.val && u.val ≤ 0xDFFF

/-- The code point of a unit that is not part of a pair. -/
def single (u : CodeUnit) : CodePoint := u.castLE (by decide)

theorem codePoints_ne_zero : NeZero 0x110000 := ⟨by decide⟩

/-- The code point of a surrogate pair. -/
def pair (u v : CodeUnit) : CodePoint :=
  @Fin.ofNat 0x110000 codePoints_ne_zero (0x10000 + (u.val - 0xD800) * 0x400 + (v.val - 0xDC00))

/-- The code points of a string; lone surrogates stand for themselves. -/
def codePoints : JsStr → PyStr
  | [] => []
  | [u] => [single u]
  | u :: v :: rest =>
    if isHigh u && isLow v then pair u v :: codePoints rest
    else single u :: codePoints (v :: rest)

/-- The units of a code point. -/
def units (c : CodePoint) : JsStr :=
  if c.val < 0x10000 then [CodeUnit.ofNat c.val]
  else [CodeUnit.ofNat (0xD800 + (c.val - 0x10000) / 0x400),
    CodeUnit.ofNat (0xDC00 + (c.val - 0x10000) % 0x400)]

def utf16 (s : PyStr) : JsStr := s.flatMap units

def ofChars (cs : List Char) : JsStr := utf16 (PyStr.ofChars cs)

theorem replacement_lt : 0xFFFD < 0x110000 := by decide

/-- A lone surrogate is sent as the replacement character. -/
def scalarValue (c : CodePoint) : CodePoint :=
  if c.isSurrogate then ⟨0xFFFD, replacement_lt⟩ else c

/-- The UTF-8 bytes of a string, as `TextEncoder` writes them. -/
def utf8 (s : JsStr) : List UInt8 :=
  (codePoints s).flatMap fun c => String.utf8EncodeChar (Char.ofNat (scalarValue c).val)

/-- A unit of ASCII text. -/
def isUnit (u : CodeUnit) (c : Char) : Bool := u.val = c.toNat

/-- White space and line terminators. -/
def isBlank (u : CodeUnit) : Bool :=
  let n := u.val
  (0x09 ≤ n && n ≤ 0x0D) || n = 0x20 || n = 0xA0 || n = 0x1680 || (0x2000 ≤ n && n ≤ 0x200A) ||
    n = 0x2028 || n = 0x2029 || n = 0x202F || n = 0x205F || n = 0x3000 || n = 0xFEFF

def trimStart (s : JsStr) : JsStr := s.dropWhile isBlank

def trimEnd (s : JsStr) : JsStr := (s.reverse.dropWhile isBlank).reverse

def trim (s : JsStr) : JsStr := trimEnd (trimStart s)

/-! ## `JSON.stringify` of a string -/

/-- One code point of a JSON string. -/
def escape (c : CodePoint) : JsStr :=
  if c.val = 0x08 then ofChars ['\\', 'b']
  else if c.val = 0x09 then ofChars ['\\', 't']
  else if c.val = 0x0A then ofChars ['\\', 'n']
  else if c.val = 0x0C then ofChars ['\\', 'f']
  else if c.val = 0x0D then ofChars ['\\', 'r']
  else if c.val = 0x22 then ofChars ['\\', '"']
  else if c.val = 0x5C then ofChars ['\\', '\\']
  else if c.val < 0x20 || c.isSurrogate then ofChars ('\\' :: 'u' :: hexDigits 4 c.val)
  else units c

def stringify (s : JsStr) : JsStr := ofChars ['"'] ++ (codePoints s).flatMap escape ++ ofChars ['"']

/-! ## Round trips -/

@[simp] theorem utf16_nil : utf16 [] = [] := rfl

@[simp] theorem utf16_cons (c : CodePoint) (s : PyStr) : utf16 (c :: s) = units c ++ utf16 s := rfl

@[simp] theorem utf16_append (s t : PyStr) : utf16 (s ++ t) = utf16 s ++ utf16 t :=
  List.flatMap_append

theorem codePoints_cons_of_not_high {u : CodeUnit} (h : isHigh u = false) (s : JsStr) :
    codePoints (u :: s) = single u :: codePoints s := by
  cases s with
  | nil => rfl
  | cons v rest => rw [codePoints, h, Bool.false_and, if_neg Bool.false_ne_true]

/-- Scalar values are read back from their units. -/
theorem codePoints_units {c : CodePoint} (h : c.isSurrogate = false) (s : JsStr) :
    codePoints (units c ++ s) = c :: codePoints s := by
  simp only [CodePoint.isSurrogate, Bool.and_eq_false_iff, decide_eq_false_iff_not] at h
  have hlt := c.isLt
  unfold units
  split
  · rename_i hsmall
    have hval : (CodeUnit.ofNat c.val).val = c.val := Nat.mod_eq_of_lt hsmall
    have hhigh : isHigh (CodeUnit.ofNat c.val) = false := by
      simp only [isHigh, hval, Bool.and_eq_false_iff, decide_eq_false_iff_not]
      omega
    rw [List.singleton_append, codePoints_cons_of_not_high hhigh]
    exact congrArg (· :: codePoints s) (Fin.ext hval)
  · rename_i hbig
    have hhi : (CodeUnit.ofNat (0xD800 + (c.val - 0x10000) / 0x400)).val =
        0xD800 + (c.val - 0x10000) / 0x400 := Nat.mod_eq_of_lt (by omega)
    have hlo : (CodeUnit.ofNat (0xDC00 + (c.val - 0x10000) % 0x400)).val =
        0xDC00 + (c.val - 0x10000) % 0x400 := Nat.mod_eq_of_lt (by omega)
    have hpair : (isHigh (CodeUnit.ofNat (0xD800 + (c.val - 0x10000) / 0x400)) &&
        isLow (CodeUnit.ofNat (0xDC00 + (c.val - 0x10000) % 0x400))) = true := by
      simp only [isHigh, isLow, hhi, hlo, Bool.and_eq_true, decide_eq_true_eq]
      omega
    rw [List.cons_append, List.singleton_append, codePoints, if_pos hpair]
    refine congrArg (· :: codePoints s) (Fin.ext ?_)
    rw [pair, hhi, hlo, Fin.val_ofNat]
    omega

theorem codePoints_utf16 {s : PyStr} (h : s.any CodePoint.isSurrogate = false) :
    codePoints (utf16 s) = s := by
  induction s with
  | nil => rfl
  | cons c s ih =>
    rw [List.any_cons, Bool.or_eq_false_iff] at h
    rw [utf16_cons, codePoints_units h.1, ih h.2]

/-- Text without lone surrogates has the same UTF-8 bytes in both languages. -/
theorem utf8_utf16 {s : PyStr} {bytes : List UInt8} (h : encodeUtf8 s = some bytes) :
    utf8 (utf16 s) = bytes := by
  unfold encodeUtf8 at h
  split at h
  · cases h
  · rename_i hplain
    rw [Bool.not_eq_true] at hplain
    obtain rfl := Option.some.inj h
    rw [utf8, codePoints_utf16 hplain]
    refine List.flatMap_congr fun c hc => ?_
    have hc' : c.isSurrogate = false := by
      rw [List.any_eq_false] at hplain
      exact Bool.not_eq_true _ ▸ hplain c hc
    rw [scalarValue, hc', if_neg Bool.false_ne_true]

/-- Both languages escape scalar values alike. -/
theorem escape_eq {c : CodePoint} (h : c.isSurrogate = false) :
    escape c = utf16 (escapeCodePoint c) := by
  have hself : utf16 [c] = units c := List.append_nil _
  unfold escape escapeCodePoint
  rw [h, Bool.or_false]
  simp only [decide_eq_true_eq]
  split_ifs <;> first | omega | rfl | exact hself.symm

theorem stringify_utf16 {s : PyStr} (h : s.any CodePoint.isSurrogate = false) :
    stringify (utf16 s) = utf16 (quote s) := by
  have hbody : ∀ t : PyStr, t.any CodePoint.isSurrogate = false →
      t.flatMap escape = utf16 (t.flatMap escapeCodePoint) := by
    intro t ht
    induction t with
    | nil => rfl
    | cons c t ih =>
      rw [List.any_cons, Bool.or_eq_false_iff] at ht
      rw [List.flatMap_cons, List.flatMap_cons, utf16_append, escape_eq ht.1, ih ht.2]
  rw [stringify, codePoints_utf16 h, hbody s h, quote, utf16_cons, utf16_append]
  rfl

end JavaScript

end EventHarbor
