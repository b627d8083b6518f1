import EventHarbor.Serialization.Loads

/-!
# Canonical JSON can be read back

The scanner inverts the canonical text. So two values have the same text
exactly when they are equal up to the order of object members.
-/

namespace EventHarbor

/-! ## Code points -/

@[simp] theorem CodePoint.val_ofChar (a : Char) : (CodePoint.ofChar a).val = a.toNat := rfl

@[simp] theorem isCode_ofChar (a b : Char) : isCode (CodePoint.ofChar a) b = decide (a.toNat = b.toNat) :=
  rfl

@[simp] theorem CodePoint.ofNat_val (c : CodePoint) : CodePoint.ofNat c.val = c := by
  simp [CodePoint.ofNat]

theorem Scanned.cons_ok (c : CodePoint) (s rest : PyStr) :
    Scanned.cons c.val (.ok (s, rest)) = .ok (c :: s, rest) := by
  simp [Scanned.cons, Except.map]

/-! ## Strings -/

theorem hexDigitOf_digitChar {d : ℕ} (h : d < 16) :
    hexDigitOf (CodePoint.ofChar (Nat.digitChar d)) = some d := by
  have : ∀ d : Fin 16, hexDigitOf (CodePoint.ofChar (Nat.digitChar d.val)) = some d.val := by decide
  exact this ⟨d, h⟩

theorem hex4_hexDigits {n : ℕ} (h : n < 0x10000) (rest : PyStr) :
    hex4 (PyStr.ofChars (hexDigits 4 n) ++ rest) = some (n, rest) := by
  have h₁ := hexDigitOf_digitChar (show n / 16 / 16 / 16 % 16 < 16 by omega)
  have h₂ := hexDigitOf_digitChar (show n / 16 / 16 % 16 < 16 by omega)
  have h₃ := hexDigitOf_digitChar (show n / 16 % 16 < 16 by omega)
  have h₄ := hexDigitOf_digitChar (show n % 16 < 16 by omega)
  simp only [hexDigits, List.nil_append, PyStr.ofChars, List.map_cons, List.map_nil,
    List.cons_append, hex4, h₁, h₂, h₃, h₄]
  congr 2
  omega

theorem scanString_short {n : ℕ} {e : CodePoint} (hu : isCode e 'u' = false)
    (he : shortEscape e = some n) (fuel : ℕ) (rest : PyStr) :
    scanString (fuel + 1) (CodePoint.ofChar '\\' :: e :: rest) = (scanString fuel rest).cons n := by
  simp [scanString, hu, he]

/-- An escaped character is read as that character. -/
theorem scanString_escape (c : CodePoint) (fuel : ℕ) (rest : PyStr) :
    scanString (fuel + 1) (escapeCodePoint c ++ rest) = (scanString fuel rest).cons c.val := by
  by_cases h₁ : c.val = 0x22
  · simp only [escapeCodePoint, h₁, if_true]
    exact scanString_short rfl rfl fuel rest
  by_cases h₂ : c.val = 0x5C
  · simp only [escapeCodePoint, h₂]
    exact scanString_short rfl rfl fuel rest
  by_cases h₃ : c.val = 0x0A
  · simp only [escapeCodePoint, h₃]
    exact scanString_short rfl rfl fuel rest
  by_cases h₄ : c.val = 0x0D
  · simp only [escapeCodePoint, h₄]
    exact scanString_short rfl rfl fuel rest
  by_cases h₅ : c.val = 0x09
  · simp only [escapeCodePoint, h₅]
    exact scanString_short rfl rfl fuel rest
  by_cases h₆ : c.val = 0x0C
  · simp only [escapeCodePoint, h₆]
    exact scanString_short rfl rfl fuel rest
  by_cases h₇ : c.val = 0x08
  · simp only [escapeCodePoint, h₇]
    exact scanString_short rfl rfl fuel rest
  by_cases h₈ : c.val < 0x20
  · have hhex := hex4_hexDigits (show c.val < 0x10000 by omega) rest
    have hjoin : joinSurrogates c.val rest = (c.val, rest) := by
      unfold joinSurrogates
      rw [if_neg (by omega)]
    simp only [escapeCodePoint, h₁, h₂, h₃, h₄, h₅, h₆, h₇, h₈, if_false, if_true, unicodeEscape]
    simp only [PyStr.ofChars] at hhex
    simp [scanString, PyStr.ofChars, hhex, hjoin]
  · simp only [escapeCodePoint, h₁, h₂, h₃, h₄, h₅, h₆, h₇, h₈, if_false]
    have hquote : isCode c '"' = false := by simpa [isCode] using h₁
    have hslash : isCode c '\\' = false := by simpa [isCode] using h₂
    simp [scanString, hquote, hslash, h₈]

/-- A quoted string is read back. -/
theorem scanString_quote (s : PyStr) {fuel : ℕ} (h : s.length < fuel) (rest : PyStr) :
    scanString fuel (s.flatMap escapeCodePoint ++ CodePoint.ofChar '"' :: rest) = .ok (s, rest) := by
  induction s generalizing fuel with
  | nil =>
    obtain ⟨n, rfl⟩ : ∃ n, fuel = n + 1 := ⟨fuel - 1, by simp at h; omega⟩
    simp [scanString]
  | cons c s ih =>
    obtain ⟨n, rfl⟩ : ∃ n, fuel = n + 1 := ⟨fuel - 1, by simp at h; omega⟩
    rw [List.flatMap_cons, List.append_assoc, scanString_escape, ih (by simpa using h),
      Scanned.cons_ok]

theorem length_quote (s : PyStr) : s.length + 2 ≤ (quote s).length := by
  have hle : ∀ c : CodePoint, 1 ≤ (escapeCodePoint c).length := by
    intro c
    unfold escapeCodePoint
    split_ifs <;> simp [PyStr.ofChars, unicodeEscape]
  have hsum : s.length ≤ (s.flatMap escapeCodePoint).length := by
    induction s with
    | nil => simp
    | cons c s ih =>
      have := hle c
      simp only [List.flatMap_cons, List.length_append, List.length_cons]
      omega
  simp only [quote, List.length_cons, List.length_append, List.length_nil]
  omega

/-! ## Numbers -/

/-- What can follow a value in canonical text. -/
def Ends (rest : PyStr) : Prop :=
  ∀ c ∈ rest.head?, c = CodePoint.ofChar ',' ∨ c = CodePoint.ofChar ']' ∨ c = CodePoint.ofChar '}'

/-- `0|[1-9][0-9]*` -/
def Numeral (ds : PyStr) : Prop :=
  ds = [CodePoint.ofChar '0'] ∨ ∃ d ds', ds = d :: ds' ∧ isDigit d = true ∧
    isCode d '0' = false ∧ ∀ c ∈ ds', isDigit c = true

theorem digits_append {ds rest : PyStr} (hd : ∀ c ∈ ds, isDigit c = true)
    (hr : ∀ c ∈ rest.head?, isDigit c = false) :
    (ds ++ rest).takeWhile isDigit = ds ∧ (ds ++ rest).dropWhile isDigit = rest := by
  have hnone : rest.takeWhile isDigit = [] ∧ rest.dropWhile isDigit = rest := by
    cases rest with
    | nil => simp
    | cons c rest => simp [hr c (by simp)]
  rw [List.takeWhile_append_of_pos hd, List.dropWhile_append_of_pos hd, hnone.1, hnone.2]
  simp

theorem isDigit_ofChar {a : Char} (h : a.isDigit = true) : isDigit (CodePoint.ofChar a) = true := by
  simp only [Char.isDigit, Bool.and_eq_true, decide_eq_true_eq] at h
  have h₁ : 48 ≤ a.toNat := by simpa using UInt32.le_iff_toNat_le.mp h.1
  have h₂ : a.toNat ≤ 57 := by simpa using UInt32.le_iff_toNat_le.mp h.2
  simp [isDigit, digitOf, h₁, h₂]

theorem isDigit_toDigits (n : ℕ) : ∀ c ∈ PyStr.ofChars (Nat.toDigits 10 n), isDigit c = true := by
  intro c hc
  obtain ⟨a, ha, rfl⟩ := List.mem_map.mp hc
  exact isDigit_ofChar (Nat.isDigit_of_mem_toDigits (by omega) (by omega) ha)

/-- Positive numbers have no leading zero. -/
theorem toDigits_head {n : ℕ} (h : 0 < n) :
    ∃ a as, Nat.toDigits 10 n = a :: as ∧ a ≠ '0' := by
  induction n using Nat.strongRecOn with
  | ind n ih =>
    by_cases hn : n < 10
    · have : ∀ k : Fin 10, 0 < k.val → Nat.digitChar k.val ≠ '0' := by decide
      exact ⟨_, _, Nat.toDigits_of_lt_base hn, this ⟨n, hn⟩ h⟩
    · obtain ⟨a, as, heq, ha⟩ := ih (n / 10) (by omega) (by omega)
      exact ⟨a, _, by rw [Nat.toDigits_of_base_le (by omega) (by omega), heq]; rfl, ha⟩

theorem numeral_toDigits (n : ℕ) : Numeral (PyStr.ofChars (Nat.toDigits 10 n)) := by
  rcases Nat.eq_zero_or_pos n with rfl | hn
  · exact .inl (by rw [Nat.toDigits_zero]; rfl)
  · obtain ⟨a, as, heq, ha⟩ := toDigits_head hn
    have hall := isDigit_toDigits n
    rw [heq] at hall ⊢
    refine .inr ⟨_, _, rfl, hall _ (by simp [PyStr.ofChars]), ?_, fun c hc => hall c (by simp [PyStr.ofChars] at hc ⊢; exact .inr hc)⟩
    simp only [isCode_ofChar, decide_eq_false_iff_not]
    exact fun h => ha (Char.toNat_inj.mp h)

theorem natOfDigits_toDigits (n : ℕ) : natOfDigits (PyStr.ofChars (Nat.toDigits 10 n)) = n := by
  rw [natOfDigits, PyStr.ofChars, List.foldl_map]
  exact Nat.ofDigitChars_ten_toDigits

theorem scanInteger_numeral {ds rest : PyStr} (h : Numeral ds)
    (hr : ∀ c ∈ rest.head?, isDigit c = false) : scanInteger (ds ++ rest) = some (ds, rest) := by
  rcases h with rfl | ⟨d, ds', rfl, hd, h0, hall⟩
  · simp [scanInteger]
  · obtain ⟨htake, hdrop⟩ := digits_append hall hr
    simp only [List.cons_append, scanInteger, h0, hd, htake, hdrop]
    rfl

theorem scanFraction_none {rest : PyStr} (h : ∀ c ∈ rest.head?, isCode c '.' = false) :
    scanFraction rest = ([], rest) := by
  cases rest with
  | nil => rfl
  | cons c rest => simp [scanFraction, h c (by simp)]

theorem scanExponent_none {rest : PyStr}
    (h : ∀ c ∈ rest.head?, isCode c 'e' = false ∧ isCode c 'E' = false) :
    scanExponent rest = ([], rest) := by
  cases rest with
  | nil => rfl
  | cons c rest => simp [scanExponent, h c (by simp)]

/-- What follows a value does not go on with a number. -/
theorem Ends.stops {rest : PyStr} (h : Ends rest) : ∀ c ∈ rest.head?,
    isDigit c = false ∧ isCode c '.' = false ∧ isCode c 'e' = false ∧ isCode c 'E' = false := by
  intro c hc
  rcases h c hc with rfl | rfl | rfl <;> decide

variable {floatOf : List Char → PyFloat}

variable (floatOf) in
theorem scanNumber_int (n : ℕ) (negative : Bool) {rest : PyStr} (hrest : Ends rest)
    (hlen : (Nat.toDigits 10 n).length ≤ maxStrDigits) :
    scanNumber floatOf negative (PyStr.ofChars (Nat.toDigits 10 n) ++ rest) =
      .ok (.int (if negative then -n else n), rest) := by
  have hstops := hrest.stops
  unfold scanNumber
  rw [scanInteger_numeral (numeral_toDigits n) fun c hc => (hstops c hc).1]
  simp only [scanFraction_none fun c hc => (hstops c hc).2.1,
    scanExponent_none fun c hc => (hstops c hc).2.2, List.isEmpty_nil, Bool.and_true, if_true,
    natOfDigits_toDigits]
  rw [if_neg]
  simpa [PyStr.ofChars] using hlen

/-- A text is not found where another character stands. -/
theorem stripText_of_ne (text : String) {a : Char} {as : List Char} (htext : text.toList = a :: as)
    {c : CodePoint} (hc : isCode c a = false) (s : PyStr) : stripText text (c :: s) = none := by
  rw [stripText, if_neg]
  rw [PyStr.ofString, PyStr.ofChars, htext, List.map_cons, List.cons_prefix_cons]
  rintro ⟨rfl, -⟩
  simp at hc

theorem stripText_append (text : String) (rest : PyStr) :
    stripText text (PyStr.ofString text ++ rest) = some rest := by
  rw [stripText, if_pos (List.prefix_append _ _)]
  simp [PyStr.ofString, PyStr.ofChars]

theorem isCode_of_digit {d : CodePoint} (hd : isDigit d = true) {a : Char}
    (ha : a.toNat < 48 ∨ 57 < a.toNat) : isCode d a = false := by
  simp only [isDigit, digitOf] at hd
  split at hd
  · simp only [isCode, decide_eq_false_iff_not]
    omega
  · cases hd

/-- A character that starts a number. -/
theorem scanAtom_digit {d : CodePoint} (hd : isDigit d = true) (s : PyStr) :
    scanAtom floatOf (d :: s) = scanNumber floatOf false (d :: s) := by
  have hne : ∀ a : Char, (a.toNat < 48 ∨ 57 < a.toNat) → isCode d a = false := fun _ =>
    isCode_of_digit hd
  simp only [scanAtom, stripText_of_ne "null" rfl (hne 'n' (by decide)),
    stripText_of_ne "true" rfl (hne 't' (by decide)),
    stripText_of_ne "false" rfl (hne 'f' (by decide)),
    stripText_of_ne "NaN" rfl (hne 'N' (by decide)),
    stripText_of_ne "Infinity" rfl (hne 'I' (by decide)),
    stripText_of_ne "-Infinity" rfl (hne '-' (by decide)), hne '-' (by decide)]
  rfl

theorem scanAtom_minus {d : CodePoint} (hd : isDigit d = true) (s : PyStr) :
    scanAtom floatOf (CodePoint.ofChar '-' :: d :: s) = scanNumber floatOf true (d :: s) := by
  have hinf : stripText "-Infinity" (CodePoint.ofChar '-' :: d :: s) = none := by
    rw [stripText, if_neg]
    rw [show PyStr.ofString "-Infinity" = CodePoint.ofChar '-' :: CodePoint.ofChar 'I' ::
      PyStr.ofString "nfinity" from rfl, List.cons_prefix_cons, List.cons_prefix_cons]
    rintro ⟨-, rfl, -⟩
    revert hd
    decide
  simp only [scanAtom, stripText_of_ne "null" (c := CodePoint.ofChar '-') rfl rfl,
    stripText_of_ne "true" (c := CodePoint.ofChar '-') rfl rfl,
    stripText_of_ne "false" (c := CodePoint.ofChar '-') rfl rfl,
    stripText_of_ne "NaN" (c := CodePoint.ofChar '-') rfl rfl,
    stripText_of_ne "Infinity" (c := CodePoint.ofChar '-') rfl rfl, hinf]
  rfl

theorem Numeral.head {ds : PyStr} (h : Numeral ds) : ∃ d ds', ds = d :: ds' ∧ isDigit d = true := by
  rcases h with rfl | ⟨d, ds', rfl, hd, -⟩
  · exact ⟨_, _, rfl, by decide⟩
  · exact ⟨d, ds', rfl, hd⟩

theorem scanAtom_int (n : ℤ) {rest : PyStr} (hrest : Ends rest)
    (hlen : (Nat.toDigits 10 n.natAbs).length ≤ maxStrDigits) :
    scanAtom floatOf (intText n ++ rest) = .ok (.int n, rest) := by
  cases n with
  | ofNat n =>
    obtain ⟨d, ds, heq, hd⟩ := (numeral_toDigits n).head
    have hscan := scanNumber_int floatOf n false hrest hlen
    simp only [intText]
    rw [heq] at hscan ⊢
    rw [List.cons_append, scanAtom_digit hd]
    exact hscan
  | negSucc n =>
    obtain ⟨d, ds, heq, hd⟩ := (numeral_toDigits (n + 1)).head
    have hscan := scanNumber_int floatOf (n + 1) true hrest hlen
    simp only [intText]
    rw [heq] at hscan ⊢
    rw [List.cons_append, List.cons_append, scanAtom_minus hd, ← List.cons_append, hscan]
    rfl

/-! ## Floats -/

/-- A fraction or an exponent that is there. -/
inductive Tail : PyStr → PyStr → Prop
  | fraction {ds : PyStr} (hne : ds ≠ []) (hd : ∀ c ∈ ds, isDigit c = true) :
      Tail (CodePoint.ofChar '.' :: ds) []
  | exponent {sign ds : PyStr} (hs : sign = [] ∨ sign = [CodePoint.ofChar '+'] ∨
        sign = [CodePoint.ofChar '-']) (hne : ds ≠ []) (hd : ∀ c ∈ ds, isDigit c = true) :
      Tail [] (CodePoint.ofChar 'e' :: (sign ++ ds))
  | both {fs sign ds : PyStr} (hf : fs ≠ []) (hfd : ∀ c ∈ fs, isDigit c = true)
      (hs : sign = [] ∨ sign = [CodePoint.ofChar '+'] ∨ sign = [CodePoint.ofChar '-'])
      (hne : ds ≠ []) (hd : ∀ c ∈ ds, isDigit c = true) :
      Tail (CodePoint.ofChar '.' :: fs) (CodePoint.ofChar 'e' :: (sign ++ ds))

/-- What is documented of `float.__repr__`: a finite float is written as a
decimal number with a fraction or an exponent, and two floats are written
alike only when they are the same. -/
structure FloatRepr (floatRepr : PyFloat → List Char) : Prop where
  shape : ∀ x : PyFloat, x.isFinite = true → ∃ (negative : Bool) (digits fraction exponent : PyStr),
    PyStr.ofChars (floatRepr x) =
      (if negative then [CodePoint.ofChar '-'] else []) ++ (digits ++ (fraction ++ exponent)) ∧
    Numeral digits ∧ Tail fraction exponent
  injective : ∀ x y : PyFloat, x.isFinite = true → y.isFinite = true →
    floatRepr x = floatRepr y → x = y

theorem scanSigned_digits {sign ds rest : PyStr}
    (hs : sign = [] ∨ sign = [CodePoint.ofChar '+'] ∨ sign = [CodePoint.ofChar '-'])
    (hne : ds ≠ []) (hd : ∀ c ∈ ds, isDigit c = true)
    (hr : ∀ c ∈ rest.head?, isDigit c = false) :
    scanSigned (sign ++ ds ++ rest) = some (sign ++ ds, rest) := by
  obtain ⟨htake, hdrop⟩ := digits_append hd hr
  have hempty : ds.isEmpty = false := by simpa using hne
  rcases hs with rfl | rfl | rfl
  · obtain ⟨d, ds', rfl⟩ := List.exists_cons_of_ne_nil hne
    have hdig := hd d (by simp)
    have hsign : (isCode d '-' || isCode d '+') = false := by
      rw [isCode_of_digit hdig (by decide), isCode_of_digit hdig (by decide)]
      rfl
    rw [List.cons_append] at htake hdrop
    simp [scanSigned, hsign, htake, hdrop]
  · simp [scanSigned, htake, hdrop, hempty]
  · simp [scanSigned, htake, hdrop, hempty]

theorem scanExponent_digits {sign ds rest : PyStr}
    (hs : sign = [] ∨ sign = [CodePoint.ofChar '+'] ∨ sign = [CodePoint.ofChar '-'])
    (hne : ds ≠ []) (hd : ∀ c ∈ ds, isDigit c = true) (hrest : Ends rest) :
    scanExponent (CodePoint.ofChar 'e' :: (sign ++ ds) ++ rest) =
      (CodePoint.ofChar 'e' :: (sign ++ ds), rest) := by
  simp only [List.cons_append, scanExponent,
    scanSigned_digits hs hne hd fun c hc => (hrest.stops c hc).1]
  rfl

theorem scanFraction_digits {ds rest : PyStr} (hne : ds ≠ []) (hd : ∀ c ∈ ds, isDigit c = true)
    (hr : ∀ c ∈ rest.head?, isDigit c = false) :
    scanFraction (CodePoint.ofChar '.' :: ds ++ rest) = (CodePoint.ofChar '.' :: ds, rest) := by
  obtain ⟨htake, hdrop⟩ := digits_append hd hr
  have hempty : ds.isEmpty = false := by simpa using hne
  simp [scanFraction, htake, hdrop, hempty]

theorem scanTail {fraction exponent rest : PyStr} (h : Tail fraction exponent) (hrest : Ends rest) :
    scanFraction (fraction ++ (exponent ++ rest)) = (fraction, exponent ++ rest) ∧
      scanExponent (exponent ++ rest) = (exponent, rest) := by
  cases h with
  | fraction hne hd =>
    exact ⟨scanFraction_digits hne hd fun c hc => (hrest.stops c hc).1,
      scanExponent_none fun c hc => (hrest.stops c hc).2.2⟩
  | exponent hs hne hd =>
    refine ⟨scanFraction_none ?_, scanExponent_digits hs hne hd hrest⟩
    intro c hc
    cases hc
    rfl
  | both hf hfd hs hne hd =>
    refine ⟨scanFraction_digits hf hfd ?_, scanExponent_digits hs hne hd hrest⟩
    intro c hc
    cases hc
    rfl

/-- What starts a fraction or an exponent is not a digit. -/
theorem Tail.not_digit {fraction exponent : PyStr} (h : Tail fraction exponent) (rest : PyStr) :
    (∀ c ∈ (fraction ++ (exponent ++ rest)).head?, isDigit c = false) ∧
      (fraction.isEmpty && exponent.isEmpty) = false := by
  cases h <;> refine ⟨fun c hc => ?_, rfl⟩ <;> cases hc <;> rfl

theorem ofChars_append (a b : List Char) :
    PyStr.ofChars (a ++ b) = PyStr.ofChars a ++ PyStr.ofChars b := List.map_append

theorem chars_ofChars (cs : List Char) : PyStr.chars (PyStr.ofChars cs) = cs := by
  rw [PyStr.chars, PyStr.ofChars, List.map_map]
  refine (List.map_congr_left fun c _ => ?_).trans (List.map_id cs)
  simp

/-- A finite float is read back. -/
theorem scanAtom_float {floatRepr : PyFloat → List Char} (hf : FloatRepr floatRepr)
    (hinv : ∀ x : PyFloat, x.isFinite = true → floatOf (floatRepr x) = x) {x : PyFloat}
    (hx : x.isFinite = true) {rest : PyStr} (hrest : Ends rest) :
    scanAtom floatOf (PyStr.ofChars (floatRepr x) ++ rest) = .ok (.float x, rest) := by
  obtain ⟨negative, digits, fraction, exponent, heq, hdigits, htail⟩ := hf.shape x hx
  obtain ⟨d, ds, hcons, hd⟩ := hdigits.head
  obtain ⟨hnot, hempty⟩ := htail.not_digit rest
  obtain ⟨hfrac, hexp⟩ := scanTail htail hrest
  have hnumber : ∀ negative, scanNumber floatOf negative
      (digits ++ (fraction ++ (exponent ++ rest))) =
      .ok (.float (floatOf (if negative then '-' :: PyStr.chars (digits ++ fraction ++ exponent)
        else PyStr.chars (digits ++ fraction ++ exponent))), rest) := by
    intro negative
    unfold scanNumber
    rw [scanInteger_numeral hdigits hnot]
    simp only [hfrac, hexp, hempty]
    rfl
  have htext := congrArg PyStr.chars heq
  rw [chars_ofChars] at htext
  rw [heq]
  cases negative with
  | false =>
    have hscan := hnumber false
    have hchars : PyStr.chars (digits ++ fraction ++ exponent) = floatRepr x := by
      rw [htext]
      simp
    simp only [hchars, Bool.false_eq_true, if_false, hinv x hx] at hscan
    simp only [Bool.false_eq_true, if_false, List.nil_append, List.append_assoc]
    rw [hcons] at hscan ⊢
    rw [List.cons_append, scanAtom_digit hd, ← List.cons_append, hscan]
  | true =>
    have hscan := hnumber true
    have hchars : '-' :: PyStr.chars (digits ++ fraction ++ exponent) = floatRepr x := by
      rw [htext]
      simp [PyStr.chars]
    simp only [hchars, if_true, hinv x hx] at hscan
    simp only [if_true, List.cons_append, List.nil_append, List.append_assoc]
    rw [hcons] at hscan ⊢
    rw [List.cons_append, scanAtom_minus hd, ← List.cons_append, hscan]

/-! ## Values -/

section Values

variable (floatRepr : PyFloat → List Char)

mutual

/-- The text of a value with its members in the order they have. -/
def Json.flat : Json → PyStr
  | .null => PyStr.ofString "null"
  | .bool true => PyStr.ofString "true"
  | .bool false => PyStr.ofString "false"
  | .int n => intText n
  | .float x => PyStr.ofChars (floatRepr x)
  | .str s => quote s
  | .arr xs => CodePoint.ofChar '[' :: (joinComma (Json.itemsFlat xs) ++ [CodePoint.ofChar ']'])
  | .obj ms => CodePoint.ofChar '{' :: (joinComma (Json.membersFlat ms) ++ [CodePoint.ofChar '}'])

def Json.itemsFlat : List Json → List PyStr
  | [] => []
  | x :: xs => x.flat :: Json.itemsFlat xs

def Json.membersFlat : List (PyStr × Json) → List PyStr
  | [] => []
  | (k, v) :: ms => memberText (k, v.flat) :: Json.membersFlat ms

end

variable {floatRepr}

theorem joinComma_cons (t t' : PyStr) (ts : List PyStr) :
    joinComma (t :: t' :: ts) = t ++ CodePoint.ofChar ',' :: joinComma (t' :: ts) := rfl

theorem skipSpace_cons {c : CodePoint} (h : isJsonSpace c = false) (s : PyStr) :
    skipSpace (c :: s) = c :: s := by
  simp [skipSpace, h]

theorem val_of_digit {c : CodePoint} (h : isDigit c = true) : c.val < 0x80 := by
  simp only [isDigit, digitOf] at h
  split at h
  · omega
  · cases h

/-- How a number starts. -/
theorem number_head {c : CodePoint} (h : isDigit c = true ∨ c = CodePoint.ofChar '-') :
    isJsonSpace c = false ∧ isCode c ']' = false ∧ c.val < 0x80 ∧ isCode c '"' = false ∧
      isCode c '[' = false ∧ isCode c '{' = false := by
  rcases h with h | rfl
  · have hne : ∀ a : Char, (a.toNat < 48 ∨ 57 < a.toNat) → isCode c a = false := fun _ =>
      isCode_of_digit h
    simp [isJsonSpace, hne ' ' (by decide), hne '\t' (by decide), hne '\n' (by decide),
      hne '\r' (by decide), hne ']' (by decide), hne '"' (by decide), hne '[' (by decide),
      hne '{' (by decide), val_of_digit h]
  · decide

theorem scanOnce_atom {fuel : ℕ} {c : CodePoint} (h : isCode c '"' = false ∧ isCode c '[' = false ∧
      isCode c '{' = false) (s : PyStr) :
    scanOnce floatOf (fuel + 1) (c :: s) = scanAtom floatOf (c :: s) := by
  obtain ⟨h₁, h₂, h₃⟩ := h
  simp [scanOnce, h₁, h₂, h₃]

theorem intText_head (n : ℤ) : ∃ c cs, intText n = c :: cs ∧
    (isDigit c = true ∨ c = CodePoint.ofChar '-') := by
  cases n with
  | ofNat n =>
    obtain ⟨d, ds, heq, hd⟩ := (numeral_toDigits n).head
    exact ⟨d, ds, heq, .inl hd⟩
  | negSucc n => exact ⟨_, _, rfl, .inr rfl⟩

theorem FloatRepr.head (hf : FloatRepr floatRepr) {x : PyFloat} (hx : x.isFinite = true) :
    ∃ c cs, PyStr.ofChars (floatRepr x) = c :: cs ∧
      (isDigit c = true ∨ c = CodePoint.ofChar '-') := by
  obtain ⟨negative, digits, fraction, exponent, heq, hdigits, -⟩ := hf.shape x hx
  obtain ⟨d, ds, rfl, hd⟩ := hdigits.head
  cases negative with
  | false => exact ⟨d, _, heq, .inl hd⟩
  | true => exact ⟨_, _, heq, .inr rfl⟩

/-- Distinct keys make a dict as they come. -/
theorem dictOf_distinct {ms : List (PyStr × Json)} (h : (ms.map Prod.fst).Nodup) :
    dictOf ms = ms := by
  have hgen : ∀ (done rest : List (PyStr × Json)), ((done ++ rest).map Prod.fst).Nodup →
      rest.foldl dictSet done = done ++ rest := by
    intro done rest
    induction rest generalizing done with
    | nil => simp
    | cons m rest ih =>
      intro hn
      have hnew : done.any (·.1 = m.1) = false := by
        rw [List.any_eq_false]
        intro p hp
        rw [List.map_append, List.nodup_append] at hn
        simpa using hn.2.2 p.1 (List.mem_map_of_mem hp) m.1 (by simp)
      rw [List.foldl_cons, dictSet, hnew]
      simp only [Bool.false_eq_true, if_false]
      rw [ih _ (by simpa using hn)]
      simp
  simpa [dictOf] using hgen [] ms (by simpa using h)

theorem keys_nodup {ms : List (PyStr × Json)} (h : Json.membersDistinct ms = true) :
    (ms.map Prod.fst).Nodup := by
  induction ms with
  | nil => simp
  | cons m ms ih =>
    obtain ⟨k, v⟩ := m
    simp only [Json.membersDistinct, Bool.and_eq_true, List.all_eq_true, decide_eq_true_eq] at h
    rw [List.map_cons, List.nodup_cons]
    refine ⟨?_, ih h.2⟩
    intro hk
    obtain ⟨p, hp, heq⟩ := List.mem_map.mp hk
    exact h.1.1 p hp heq

theorem ends_of {c : CodePoint} (h : c = CodePoint.ofChar ',' ∨ c = CodePoint.ofChar ']' ∨
    c = CodePoint.ofChar '}') (rest : PyStr) : Ends (c :: rest) := by
  intro d hd
  cases hd
  exact h

theorem scanText {fuel : ℕ} {j : Json} {text : String} {c : CodePoint} {cs : PyStr}
    (htext : PyStr.ofString text = c :: cs)
    (hc : isCode c '"' = false ∧ isCode c '[' = false ∧ isCode c '{' = false)
    {rest : PyStr} (hscan : scanAtom floatOf (PyStr.ofString text ++ rest) = .ok (j, rest)) :
    scanOnce floatOf (fuel + 1) (PyStr.ofString text ++ rest) = .ok (j, rest) := by
  rw [htext, List.cons_append] at hscan ⊢
  rw [scanOnce_atom hc, hscan]

variable (floatOf floatRepr) in
/-- A value is read back from its text, whatever follows it. -/
structure ReadsBack (j : Json) : Prop where
  head : ∃ c cs, j.flat floatRepr = c :: cs ∧ isJsonSpace c = false ∧ isCode c ']' = false ∧
    c.val < 0x80
  scan : ∀ (fuel : ℕ) (rest : PyStr), Ends rest → 2 * (j.flat floatRepr).length ≤ fuel →
    scanOnce floatOf fuel (j.flat floatRepr ++ rest) = .ok (j, rest)

theorem itemsFlat_head {x : Json} {c : CodePoint} {cs : PyStr} (h : x.flat floatRepr = c :: cs)
    (ts : List PyStr) : ∃ ds, joinComma (x.flat floatRepr :: ts) = c :: ds := by
  cases ts with
  | nil => exact ⟨cs, h⟩
  | cons t ts => exact ⟨_, by rw [h]; rfl⟩

theorem membersFlat_head (k t : PyStr) (ts : List PyStr) :
    ∃ ds, joinComma (memberText (k, t) :: ts) = CodePoint.ofChar '"' :: ds := by
  cases ts with
  | nil => exact ⟨_, rfl⟩
  | cons t ts => exact ⟨_, rfl⟩

theorem scanItems_flat (xs : List Json) :
    ∀ x, (∀ y ∈ x :: xs, ReadsBack floatOf floatRepr y) → ∀ (fuel : ℕ) (rest : PyStr),
      2 * (joinComma (x.flat floatRepr :: Json.itemsFlat floatRepr xs)).length + 1 ≤ fuel →
      scanItems floatOf fuel (joinComma (x.flat floatRepr :: Json.itemsFlat floatRepr xs) ++
        CodePoint.ofChar ']' :: rest) = .ok (x :: xs, rest) := by
  induction xs with
  | nil =>
    intro x hreads fuel rest hfuel
    obtain ⟨n, rfl⟩ : ∃ n, fuel = n + 1 := ⟨fuel - 1, by omega⟩
    simp only [Json.itemsFlat, joinComma] at hfuel ⊢
    rw [scanItems, (hreads x (by simp)).scan _ _ (ends_of (by simp) rest) (by omega)]
    rfl
  | cons y ys ih =>
    intro x hreads fuel rest hfuel
    obtain ⟨n, rfl⟩ : ∃ n, fuel = n + 1 := ⟨fuel - 1, by omega⟩
    simp only [Json.itemsFlat, joinComma_cons, List.length_append, List.length_cons] at hfuel ⊢
    have hscan := ih y (fun z hz => hreads z (List.mem_cons_of_mem x hz)) n rest (by omega)
    obtain ⟨c, cs, heq, hspace, -⟩ := (hreads y (by simp)).head
    obtain ⟨ds, hds⟩ := itemsFlat_head heq (Json.itemsFlat floatRepr ys)
    rw [List.append_assoc, List.cons_append, scanItems,
      (hreads x (by simp)).scan _ _ (ends_of (by simp) _) (by omega)]
    rw [hds, List.cons_append] at hscan ⊢
    simp only [skipSpace_cons (show isJsonSpace (CodePoint.ofChar ',') = false by decide),
      skipSpace_cons hspace, hscan]
    rfl

theorem scanMembers_flat (ms : List (PyStr × Json)) :
    ∀ k v, (∀ m ∈ (k, v) :: ms, ReadsBack floatOf floatRepr m.2) → ∀ (fuel : ℕ) (rest : PyStr),
      2 * (joinComma (memberText (k, v.flat floatRepr) ::
        Json.membersFlat floatRepr ms)).length + 1 ≤ fuel →
      scanMembers floatOf fuel (joinComma (memberText (k, v.flat floatRepr) ::
        Json.membersFlat floatRepr ms) ++ CodePoint.ofChar '}' :: rest) =
        .ok ((k, v) :: ms, rest) := by
  induction ms with
  | nil =>
    intro k v hreads fuel rest hfuel
    obtain ⟨n, rfl⟩ : ∃ n, fuel = n + 1 := ⟨fuel - 1, by omega⟩
    have hkey := length_quote k
    obtain ⟨⟨c, cs, heq, hspace, -⟩, hscan⟩ := hreads (k, v) (by simp)
    have hvalue : ∀ after, skipSpace (v.flat floatRepr ++ after) = v.flat floatRepr ++ after := by
      intro after
      rw [heq, List.cons_append, skipSpace_cons hspace]
    simp only [Json.membersFlat, joinComma, memberText, List.length_append, List.length_cons]
      at hfuel ⊢
    have hscan := hscan n _ (ends_of (c := CodePoint.ofChar '}') (by simp) rest)
      (by dsimp only; omega)
    simp only [quote, List.cons_append, List.append_assoc, List.nil_append, scanMembers,
      scanString_quote k (show k.length < n by omega), hscan, hvalue,
      skipSpace_cons (show isJsonSpace (CodePoint.ofChar ':') = false by decide)]
    rfl
  | cons m ms ih =>
    obtain ⟨k', v'⟩ := m
    intro k v hreads fuel rest hfuel
    obtain ⟨n, rfl⟩ : ∃ n, fuel = n + 1 := ⟨fuel - 1, by omega⟩
    have hkey := length_quote k
    obtain ⟨⟨c, cs, heq, hspace, -⟩, hscan⟩ := hreads (k, v) (by simp)
    have hvalue : ∀ after, skipSpace (v.flat floatRepr ++ after) = v.flat floatRepr ++ after := by
      intro after
      rw [heq, List.cons_append, skipSpace_cons hspace]
    simp only [Json.membersFlat, joinComma_cons, List.length_append, List.length_cons] at hfuel ⊢
    have hnext := ih k' v' (fun m hm => hreads m (List.mem_cons_of_mem _ hm)) n rest (by omega)
    obtain ⟨ds, hds⟩ := membersFlat_head k' (v'.flat floatRepr) (Json.membersFlat floatRepr ms)
    simp only [memberText, List.length_append, List.length_cons] at hfuel
    rw [hds, List.cons_append] at hnext
    have hscan := hscan n _ (ends_of (c := CodePoint.ofChar ',') (by simp)
      (CodePoint.ofChar '"' :: (ds ++ CodePoint.ofChar '}' :: rest))) (by dsimp only; omega)
    rw [hds]
    simp only [memberText, quote, List.cons_append, List.append_assoc, List.nil_append, scanMembers,
      scanString_quote k (show k.length < n by omega), hscan, hvalue,
      skipSpace_cons (show isJsonSpace (CodePoint.ofChar ':') = false by decide),
      skipSpace_cons (show isJsonSpace (CodePoint.ofChar ',') = false by decide),
      skipSpace_cons (show isJsonSpace (CodePoint.ofChar '"') = false by decide), hnext]
    rfl

theorem fuel_pos {text : PyStr} {c : CodePoint} {cs : PyStr} (heq : text = c :: cs)
    {fuel : ℕ} (hfuel : 2 * text.length ≤ fuel) : ∃ n, fuel = n + 1 := by
  rw [heq, List.length_cons] at hfuel
  exact ⟨fuel - 1, by omega⟩

theorem ReadsBack.str (s : PyStr) : ReadsBack floatOf floatRepr (.str s) where
  head := ⟨_, _, rfl, by decide⟩
  scan := by
    intro fuel rest _ hfuel
    obtain ⟨n, rfl⟩ := fuel_pos rfl hfuel
    have hlen := length_quote s
    simp only [Json.flat] at hfuel ⊢
    simp only [quote, List.cons_append, List.append_assoc, List.nil_append, scanOnce]
    rw [scanString_quote s (by omega)]
    rfl

theorem ReadsBack.arr {xs : List Json} (h : ∀ x ∈ xs, ReadsBack floatOf floatRepr x) :
    ReadsBack floatOf floatRepr (.arr xs) where
  head := ⟨_, _, rfl, by decide⟩
  scan := by
    intro fuel rest hrest hfuel
    obtain ⟨n, rfl⟩ := fuel_pos rfl hfuel
    cases xs with
    | nil => rfl
    | cons x xs =>
      simp only [Json.flat, Json.itemsFlat, List.length_cons, List.length_append] at hfuel
      obtain ⟨c, cs, heq, hspace, hclose, -⟩ := (h x (List.mem_cons_self ..)).head
      have hscan := scanItems_flat xs x h n rest (by omega)
      obtain ⟨ds, hds⟩ := itemsFlat_head heq (Json.itemsFlat floatRepr xs)
      simp only [Json.flat, Json.itemsFlat, List.cons_append, List.append_assoc, List.nil_append,
        scanOnce]
      rw [hds, List.cons_append] at hscan ⊢
      rw [skipSpace_cons hspace]
      simp only [hclose, hscan]
      rfl

theorem ReadsBack.obj {ms : List (PyStr × Json)}
    (h : ∀ m ∈ ms, ReadsBack floatOf floatRepr m.2) (hkeys : (ms.map Prod.fst).Nodup) :
    ReadsBack floatOf floatRepr (.obj ms) where
  head := ⟨_, _, rfl, by decide⟩
  scan := by
    intro fuel rest hrest hfuel
    obtain ⟨n, rfl⟩ := fuel_pos rfl hfuel
    cases ms with
    | nil => rfl
    | cons m ms =>
      obtain ⟨k, v⟩ := m
      simp only [Json.flat, Json.membersFlat, List.length_cons, List.length_append] at hfuel
      have hscan := scanMembers_flat ms k v h n rest (by omega)
      have hdict := dictOf_distinct hkeys
      obtain ⟨ds, hds⟩ := membersFlat_head k (v.flat floatRepr) (Json.membersFlat floatRepr ms)
      simp only [Json.flat, Json.membersFlat, List.cons_append, List.append_assoc, List.nil_append,
        scanOnce]
      rw [hds, List.cons_append] at hscan ⊢
      rw [skipSpace_cons (by decide)]
      simp only [hscan]
      simp [Except.map, hdict]

theorem ReadsBack.int {n : ℤ} (h : (Json.int n).finite = true) :
    ReadsBack floatOf floatRepr (.int n) := by
  obtain ⟨c, cs, heq, hc⟩ := intText_head n
  refine ⟨⟨c, cs, heq, (number_head hc).1, (number_head hc).2.1, (number_head hc).2.2.1⟩,
    fun fuel rest hrest hfuel => ?_⟩
  obtain ⟨k, rfl⟩ := fuel_pos heq hfuel
  have hscan : scanAtom floatOf (intText n ++ rest) = .ok (.int n, rest) :=
    scanAtom_int n hrest (of_decide_eq_true h)
  simp only [Json.flat]
  rw [heq, List.cons_append] at hscan ⊢
  rw [scanOnce_atom (number_head hc).2.2.2, hscan]

theorem ReadsBack.float (hf : FloatRepr floatRepr)
    (hinv : ∀ x : PyFloat, x.isFinite = true → floatOf (floatRepr x) = x) {x : PyFloat}
    (hx : x.isFinite = true) : ReadsBack floatOf floatRepr (.float x) := by
  obtain ⟨c, cs, heq, hc⟩ := hf.head hx
  refine ⟨⟨c, cs, heq, (number_head hc).1, (number_head hc).2.1, (number_head hc).2.2.1⟩,
    fun fuel rest hrest hfuel => ?_⟩
  obtain ⟨k, rfl⟩ := fuel_pos heq hfuel
  have hscan := scanAtom_float hf hinv hx hrest
  simp only [Json.flat]
  rw [heq, List.cons_append] at hscan ⊢
  rw [scanOnce_atom (number_head hc).2.2.2, hscan]

theorem itemsFinite_of {xs : List Json} (h : Json.itemsFinite xs = true) {x : Json}
    (hx : x ∈ xs) : x.finite = true := by
  induction xs with
  | nil => cases hx
  | cons y ys ih =>
    obtain ⟨hy, hys⟩ := Bool.and_eq_true_iff.mp h
    rcases List.mem_cons.mp hx with rfl | hx
    exacts [hy, ih hys hx]

theorem itemsDistinct_of {xs : List Json} (h : Json.itemsDistinct xs = true) {x : Json}
    (hx : x ∈ xs) : x.distinct = true := by
  induction xs with
  | nil => cases hx
  | cons y ys ih =>
    obtain ⟨hy, hys⟩ := Bool.and_eq_true_iff.mp h
    rcases List.mem_cons.mp hx with rfl | hx
    exacts [hy, ih hys hx]

theorem membersFinite_of {ms : List (PyStr × Json)} (h : Json.membersFinite ms = true)
    {m : PyStr × Json} (hm : m ∈ ms) : m.2.finite = true := by
  induction ms with
  | nil => cases hm
  | cons m' ms ih =>
    obtain ⟨hy, hys⟩ := Bool.and_eq_true_iff.mp h
    rcases List.mem_cons.mp hm with rfl | hm
    exacts [hy, ih hys hm]

theorem membersDistinct_of {ms : List (PyStr × Json)} (h : Json.membersDistinct ms = true)
    {m : PyStr × Json} (hm : m ∈ ms) : m.2.distinct = true := by
  induction ms with
  | nil => cases hm
  | cons m' ms ih =>
    obtain ⟨hy, hys⟩ := Bool.and_eq_true_iff.mp h
    rcases List.mem_cons.mp hm with rfl | hm
    exacts [(Bool.and_eq_true_iff.mp hy).2, ih hys hm]

/-- The scanner inverts the text of a value. -/
theorem readsBack_flat (hf : FloatRepr floatRepr)
    (hinv : ∀ x : PyFloat, x.isFinite = true → floatOf (floatRepr x) = x) (j : Json)
    (hj : j.finite = true) (hd : j.distinct = true) : ReadsBack floatOf floatRepr j :=
  match j with
  | .null => by
    refine ⟨⟨_, _, rfl, by decide⟩, fun fuel rest _ hfuel => ?_⟩
    obtain ⟨n, rfl⟩ := fuel_pos rfl hfuel
    exact scanText rfl (by decide) (by simp [scanAtom, stripText_append])
  | .bool b => by
    cases b <;> refine ⟨⟨_, _, rfl, by decide⟩, fun fuel rest _ hfuel => ?_⟩ <;>
      obtain ⟨n, rfl⟩ := fuel_pos rfl hfuel <;> refine scanText rfl (by decide) ?_ <;>
      simp only [scanAtom, stripText_append] <;> rfl
  | .int n => .int hj
  | .float x => .float hf hinv hj
  | .str s => .str s
  | .arr xs => .arr fun x hx =>
    have hlt : sizeOf x < sizeOf xs := List.sizeOf_lt_of_mem hx
    readsBack_flat hf hinv x (itemsFinite_of hj hx) (itemsDistinct_of hd hx)
  | .obj ms => .obj (fun m hm =>
    have hlt : sizeOf m.2 < sizeOf ms := by
      have hmem := List.sizeOf_lt_of_mem hm
      obtain ⟨k, v⟩ := m
      rw [Prod.mk.sizeOf_spec] at hmem
      dsimp only
      omega
    readsBack_flat hf hinv m.2 (membersFinite_of hj hm) (membersDistinct_of hd hm)) (keys_nodup hd)
termination_by sizeOf j
decreasing_by
  · rw [Json.arr.sizeOf_spec]
    omega
  · rw [Json.obj.sizeOf_spec]
    omega

/-- `json.loads` on the text of a value. -/
theorem ReadsBack.loads {j : Json} (h : ReadsBack floatOf floatRepr j) :
    Json.loads floatOf (j.flat floatRepr) = .ok j := by
  obtain ⟨⟨c, cs, heq, hspace, -, hc⟩, hscan⟩ := h
  have hends : Ends [] := by
    intro c hc
    cases hc
  have hscan := hscan (2 * (j.flat floatRepr).length + 2) [] hends (by omega)
  rw [List.append_nil] at hscan
  rw [heq] at hscan ⊢
  rw [Json.loads, if_neg (by omega), skipSpace_cons hspace, hscan]
  rfl

end Values

/-! ## Key order -/

def sortKeys (ms : List (PyStr × Json)) : List (PyStr × Json) :=
  ms.insertionSort fun a b => a.1 ≤ b.1

mutual

/-- The value with the members of every object in key order. -/
def Json.sorted : Json → Json
  | .arr xs => .arr (Json.itemsSorted xs)
  | .obj ms => .obj (sortKeys (Json.membersSorted ms))
  | j => j

def Json.itemsSorted : List Json → List Json
  | [] => []
  | x :: xs => x.sorted :: Json.itemsSorted xs

def Json.membersSorted : List (PyStr × Json) → List (PyStr × Json)
  | [] => []
  | (k, v) :: ms => (k, v.sorted) :: Json.membersSorted ms

end

theorem sortKeys_perm (ms : List (PyStr × Json)) : (sortKeys ms).Perm ms :=
  List.perm_insertionSort _ ms

theorem keys_membersSorted (ms : List (PyStr × Json)) :
    (Json.membersSorted ms).map Prod.fst = ms.map Prod.fst := by
  induction ms with
  | nil => rfl
  | cons m ms ih => simp [Json.membersSorted, ih]

theorem membersFinite_eq (ms : List (PyStr × Json)) :
    Json.membersFinite ms = ms.all (·.2.finite) := by
  induction ms with
  | nil => rfl
  | cons m ms ih => simp [Json.membersFinite, ih]

theorem membersDistinct_iff (ms : List (PyStr × Json)) :
    Json.membersDistinct ms = true ↔
      (ms.map Prod.fst).Nodup ∧ ∀ m ∈ ms, m.2.distinct = true := by
  refine ⟨fun h => ⟨keys_nodup h, fun m hm => membersDistinct_of h hm⟩, fun h => ?_⟩
  induction ms with
  | nil => rfl
  | cons m ms ih =>
    obtain ⟨k, v⟩ := m
    obtain ⟨hnodup, hall⟩ := h
    rw [List.map_cons, List.nodup_cons] at hnodup
    have hkey : ms.all (·.1 ≠ k) = true := by
      rw [List.all_eq_true]
      intro m hm
      simp only [ne_eq, decide_eq_true_eq]
      intro hk
      exact hnodup.1 (List.mem_map.mpr ⟨m, hm, hk⟩)
    have hrest := ih ⟨hnodup.2, fun m hm => hall m (List.mem_cons_of_mem _ hm)⟩
    rw [Json.membersDistinct, hkey, hrest, hall (k, v) (List.mem_cons_self ..)]
    rfl

mutual

theorem Json.finite_sorted : ∀ j : Json, j.sorted.finite = j.finite
  | .null | .bool _ | .int _ | .float _ | .str _ => rfl
  | .arr xs => Json.itemsFinite_sorted xs
  | .obj ms => by
    have hperm := (sortKeys_perm (Json.membersSorted ms)).all_eq (f := fun m => m.2.finite)
    simp only [Json.sorted, Json.finite]
    rw [membersFinite_eq, hperm, ← membersFinite_eq]
    exact Json.membersFinite_sorted ms

theorem Json.itemsFinite_sorted :
    ∀ xs : List Json, Json.itemsFinite (Json.itemsSorted xs) = Json.itemsFinite xs
  | [] => rfl
  | x :: xs => by
    simp only [Json.itemsSorted, Json.itemsFinite]
    rw [Json.finite_sorted x, Json.itemsFinite_sorted xs]

theorem Json.membersFinite_sorted : ∀ ms : List (PyStr × Json),
    Json.membersFinite (Json.membersSorted ms) = Json.membersFinite ms
  | [] => rfl
  | (k, v) :: ms => by
    simp only [Json.membersSorted, Json.membersFinite]
    rw [Json.finite_sorted v, Json.membersFinite_sorted ms]

end

mutual

theorem Json.distinct_sorted : ∀ j : Json, j.distinct = true → j.sorted.distinct = true
  | .null, _ | .bool _, _ | .int _, _ | .float _, _ | .str _, _ => rfl
  | .arr xs, h => Json.itemsDistinct_sorted xs h
  | .obj ms, h => by
    have hperm := sortKeys_perm (Json.membersSorted ms)
    refine (membersDistinct_iff _).mpr ⟨?_, fun m hm => ?_⟩
    · rw [(hperm.map Prod.fst).nodup_iff, keys_membersSorted]
      exact keys_nodup h
    · exact Json.membersDistinct_sorted ms (fun m hm => membersDistinct_of h hm) m
        (hperm.mem_iff.mp hm)

theorem Json.itemsDistinct_sorted : ∀ xs : List Json, Json.itemsDistinct xs = true →
    Json.itemsDistinct (Json.itemsSorted xs) = true
  | [], _ => rfl
  | x :: xs, h => by
    obtain ⟨hx, hxs⟩ := Bool.and_eq_true_iff.mp h
    exact Bool.and_eq_true_iff.mpr ⟨Json.distinct_sorted x hx, Json.itemsDistinct_sorted xs hxs⟩

theorem Json.membersDistinct_sorted : ∀ ms : List (PyStr × Json),
    (∀ m ∈ ms, m.2.distinct = true) → ∀ m ∈ Json.membersSorted ms, m.2.distinct = true
  | [], _, m, hm => by cases hm
  | (k, v) :: ms, h, m, hm => by
    rcases List.mem_cons.mp hm with rfl | hm
    · exact Json.distinct_sorted v (h (k, v) (List.mem_cons_self ..))
    · exact Json.membersDistinct_sorted ms (fun m hm => h m (List.mem_cons_of_mem _ hm)) m hm

end

section Texts

variable (floatRepr : PyFloat → List Char)

theorem membersFlat_eq (ms : List (PyStr × Json)) : Json.membersFlat floatRepr ms =
    (ms.map fun m => (m.1, m.2.flat floatRepr)).map memberText := by
  induction ms with
  | nil => rfl
  | cons m ms ih => simp [Json.membersFlat, ih]

mutual

/-- `dumps` writes the sorted value as it comes. -/
theorem Json.text_eq : ∀ j : Json, j.text floatRepr = j.sorted.flat floatRepr
  | .null | .bool true | .bool false | .int _ | .float _ | .str _ => rfl
  | .arr xs => by
    simp only [Json.text, Json.sorted, Json.flat]
    rw [Json.itemTexts_eq xs]
  | .obj ms => by
    simp only [Json.text, Json.sorted, Json.flat]
    rw [Json.memberTexts_eq ms, membersFlat_eq, sortMembers, sortKeys,
      List.map_insertionSort (fun a b : PyStr × Json => a.1 ≤ b.1)
        (fun a b : PyStr × PyStr => a.1 ≤ b.1) _ _ (by simp)]

theorem Json.itemTexts_eq : ∀ xs : List Json,
    Json.itemTexts floatRepr xs = Json.itemsFlat floatRepr (Json.itemsSorted xs)
  | [] => rfl
  | x :: xs => by
    simp only [Json.itemTexts, Json.itemsSorted, Json.itemsFlat]
    rw [Json.text_eq x, Json.itemTexts_eq xs]

theorem Json.memberTexts_eq : ∀ ms : List (PyStr × Json), Json.memberTexts floatRepr ms =
    (Json.membersSorted ms).map fun m => (m.1, m.2.flat floatRepr)
  | [] => rfl
  | (k, v) :: ms => by
    simp only [Json.memberTexts, Json.membersSorted, List.map_cons]
    rw [Json.text_eq v, Json.memberTexts_eq ms]

end

variable {floatRepr}

/-- Values with one text are the same up to the order of their keys. -/
theorem text_inj (hf : FloatRepr floatRepr) {a b : Json} (ha : a.finite = true)
    (hb : b.finite = true) (hda : a.distinct = true) (hdb : b.distinct = true)
    (h : a.text floatRepr = b.text floatRepr) : a.sorted = b.sorted := by
  classical
  let floatOf : List Char → PyFloat := fun cs =>
    if hx : ∃ x : PyFloat, x.isFinite = true ∧ floatRepr x = cs then hx.choose else ⟨0⟩
  have hinv : ∀ x : PyFloat, x.isFinite = true → floatOf (floatRepr x) = x := by
    intro x hx
    have hex : ∃ y : PyFloat, y.isFinite = true ∧ floatRepr y = floatRepr x := ⟨x, hx, rfl⟩
    simp only [floatOf, dif_pos hex]
    exact hf.injective _ _ hex.choose_spec.1 hx hex.choose_spec.2
  rw [Json.text_eq, Json.text_eq] at h
  have hload := (readsBack_flat hf hinv a.sorted (a.finite_sorted ▸ ha) (a.distinct_sorted hda)).loads
  have hload' := (readsBack_flat hf hinv b.sorted (b.finite_sorted ▸ hb) (b.distinct_sorted hdb)).loads
  rw [h, hload'] at hload
  simpa using hload.symm

/-! ## Surrogates -/

/-- The string has an encoding. -/
def Plain (s : PyStr) : Prop := ∀ c ∈ s, c.isSurrogate = false

theorem plain_append {s t : PyStr} : Plain (s ++ t) ↔ Plain s ∧ Plain t := by
  simp only [Plain, List.mem_append]
  exact ⟨fun h => ⟨fun c hc => h c (.inl hc), fun c hc => h c (.inr hc)⟩,
    fun h c hc => hc.elim (h.1 c) (h.2 c)⟩

theorem plain_cons {c : CodePoint} {s : PyStr} :
    Plain (c :: s) ↔ c.isSurrogate = false ∧ Plain s := by
  simp [Plain]

theorem isSurrogate_ofChar (a : Char) : (CodePoint.ofChar a).isSurrogate = false := by
  have hvalid : a.toNat < 0xD800 ∨ 0xDFFF < a.toNat ∧ a.toNat < 0x110000 := a.valid
  rw [CodePoint.isSurrogate, CodePoint.val_ofChar, ← Bool.decide_and, decide_eq_false_iff_not]
  omega

theorem plain_ofChars (cs : List Char) : Plain (PyStr.ofChars cs) := by
  intro c hc
  obtain ⟨a, -, rfl⟩ := List.mem_map.mp hc
  exact isSurrogate_ofChar a

theorem plain_escape (c : CodePoint) : Plain (escapeCodePoint c) ↔ c.isSurrogate = false := by
  have hsmall : c.val < 0x80 → c.isSurrogate = false := by
    intro h
    simp only [CodePoint.isSurrogate, Bool.and_eq_false_iff, decide_eq_false_iff_not]
    omega
  unfold escapeCodePoint
  split_ifs
  case neg => simp [Plain]
  all_goals
    refine ⟨fun _ => hsmall (by omega), fun _ => ?_⟩
    exact plain_ofChars _

theorem plain_quote {s : PyStr} : Plain (quote s) ↔ Plain s := by
  simp only [quote, plain_cons, plain_append, isSurrogate_ofChar, true_and]
  refine ⟨fun h c hc => ?_, fun h => ⟨fun c hc => ?_, by simp [Plain]⟩⟩
  · refine (plain_escape c).mp fun d hd => h.1 d ?_
    exact List.mem_flatMap.mpr ⟨c, hc, hd⟩
  · obtain ⟨d, hd, hc⟩ := List.mem_flatMap.mp hc
    exact (plain_escape d).mpr (h d hd) c hc

theorem plain_joinComma {ts : List PyStr} : Plain (joinComma ts) ↔ ∀ t ∈ ts, Plain t := by
  induction ts with
  | nil => simp [joinComma, Plain]
  | cons t ts ih =>
    cases ts with
    | nil => simp [joinComma]
    | cons t' ts =>
      rw [joinComma_cons, plain_append, plain_cons, ih, List.forall_mem_cons]
      simp [isSurrogate_ofChar]

/-- An object has an encoding when its keys and values have. -/
theorem plain_obj {ms : List (PyStr × Json)} : Plain ((Json.obj ms).text floatRepr) ↔
    ∀ m ∈ ms, Plain m.1 ∧ Plain (m.2.text floatRepr) := by
  have htexts : Json.memberTexts floatRepr ms = ms.map fun m => (m.1, m.2.text floatRepr) := by
    induction ms with
    | nil => rfl
    | cons m ms ih => simp [Json.memberTexts, ih]
  simp only [Json.text, plain_cons, plain_append, isSurrogate_ofChar, true_and, plain_joinComma,
    List.forall_mem_map, sortMembers, List.mem_insertionSort, memberText, plain_quote, htexts]
  simp [Plain]

/-! ## Bytes -/

theorem encodeUtf8_eq_some {s : PyStr} {bytes : List UInt8} : encodeUtf8 s = some bytes ↔
    Plain s ∧ (s.flatMap fun c => String.utf8EncodeChar (Char.ofNat c.val)) = bytes := by
  unfold encodeUtf8
  split_ifs with h
  · have hno : ¬Plain s := by simpa [Plain] using h
    simp [hno]
  · have hplain : Plain s := by simpa [Plain] using h
    simp [hplain]

theorem CodePoint.toNat_char {c : CodePoint} (h : c.isSurrogate = false) :
    (Char.ofNat c.val).toNat = c.val := by
  have hvalid : c.val.isValidChar := by
    simp only [CodePoint.isSurrogate, Bool.and_eq_false_iff, decide_eq_false_iff_not] at h
    simp only [Nat.isValidChar]
    omega
  rw [Char.ofNat, dif_pos hvalid]
  rfl

theorem utf8EncodeChar_ascii {c : CodePoint} (h : c.val < 0x80) :
    String.utf8EncodeChar (Char.ofNat c.val) = [UInt8.ofNat c.val] := by
  have hval : (Char.ofNat c.val).val.toNat = c.val := by
    have hsurr : c.isSurrogate = false := by
      simp only [CodePoint.isSurrogate, Bool.and_eq_false_iff, decide_eq_false_iff_not]
      omega
    exact CodePoint.toNat_char hsurr
  rw [String.utf8EncodeChar]
  simp only [hval]
  rw [if_pos (by omega)]

theorem ofChars_chars {s : PyStr} (h : Plain s) : PyStr.ofChars (PyStr.chars s) = s := by
  rw [PyStr.ofChars, PyStr.chars, List.map_map]
  refine (List.map_congr_left fun c hc => ?_).trans (List.map_id s)
  exact Fin.ext (CodePoint.toNat_char (h c hc))

/-- Encoded text is decoded as it was. -/
theorem decodeUtf8_encode {s : PyStr} {bytes : List UInt8} (h : encodeUtf8 s = some bytes) :
    decodeUtf8 bytes = some s := by
  obtain ⟨hplain, rfl⟩ := encodeUtf8_eq_some.mp h
  have hbytes : (s.flatMap fun c => String.utf8EncodeChar (Char.ofNat c.val)).toByteArray =
      (PyStr.chars s).utf8Encode := by
    rw [List.utf8Encode, PyStr.chars, List.flatMap_map]
  rw [decodeUtf8, hbytes, List.utf8Decode?_utf8Encode, Option.map_some, List.toList_toArray,
    ofChars_chars hplain]

theorem encodeUtf8_inj {s t : PyStr} {bytes : List UInt8} (hs : encodeUtf8 s = some bytes)
    (ht : encodeUtf8 t = some bytes) : s = t :=
  Option.some.inj ((decodeUtf8_encode hs).symm.trans (decodeUtf8_encode ht))

theorem canonicalJsonBytes_ok {j : Json} {bytes : List UInt8} :
    canonicalJsonBytes floatRepr j = .ok bytes ↔
      j.finite = true ∧ encodeUtf8 (j.text floatRepr) = some bytes := by
  unfold canonicalJsonBytes
  split
  · split <;> simp_all
  · simp_all

/-- Key order does not change the canonical bytes. -/
theorem canonicalJsonBytes_congr {a b : Json} (h : a.sorted = b.sorted) :
    canonicalJsonBytes floatRepr a = canonicalJsonBytes floatRepr b := by
  have hfinite : a.finite = b.finite := by
    rw [← a.finite_sorted, ← b.finite_sorted, h]
  simp only [canonicalJsonBytes, Json.text_eq, hfinite, h]

/-- Nothing but key order is lost in the canonical bytes. -/
theorem canonicalJsonBytes_inj (hf : FloatRepr floatRepr) {a b : Json} {bytes : List UInt8}
    (ha : canonicalJsonBytes floatRepr a = .ok bytes)
    (hb : canonicalJsonBytes floatRepr b = .ok bytes) (hda : a.distinct = true)
    (hdb : b.distinct = true) : a.sorted = b.sorted := by
  obtain ⟨hfa, hea⟩ := canonicalJsonBytes_ok.mp ha
  obtain ⟨hfb, heb⟩ := canonicalJsonBytes_ok.mp hb
  exact text_inj hf hfa hfb hda hdb (encodeUtf8_inj hea heb)

end Texts

end EventHarbor
