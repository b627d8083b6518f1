import EventHarbor.Serialization.Canonical
import Mathlib.Tactic.NormNum
import Mathlib.Tactic.Ring

/-!
# Identifiers as text

`str(uuid)` and `uuid.UUID(text)`. The constructor takes braces, dashes and URN
prefixes away and reads what is left with `int(text, 16)`, which admits blanks,
a sign, a `0x`, single underscores and the decimal digits of every script.
-/

namespace EventHarbor

/-! ## Reading -/

/-- `text.replace(old, "")`, passing over `skip` characters first. -/
def removeAll (old : PyStr) : (skip : ℕ) → PyStr → PyStr
  | _, [] => []
  | skip + 1, _ :: s => removeAll old skip s
  | 0, c :: s => if old <+: c :: s then removeAll old (old.length - 1) s else c :: removeAll old 0 s

/-- `text.strip(...)` of the characters that satisfy `p`. -/
def stripChars (p : CodePoint → Bool) (s : PyStr) : PyStr :=
  ((s.dropWhile p).reverse.dropWhile p).reverse

def isAsciiSpace (c : CodePoint) : Bool := c.val = 32 || (9 ≤ c.val && c.val ≤ 13)

/-- Hexadecimal digits with single underscores between them; `digit` says
whether the last character was a digit. -/
def hexNumber : PyStr → (n : ℕ) → (digit : Bool) → Option ℕ
  | [], n, digit => if digit then some n else none
  | c :: s, n, digit =>
    if isCode c '_' then if digit then hexNumber s n false else none
    else
      match hexDigitOf c with
      | some d => hexNumber s (16 * n + d) true
      | none => none

/-- Digits after an optional `0x`. -/
def hexUnsigned (s : PyStr) : Option ℕ :=
  match s with
  | a :: b :: rest =>
    if isCode a '0' && (isCode b 'x' || isCode b 'X') then
      match rest with
      | c :: rest' => if isCode c '_' then hexNumber rest' 0 false else hexNumber rest 0 false
      | [] => none
    else hexNumber s 0 false
  | _ => hexNumber s 0 false

/-- Where the runs of ten decimal digits beyond ASCII begin in Unicode 15. -/
def decimalZeros : List ℕ :=
  [0x660, 0x6F0, 0x7C0, 0x966, 0x9E6, 0xA66, 0xAE6, 0xB66, 0xBE6, 0xC66, 0xCE6, 0xD66, 0xDE6,
   0xE50, 0xED0, 0xF20, 0x1040, 0x1090, 0x17E0, 0x1810, 0x1946, 0x19D0, 0x1A80, 0x1A90, 0x1B50,
   0x1BB0, 0x1C40, 0x1C50, 0xA620, 0xA8D0, 0xA900, 0xA9D0, 0xA9F0, 0xAA50, 0xABF0, 0xFF10,
   0x104A0, 0x10D30, 0x11066, 0x110F0, 0x11136, 0x111D0, 0x112F0, 0x11450, 0x114D0, 0x11650,
   0x116C0, 0x11730, 0x118E0, 0x11950, 0x11C50, 0x11D50, 0x11DA0, 0x11F50, 0x16A60, 0x16AC0,
   0x16B50, 0x1D7CE, 0x1D7D8, 0x1D7E2, 0x1D7EC, 0x1D7F6, 0x1E140, 0x1E2F0, 0x1E4F0, 0x1E950,
   0x1FBF0]

def isWideSpace (c : CodePoint) : Bool :=
  c.val ∈ [0x85, 0xA0, 0x1680, 0x2028, 0x2029, 0x202F, 0x205F, 0x3000] ||
    (0x2000 ≤ c.val && c.val ≤ 0x200A)

/-- What `int(text)` makes of a character before it reads the digits. -/
def toAscii (c : CodePoint) : CodePoint :=
  if c.val < 128 then c
  else if isWideSpace c then CodePoint.ofChar ' '
  else
    match decimalZeros.find? fun z => z ≤ c.val && c.val ≤ z + 9 with
    | some z => CodePoint.ofChar (Nat.digitChar (c.val - z))
    | none => CodePoint.ofChar '?'

/-- `int(text, 16)` -/
def intHex (s : PyStr) : Option ℤ :=
  match stripChars isAsciiSpace (s.map toAscii) with
  | c :: rest =>
    if isCode c '-' then (hexUnsigned rest).map fun n => -n
    else if isCode c '+' then (hexUnsigned rest).map fun n => n
    else (hexUnsigned (c :: rest)).map fun n => n
  | [] => none

/-- The text without prefixes, braces and dashes. -/
def UUID.bare (s : PyStr) : PyStr :=
  let s := removeAll (PyStr.ofString "uuid:") 0 (removeAll (PyStr.ofString "urn:") 0 s)
  (stripChars (fun c => isCode c '{' || isCode c '}') s).filter fun c => !isCode c '-'

/-- `uuid.UUID(text)`, with `none` for a `ValueError`. -/
def UUID.parse (s : PyStr) : Option UUID :=
  if (UUID.bare s).length ≠ 32 then none
  else
    match intHex (UUID.bare s) with
    | some (.ofNat n) => if h : n < 2 ^ 128 then some ⟨n, h⟩ else none
    | _ => none

/-! ## Digits -/

theorem hexDigits_length (w n : ℕ) : (hexDigits w n).length = w := by
  induction w generalizing n with
  | zero => rfl
  | succ w ih => simp [hexDigits, ih]

theorem digitChar_inj {m n : ℕ} (hm : m < 16) (hn : n < 16) (h : Nat.digitChar m = Nat.digitChar n) :
    m = n := by
  have hall : ∀ i j : Fin 16, Nat.digitChar i.val = Nat.digitChar j.val → i = j := by decide
  exact congrArg Fin.val (hall ⟨m, hm⟩ ⟨n, hn⟩ h)

theorem hexDigits_inj {w m n : ℕ} (hm : m < 16 ^ w) (hn : n < 16 ^ w)
    (h : hexDigits w m = hexDigits w n) : m = n := by
  induction w generalizing m n with
  | zero => simp at hm hn; omega
  | succ w ih =>
    obtain ⟨hinit, hlast⟩ := List.append_inj' h rfl
    rw [pow_succ] at hm hn
    have hdiv : m / 16 = n / 16 := ih (by omega) (by omega) hinit
    have hmod : m % 16 = n % 16 :=
      digitChar_inj (Nat.mod_lt _ (by norm_num)) (Nat.mod_lt _ (by norm_num)) (by simpa using hlast)
    omega

/-- Bytes are told apart by their digits, two for each. -/
theorem flatMap_hexDigits_inj {b b' : List UInt8} (h : (b.flatMap fun x => hexDigits 2 x.toNat) =
    b'.flatMap fun x => hexDigits 2 x.toNat) : b = b' := by
  induction b generalizing b' with
  | nil =>
    cases b' with
    | nil => rfl
    | cons x' b' => simp [hexDigits] at h
  | cons x b ih =>
    cases b' with
    | nil => simp [hexDigits] at h
    | cons x' b' =>
      rw [List.flatMap_cons, List.flatMap_cons] at h
      obtain ⟨hx, hb⟩ := List.append_inj h (by simp [hexDigits_length])
      have hval := hexDigits_inj (m := x.toNat) (n := x'.toNat) x.toNat_lt x'.toNat_lt hx
      rw [ih hb, UInt8.toNat_inj.mp hval]

theorem hexDigits_ne_dash (w n : ℕ) : ∀ c ∈ hexDigits w n, c ≠ '-' := by
  have hall : ∀ i : Fin 16, Nat.digitChar i.val ≠ '-' := by decide
  induction w generalizing n with
  | zero => simp [hexDigits]
  | succ w ih =>
    intro c hc
    rcases List.mem_append.mp hc with hc | hc
    · exact ih _ c hc
    · rw [List.mem_singleton.mp hc]
      exact hall ⟨n % 16, Nat.mod_lt _ (by norm_num)⟩

/-- The digits of an identifier are its text without the dashes. -/
theorem UUID.filter_chars (u : UUID) : u.chars.filter (· ≠ '-') = hexDigits 32 u.val := by
  have hdigits : ∀ l : List Char, l.Sublist (hexDigits 32 u.val) → l.filter (· ≠ '-') = l := by
    intro l hl
    rw [List.filter_eq_self]
    intro c hc
    exact decide_eq_true (hexDigits_ne_dash 32 u.val c (hl.subset hc))
  have htake : ∀ i n, (((hexDigits 32 u.val).drop i).take n).Sublist (hexDigits 32 u.val) :=
    fun i n => (List.take_sublist _ _).trans (List.drop_sublist _ _)
  have hglue : ∀ i n (l : List Char), (l.drop i).take n ++ l.drop (i + n) = l.drop i := by
    intro i n l
    rw [← List.drop_drop, List.take_append_drop]
  simp only [UUID.chars, List.append_assoc, List.cons_append, List.filter_append,
    List.filter_cons, ne_eq, not_true_eq_false, decide_false, Bool.false_eq_true, if_false]
  simp only [← ne_eq]
  rw [hdigits _ (List.take_sublist _ _), hdigits _ (htake 8 4), hdigits _ (htake 12 4),
    hdigits _ (htake 16 4), hdigits _ (List.drop_sublist _ _), hglue 16 4, hglue 12 4, hglue 8 4,
    List.take_append_drop]

theorem UUID.chars_inj {u v : UUID} (h : u.chars = v.chars) : u = v := by
  have hdigits : hexDigits 32 u.val = hexDigits 32 v.val := by
    rw [← u.filter_chars, ← v.filter_chars, h]
  have hwidth : ∀ w : UUID, w.val < 16 ^ 32 := fun w => lt_of_lt_of_eq w.isLt (by norm_num)
  exact Fin.ext (hexDigits_inj (hwidth u) (hwidth v) hdigits)

/-! ## Reading back -/

theorem removeAll_of_not_mem {old : PyStr} {c : CodePoint} (hc : c ∈ old) {s : PyStr} (hs : c ∉ s) :
    removeAll old 0 s = s := by
  induction s with
  | nil => rfl
  | cons a s ih =>
    have hpre : ¬old <+: a :: s := fun h => hs (h.subset hc)
    rw [removeAll, if_neg hpre, ih fun h => hs (List.mem_cons_of_mem a h)]

theorem stripChars_of_forall {p : CodePoint → Bool} {s : PyStr} (h : ∀ c ∈ s, p c = false) :
    stripChars p s = s := by
  have hkeep : ∀ l : PyStr, (∀ c ∈ l, p c = false) → l.dropWhile p = l := by
    intro l hl
    cases l with
    | nil => rfl
    | cons c l => simp [hl c (by simp)]
  rw [stripChars, hkeep s h, hkeep s.reverse fun c hc => h c (List.mem_reverse.mp hc),
    List.reverse_reverse]

/-- A lowercase hexadecimal digit. -/
theorem digit_cases {w n : ℕ} {c : Char} (hc : c ∈ hexDigits w n) : ∃ d < 16, c = Nat.digitChar d := by
  induction w generalizing n with
  | zero => cases hc
  | succ w ih =>
    rcases List.mem_append.mp hc with hc | hc
    · exact ih hc
    · exact ⟨n % 16, Nat.mod_lt _ (by decide), List.mem_singleton.mp hc⟩

theorem hexNumber_hexDigits (w n acc : ℕ) (digit : Bool) (rest : PyStr) :
    hexNumber (PyStr.ofChars (hexDigits w n) ++ rest) acc digit =
      hexNumber rest (acc * 16 ^ w + n % 16 ^ w) (digit || decide (0 < w)) := by
  induction w generalizing n rest with
  | zero => simp [hexDigits, PyStr.ofChars, Nat.mod_one]
  | succ w ih =>
    have hlt : n % 16 < 16 := Nat.mod_lt _ (by decide)
    have hunder : ∀ d < 16, isCode (CodePoint.ofChar (Nat.digitChar d)) '_' = false := by decide
    have hsum : 16 * (acc * 16 ^ w + n / 16 % 16 ^ w) + n % 16 =
        acc * 16 ^ (w + 1) + n % 16 ^ (w + 1) := by
      rw [Nat.pow_succ', Nat.mod_mul]
      ring
    have hsplit : PyStr.ofChars (hexDigits (w + 1) n) ++ rest =
        PyStr.ofChars (hexDigits w (n / 16)) ++
          (CodePoint.ofChar (Nat.digitChar (n % 16)) :: rest) := by
      simp [hexDigits, PyStr.ofChars]
    rw [hsplit, ih, hexNumber, hunder _ hlt, hexDigitOf_digitChar hlt]
    simp [hsum]

theorem intHex_hexDigits {n : ℕ} (h : n < 2 ^ 128) :
    intHex (PyStr.ofChars (hexDigits 32 n)) = some (n : ℤ) := by
  have hnumber : hexNumber (PyStr.ofChars (hexDigits 32 n)) 0 false = some n := by
    have := hexNumber_hexDigits 32 n 0 false []
    rw [List.append_nil] at this
    rw [this, Nat.mod_eq_of_lt (lt_of_lt_of_eq h (by norm_num))]
    simp [hexNumber]
  have hdigit : ∀ c ∈ PyStr.ofChars (hexDigits 32 n), isAsciiSpace c = false ∧
      isCode c '-' = false ∧ isCode c '+' = false ∧ isCode c 'x' = false ∧
      isCode c 'X' = false ∧ c.val < 128 := by
    intro c hc
    obtain ⟨a, ha, rfl⟩ := List.mem_map.mp hc
    obtain ⟨d, hd, rfl⟩ := digit_cases ha
    clear hc ha
    revert d
    decide
  have hascii : (PyStr.ofChars (hexDigits 32 n)).map toAscii = PyStr.ofChars (hexDigits 32 n) := by
    calc (PyStr.ofChars (hexDigits 32 n)).map toAscii
        = (PyStr.ofChars (hexDigits 32 n)).map id :=
          List.map_congr_left fun c hc => if_pos (hdigit c hc).2.2.2.2.2
      _ = PyStr.ofChars (hexDigits 32 n) := List.map_id _
  rw [intHex, hascii, stripChars_of_forall fun c hc => (hdigit c hc).1]
  match hs : PyStr.ofChars (hexDigits 32 n) with
  | [] => rw [hs] at hnumber; cases hnumber
  | [c] =>
    rw [hs] at hnumber hdigit
    obtain ⟨-, hminus, hplus, -⟩ := hdigit c (by simp)
    simp [hminus, hplus, hexUnsigned, hnumber]
  | c :: b :: rest =>
    rw [hs] at hnumber hdigit
    obtain ⟨-, hminus, hplus, -⟩ := hdigit c (by simp)
    obtain ⟨-, -, -, hx, hX, -⟩ := hdigit b (by simp)
    simp [hminus, hplus, hexUnsigned, hx, hX, hnumber]

/-- An identifier is read back from its text. -/
theorem UUID.parse_chars (u : UUID) : UUID.parse (PyStr.ofChars u.chars) = some u := by
  have hchar : ∀ c ∈ PyStr.ofChars u.chars, isCode c ':' = false ∧ isCode c '{' = false ∧
      isCode c '}' = false := by
    intro c hc
    obtain ⟨a, ha, rfl⟩ := List.mem_map.mp hc
    have hcases : a = '-' ∨ a ∈ hexDigits 32 u.val := by
      by_cases hdash : a = '-'
      · exact .inl hdash
      · rw [← u.filter_chars]
        exact .inr (List.mem_filter.mpr ⟨ha, by simpa using hdash⟩)
    rcases hcases with rfl | ha
    · decide
    · rename_i hmem
      obtain ⟨d, hd, rfl⟩ := digit_cases ha
      clear hc hmem ha
      revert d
      decide
  have hcolon : CodePoint.ofChar ':' ∉ PyStr.ofChars u.chars := by
    intro hmem
    have := (hchar _ hmem).1
    simp at this
  have hdash : ∀ l : List Char, (PyStr.ofChars l).filter (fun c => !isCode c '-') =
      PyStr.ofChars (l.filter (· ≠ '-')) := by
    intro l
    rw [PyStr.ofChars, List.filter_map]
    refine congrArg _ (List.filter_congr fun c _ => ?_)
    by_cases hc : c = '-'
    · simp [hc]
    · have hne : ¬c.toNat = 45 := fun h => hc (Char.toNat_inj.mp h)
      simp [hc, hne]
  have hbare : UUID.bare (PyStr.ofChars u.chars) = PyStr.ofChars (hexDigits 32 u.val) := by
    simp only [UUID.bare]
    rw [removeAll_of_not_mem (by decide) hcolon, removeAll_of_not_mem (by decide) hcolon,
      stripChars_of_forall fun c hc => by simp [(hchar c hc).2], hdash, u.filter_chars]
  have hlen : (PyStr.ofChars (hexDigits 32 u.val)).length = 32 := by
    rw [PyStr.ofChars, List.length_map, hexDigits_length]
  rw [UUID.parse, hbare, if_neg (by simp [hlen]), intHex_hexDigits u.isLt]
  simp

end EventHarbor
