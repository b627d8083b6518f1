import EventHarbor.Arithmetic.Rounding
import EventHarbor.JavaScript.Strings

/-!
# JavaScript numbers

The finite numbers are the rationals they stand for; the two zeros are one. A
number is printed with the fewest digits that are read back as the same number.
-/

namespace EventHarbor

inductive JsNumber
  | nan
  | infinite (negative : Bool)
  | finite (q : ℚ)
deriving DecidableEq

namespace JsNumber

/-- The number nearest to `q`. -/
def ofRat (q : ℚ) : JsNumber :=
  if |Binary64.round q| < 2 ^ 1024 then .finite (Binary64.round q) else .infinite (q < 0)

/-- `Number.isFinite` -/
def isFinite : JsNumber → Bool
  | finite _ => true
  | _ => false

def add : JsNumber → JsNumber → JsNumber
  | finite p, finite q => ofRat (p + q)
  | finite _, infinite b | infinite b, finite _ => infinite b
  | infinite a, infinite b => if a = b then infinite a else nan
  | _, _ => nan

/-- `x < y` -/
def lt : JsNumber → JsNumber → Bool
  | finite p, finite q => p < q
  | finite _, infinite b => !b
  | infinite a, finite _ => a
  | infinite a, infinite b => a && !b
  | _, _ => false

/-- `x <= y` -/
def le : JsNumber → JsNumber → Bool
  | finite p, finite q => p ≤ q
  | finite _, infinite b => !b
  | infinite a, finite _ => a
  | infinite a, infinite b => a || !b
  | _, _ => false

/-- A decimal number `0.d₁…dₖ × 10ⁿ` without a leading zero, with its digits as an
integer. -/
structure Decimal where
  digits : ℕ
  k : ℕ
  n : ℤ
deriving DecidableEq

def Decimal.value (d : Decimal) : ℚ := d.digits * 10 ^ (d.n - d.k)

/-- The `n` with `10ⁿ⁻¹ ≤ q < 10ⁿ`. -/
def decade (q : ℚ) : ℤ := Int.log 10 q + 1

/-- The decimals of `k` digits next to a positive `q`, the closer one first. -/
def neighbours (q : ℚ) (k : ℕ) : List Decimal :=
  let scaled := q * 10 ^ (k - decade q)
  let below : Decimal := ⟨⌊scaled⌋₊, k, decade q⟩
  let above : Decimal :=
    if ⌊scaled⌋₊ + 1 = 10 ^ k then ⟨10 ^ (k - 1), k, decade q + 1⟩
    else ⟨⌊scaled⌋₊ + 1, k, decade q⟩
  if scaled - ⌊scaled⌋₊ ≤ 1 / 2 then [below, above] else [above, below]

/-- The decimal of `k` digits that is read back as `q`, if there is one. -/
def readBack (q : ℚ) (k : ℕ) : Option Decimal :=
  (neighbours q k).find? fun d => ofRat d.value = .finite q

/-- The shortest decimal that is read back as `q`. -/
def shortest (q : ℚ) : Decimal :=
  ((List.range 21).findSome? fun i => readBack q (i + 1)).getD ⟨0, 1, 1⟩

def Decimal.text (d : Decimal) : List Char :=
  let digits := Nat.toDigits 10 d.digits
  if d.k ≤ d.n ∧ d.n ≤ 21 then digits ++ List.replicate (d.n - d.k).toNat '0'
  else if 0 < d.n ∧ d.n ≤ 21 then digits.take d.n.toNat ++ '.' :: digits.drop d.n.toNat
  else if -6 < d.n ∧ d.n ≤ 0 then '0' :: '.' :: List.replicate (-d.n).toNat '0' ++ digits
  else
    digits.take 1 ++ (if d.k = 1 then [] else '.' :: digits.drop 1) ++
      'e' :: (if d.n - 1 < 0 then '-' else '+') :: Nat.toDigits 10 (d.n - 1).natAbs

/-- `Number::toString` of a finite number. -/
def finiteText (q : ℚ) : List Char :=
  if q = 0 then ['0'] else if q < 0 then '-' :: (shortest (-q)).text else (shortest q).text

/-- `JSON.stringify` of a number. -/
def json : JsNumber → List Char
  | finite q => finiteText q
  | _ => ['n', 'u', 'l', 'l']

/-! ## Integers -/

theorem ofRat_eq_finite {q r : ℚ} (h : ofRat q = .finite r) : Binary64.round q = r := by
  unfold ofRat at h
  split at h
  · exact JsNumber.finite.inj h
  · cases h

theorem ofRat_of_round {q : ℚ} (h : Binary64.round q = q) (hq : |q| < 2 ^ 70) :
    ofRat q = .finite q := by
  have hbound : |q| < 2 ^ 1024 :=
    hq.trans (pow_lt_pow_right₀ (by norm_num) (by norm_num))
  rw [ofRat, h, if_pos hbound]

theorem decade_natCast (x : ℕ) : decade x = Nat.log 10 x + 1 := by
  rw [decade, Int.log_natCast]

/-- An integer has as many digits as its decade says. -/
theorem head_neighbours (x : ℕ) :
    ∃ rest, neighbours x (Nat.log 10 x + 1) = ⟨x, Nat.log 10 x + 1, Nat.log 10 x + 1⟩ :: rest := by
  unfold neighbours
  rw [decade_natCast]
  have hscale : (x : ℚ) * 10 ^ (((Nat.log 10 x + 1 : ℕ) : ℤ) - (Nat.log 10 x + 1)) = x := by
    rw [Nat.cast_add, Nat.cast_one, sub_self, zpow_zero, mul_one]
  dsimp only
  rw [hscale, Nat.floor_natCast, sub_self, if_pos (by norm_num)]
  exact ⟨_, rfl⟩

theorem mem_neighbours {q : ℚ} {k : ℕ} {d : Decimal} (h : d ∈ neighbours q k) :
    d.k = k ∧ (d.n = decade q ∨ d.n = decade q + 1 ∧ d.digits = 10 ^ (k - 1)) := by
  have hcases : d = ⟨⌊q * 10 ^ (k - decade q)⌋₊, k, decade q⟩ ∨
      d = if ⌊q * 10 ^ (k - decade q)⌋₊ + 1 = 10 ^ k then ⟨10 ^ (k - 1), k, decade q + 1⟩
        else ⟨⌊q * 10 ^ (k - decade q)⌋₊ + 1, k, decade q⟩ := by
    unfold neighbours at h
    dsimp only at h
    split at h <;> simp only [List.mem_cons, List.not_mem_nil, or_false] at h
    · exact h
    · exact h.symm
  rcases hcases with rfl | rfl
  · exact ⟨rfl, .inl rfl⟩
  · split
    · exact ⟨rfl, .inr ⟨rfl, rfl⟩⟩
    · exact ⟨rfl, .inl rfl⟩

/-- A search of a range stops no later than at the first hit. -/
theorem findSome?_range {α : Type} {f : ℕ → Option α} {m j : ℕ} {a : α} (hj : j < m)
    (hf : f j = some a) :
    ∃ i ≤ j, ∃ b, f i = some b ∧ (List.range m).findSome? f = some b := by
  have hsome : ((List.range m).findSome? f).isSome = true := by
    rw [List.findSome?_isSome_iff]
    exact ⟨j, List.mem_range.mpr hj, by rw [hf]; rfl⟩
  obtain ⟨b, hb⟩ := Option.isSome_iff_exists.mp hsome
  obtain ⟨before, i, rest, hsplit, hi, hnone⟩ := List.findSome?_eq_some_iff.mp hb
  have hindex : i = before.length := by
    have hget : (List.range m)[before.length]? = some i := by
      rw [hsplit, List.getElem?_append_right le_rfl, Nat.sub_self, List.getElem?_cons_zero]
    have := (List.getElem?_eq_some_iff.mp hget).2
    rw [List.getElem_range] at this
    exact this.symm
  refine ⟨i, ?_, b, hi, hb⟩
  by_contra hlt
  have hmem : j ∈ before := by
    have hget : (List.range m)[j]? = some j := by
      rw [List.getElem?_range hj]
    rw [hsplit, List.getElem?_append_left (by omega)] at hget
    exact List.mem_of_getElem? hget
  have hmiss := hnone j hmem
  rw [hf] at hmiss
  cases hmiss

/-- A decimal read back as `q` bounds the digits of the shortest one. -/
theorem shortest_of_mem {q : ℚ} {j : ℕ} {c : Decimal} (hj : j < 21)
    (hc : c ∈ neighbours q (j + 1)) (hq : ofRat c.value = .finite q) :
    ∃ i ≤ j, shortest q ∈ neighbours q (i + 1) ∧ ofRat (shortest q).value = .finite q := by
  have hsome : (readBack q (j + 1)).isSome := by
    rw [readBack, List.find?_isSome]
    exact ⟨c, hc, decide_eq_true hq⟩
  obtain ⟨a, ha⟩ := Option.isSome_iff_exists.mp hsome
  obtain ⟨i, hi, d, hd, hsearch⟩ := findSome?_range (f := fun i => readBack q (i + 1)) hj ha
  have hshort : shortest q = d := by rw [shortest, hsearch, Option.getD_some]
  unfold readBack at hd
  have hback := List.find?_some hd
  rw [hshort]
  exact ⟨i, hi, List.mem_of_find?_eq_some hd, of_decide_eq_true hback⟩

theorem Decimal.value_eq_natCast {d : Decimal} (h : (d.k : ℤ) ≤ d.n) :
    d.value = (d.digits * 10 ^ (d.n - d.k).toNat : ℕ) := by
  have hexp : d.n - d.k = (d.n - d.k).toNat := by omega
  rw [Decimal.value, hexp, zpow_natCast, Int.toNat_natCast]
  push_cast
  rfl

/-- Trailing zeros are a factor. -/
theorem toDigits_mul_ten_pow {s : ℕ} (hs : 0 < s) (j : ℕ) :
    Nat.toDigits 10 (s * 10 ^ j) = Nat.toDigits 10 s ++ List.replicate j '0' := by
  induction j with
  | zero => simp
  | succ j ih =>
    have hstep : s * 10 ^ (j + 1) = 10 * (s * 10 ^ j) + 0 := by ring
    have hpos : 0 < s * 10 ^ j := by positivity
    rw [hstep, ← Nat.toDigits_append_toDigits (by norm_num) hpos (by norm_num), ih,
      List.append_assoc, Nat.toDigits_zero, List.replicate_succ', List.append_cancel_left_eq]

section Integers

variable {x : ℕ}

/-- An integer below `10 ^ 21` is printed without a point or an exponent. -/
theorem shortest_natCast (hpos : 0 < x) (hlt : x < 10 ^ 21) (hx : Binary64.round x = x) :
    ofRat (shortest x).value = .finite x ∧ ((shortest x).k : ℤ) ≤ (shortest x).n ∧
      (shortest x).n ≤ 21 := by
  have hlog : Nat.log 10 x < 21 := Nat.log_lt_of_lt_pow hpos.ne' hlt
  have hfinite : ofRat x = .finite x := by
    refine ofRat_of_round hx ?_
    rw [Nat.abs_cast]
    exact_mod_cast hlt.trans (show 10 ^ 21 < 2 ^ 70 by norm_num)
  -- All digits of the integer are an exact candidate.
  obtain ⟨rest, hrest⟩ := head_neighbours x
  obtain ⟨i, hi, hmem, hround⟩ := shortest_of_mem hlog (hrest ▸ List.mem_cons_self)
    (by rw [Decimal.value_eq_natCast (by simp)]; simpa using hfinite)
  generalize shortest x = d at hmem hround ⊢
  obtain ⟨hk, hn⟩ := mem_neighbours hmem
  rw [decade_natCast] at hn
  rcases hn with hn | ⟨hn, hdigits⟩
  · exact ⟨hround, by omega, by omega⟩
  · -- The next power of ten is a number of its own.
    have hvalue : d.value = 10 ^ (Nat.log 10 x + 1) := by
      rw [Decimal.value_eq_natCast (by omega), hdigits, ← pow_add]
      have hsum : i + 1 - 1 + (d.n - d.k).toNat = Nat.log 10 x + 1 := by omega
      rw [hsum]
      push_cast
      rfl
    have heq := ofRat_eq_finite hround
    rw [hvalue, Binary64.round_ten_pow (by omega)] at heq
    have hlast : x < 10 ^ (Nat.log 10 x + 1) := Nat.lt_pow_succ_log_self (by norm_num) x
    have hpow : 10 ^ (Nat.log 10 x + 1) = x := by exact_mod_cast heq
    omega

/-- An integer of 53 bits is printed with its own digits. -/
theorem text_shortest (hpos : 0 < x) (hx : x < 2 ^ 53) :
    (shortest x).text = Nat.toDigits 10 x := by
  have hlt : x < 10 ^ 21 := hx.trans (by norm_num)
  obtain ⟨hround, hk, hn⟩ := shortest_natCast hpos hlt (Binary64.round_natCast hx)
  generalize shortest x = d at hround hk hn ⊢
  have heq := ofRat_eq_finite hround
  rw [Decimal.value_eq_natCast hk] at heq
  set m := d.digits * 10 ^ (d.n - d.k).toNat with hm
  have hsmall : m < 2 ^ 53 := by
    by_contra hbig
    have hbig' : (2 : ℚ) ^ 53 ≤ m := by exact_mod_cast Nat.le_of_not_lt hbig
    have hmono := Binary64.round_mono (by norm_num) hbig'
    have hpow : Binary64.round (2 ^ 53) = 2 ^ 53 := by
      have := Binary64.round_mul_two_zpow (m := 1) (by norm_num) (e := 53) (by norm_num)
      simpa using this
    rw [hpow, heq] at hmono
    have : 2 ^ 53 ≤ x := by exact_mod_cast hmono
    omega
  rw [Binary64.round_natCast hsmall] at heq
  have hmx : m = x := by exact_mod_cast heq
  have hdigits : 0 < d.digits := by
    rcases Nat.eq_zero_or_pos d.digits with hzero | h
    · rw [hzero, Nat.zero_mul] at hm
      omega
    · exact h
  rw [Decimal.text, if_pos ⟨hk, hn⟩, ← toDigits_mul_ten_pow hdigits, ← hm, hmx]

/-- Integers of 53 bits are numbers of their own. -/
theorem ofRat_intCast {z : ℤ} (h : z.natAbs < 2 ^ 53) : ofRat z = .finite z := by
  have hround : Binary64.round z = z := by
    have hnat := Binary64.round_natCast h
    rcases Int.natAbs_eq z with heq | heq
    · rwa [heq, Int.cast_natCast]
    · rw [heq, Int.cast_neg, Int.cast_natCast]
      exact Binary64.round_neg hnat
  refine ofRat_of_round hround ?_
  rw [← Int.cast_abs, Int.abs_eq_natAbs]
  exact_mod_cast h.trans (show 2 ^ 53 < 2 ^ 70 by norm_num)

end Integers

end JsNumber

end EventHarbor
