import Mathlib.Algebra.Order.Floor.Ring
import Mathlib.Data.Rat.Floor
import Mathlib.Data.Int.Log
import Mathlib.Tactic.FieldSimp
import Mathlib.Tactic.Linarith
import Mathlib.Tactic.Positivity

/-!
# Rounding

Rounding to the nearest integer with ties to even, and with it to the nearest
binary64 number. Doubles are the rationals they stand for.
-/

namespace EventHarbor

/-- `round(q)` rounds half to even. -/
def roundHalfEven (q : ℚ) : ℤ :=
  let r := q - ⌊q⌋
  if r < 1 / 2 then ⌊q⌋ else if 1 / 2 < r then ⌊q⌋ + 1
  else if ⌊q⌋ % 2 = 0 then ⌊q⌋ else ⌊q⌋ + 1

theorem roundHalfEven_floor (q : ℚ) : ⌊q⌋ ≤ roundHalfEven q ∧ roundHalfEven q ≤ ⌊q⌋ + 1 := by
  unfold roundHalfEven
  dsimp only
  split_ifs <;> omega

/-- Rounding half to even stays below an even bound up to half a step before it. -/
theorem roundHalfEven_lt {q : ℚ} {n : ℤ} (hn : n % 2 = 0) :
    roundHalfEven q < n ↔ q < n - 1 / 2 := by
  have hle : (⌊q⌋ : ℚ) ≤ q := Int.floor_le q
  have hlt : q < ⌊q⌋ + 1 := Int.lt_floor_add_one q
  obtain ⟨hlow, hhigh⟩ := roundHalfEven_floor q
  rcases lt_trichotomy ⌊q⌋ (n - 1) with hf | hf | hf
  · have : (⌊q⌋ : ℚ) + 1 ≤ n - 1 := by exact_mod_cast (show ⌊q⌋ + 1 ≤ n - 1 by omega)
    exact ⟨fun _ => by linarith, fun _ => by omega⟩
  · -- The last step below the bound is odd, so its middle is rounded up.
    have hcast : (⌊q⌋ : ℚ) = n - 1 := by exact_mod_cast hf
    have hodd : ¬⌊q⌋ % 2 = 0 := by omega
    unfold roundHalfEven
    dsimp only
    rw [hcast]
    split_ifs with h₁ h₂
    · exact ⟨fun _ => by linarith, fun _ => by omega⟩
    · exact ⟨fun h => by omega, fun h => by linarith⟩
    · exact ⟨fun h => by omega, fun h => by linarith⟩
  · have : (n : ℚ) ≤ ⌊q⌋ := by exact_mod_cast (show n ≤ ⌊q⌋ by omega)
    exact ⟨fun h => by omega, fun h => by linarith⟩

@[simp] theorem roundHalfEven_intCast (n : ℤ) : roundHalfEven n = n := by
  unfold roundHalfEven
  rw [Int.floor_intCast]
  simp

theorem roundHalfEven_mono {p q : ℚ} (h : p ≤ q) : roundHalfEven p ≤ roundHalfEven q := by
  have hfloor : ⌊p⌋ ≤ ⌊q⌋ := Int.floor_mono h
  have hp := roundHalfEven_floor p
  have hq := roundHalfEven_floor q
  rcases Int.lt_or_eq_of_le hfloor with hlt | heq
  · omega
  · unfold roundHalfEven
    dsimp only
    rw [heq]
    have hr : p - ⌊q⌋ ≤ q - ⌊q⌋ := by linarith
    split_ifs <;> first | omega | (exfalso; linarith)

theorem le_roundHalfEven {q : ℚ} {n : ℤ} (h : (n : ℚ) ≤ q) : n ≤ roundHalfEven q := by
  have := roundHalfEven_mono h
  rwa [roundHalfEven_intCast] at this

theorem roundHalfEven_le {q : ℚ} {n : ℤ} (h : q ≤ n) : roundHalfEven q ≤ n := by
  have := roundHalfEven_mono h
  rwa [roundHalfEven_intCast] at this

/-! ## Doubles -/

namespace Binary64

/-- The exponent of the last place of the doubles around `q`. -/
def lastPlace (q : ℚ) : ℤ := max (Int.log 2 |q| - 52) (-1074)

/-- The nearest double, for as long as exponents do not overflow. -/
def round (q : ℚ) : ℚ := roundHalfEven (q / 2 ^ lastPlace q) * 2 ^ lastPlace q

/-- How many last places a number has, after rounding. -/
def significand (q : ℚ) : ℤ := roundHalfEven (q / 2 ^ lastPlace q)

theorem round_eq (q : ℚ) : round q = significand q * 2 ^ lastPlace q := rfl

theorem two_zpow_pos (e : ℤ) : (0 : ℚ) < 2 ^ e := zpow_pos (by norm_num) e

section Positive

variable {q q' : ℚ}

theorem lt_two_zpow (hq : 0 < q) : q < 2 ^ (lastPlace q + 53) := by
  have hlog : q < (2 : ℕ) ^ (Int.log 2 q + 1) := Int.lt_zpow_succ_log_self (by norm_num) q
  have hle : Int.log 2 q + 1 ≤ lastPlace q + 53 := by
    have := le_max_left (Int.log 2 |q| - 52) (-1074)
    rw [abs_of_pos hq] at this
    unfold lastPlace
    rw [abs_of_pos hq]
    omega
  exact hlog.trans_le (zpow_le_zpow_right₀ (by norm_num) hle)

theorem significand_le (hq : 0 < q) : significand q ≤ 2 ^ 53 := by
  refine roundHalfEven_le ?_
  rw [div_le_iff₀ (two_zpow_pos _)]
  have := lt_two_zpow hq
  rw [zpow_add₀ (by norm_num)] at this
  push_cast
  linarith

/-- Above the least exponent the first place is taken. -/
theorem le_significand (hq : 0 < q) (h : -1074 < lastPlace q) : 2 ^ 52 ≤ significand q := by
  have hplace : lastPlace q = Int.log 2 q - 52 := by
    unfold lastPlace at h ⊢
    rw [abs_of_pos hq] at h ⊢
    omega
  have hlog : ((2 : ℕ) : ℚ) ^ Int.log 2 q ≤ q := Int.zpow_log_le_self (by norm_num) hq
  refine le_roundHalfEven ?_
  rw [le_div_iff₀ (two_zpow_pos _), hplace]
  have hsplit : ((2 : ℕ) : ℚ) ^ Int.log 2 q = 2 ^ (52 : ℤ) * 2 ^ (Int.log 2 q - 52) := by
    rw [← zpow_add₀ (by norm_num)]
    norm_num
  rw [hsplit] at hlog
  norm_num at hlog ⊢
  exact hlog

theorem lastPlace_mono (hq : 0 < q) (h : q ≤ q') : lastPlace q ≤ lastPlace q' := by
  unfold lastPlace
  rw [abs_of_pos hq, abs_of_pos (hq.trans_le h)]
  have := Int.log_mono_right (b := 2) hq h
  omega

/-- Rounding keeps the order. -/
theorem round_mono (hq : 0 < q) (h : q ≤ q') : round q ≤ round q' := by
  have hq' := hq.trans_le h
  rcases (lastPlace_mono hq h).lt_or_eq with hlt | heq
  · -- `2 ^ 53` places of the lower exponent are at most `2 ^ 52` of the higher one.
    have hplace : lastPlace q + 1 ≤ lastPlace q' := hlt
    have hleast : -1074 ≤ lastPlace q := le_max_right _ _
    have hlow : (significand q : ℚ) ≤ 2 ^ 53 := by exact_mod_cast significand_le hq
    have hhigh : (2 ^ 52 : ℚ) ≤ significand q' := by
      exact_mod_cast le_significand hq' (by omega)
    calc round q = significand q * 2 ^ lastPlace q := round_eq q
      _ ≤ 2 ^ 53 * 2 ^ lastPlace q := mul_le_mul_of_nonneg_right hlow (two_zpow_pos _).le
      _ = 2 ^ 52 * 2 ^ (lastPlace q + 1) := by rw [zpow_add_one₀ (by norm_num)]; ring
      _ ≤ 2 ^ 52 * 2 ^ lastPlace q' :=
          mul_le_mul_of_nonneg_left (zpow_le_zpow_right₀ (by norm_num) hplace) (by norm_num)
      _ ≤ significand q' * 2 ^ lastPlace q' :=
          mul_le_mul_of_nonneg_right hhigh (two_zpow_pos _).le
      _ = round q' := (round_eq q').symm
  · rw [round_eq, round_eq, ← heq]
    refine mul_le_mul_of_nonneg_right ?_ (two_zpow_pos _).le
    have hsig : significand q ≤ significand q' := by
      unfold significand
      rw [← heq]
      exact roundHalfEven_mono (div_le_div_of_nonneg_right h (two_zpow_pos _).le)
    exact_mod_cast hsig

end Positive

/-- Whole last places are not rounded. -/
theorem round_of_places {q : ℚ} {k : ℤ} (h : q = k * 2 ^ lastPlace q) : round q = q := by
  have hsig : q / 2 ^ lastPlace q = k := by
    rw [div_eq_iff (two_zpow_pos _).ne']
    exact h
  rw [round, hsig, roundHalfEven_intCast]
  exact h.symm

/-- The opposite of a double is one. -/
theorem round_neg {q : ℚ} (h : round q = q) : round (-q) = -q := by
  have hplace : lastPlace (-q) = lastPlace q := by rw [lastPlace, lastPlace, abs_neg]
  refine round_of_places (k := -significand q) ?_
  rw [hplace, Int.cast_neg, neg_mul, ← round_eq, h]

/-- Numbers of 53 bits and their multiples by powers of two are doubles. -/
theorem round_mul_two_zpow {m : ℕ} (hm : m < 2 ^ 53) {e : ℤ} (he : -1074 ≤ e) :
    round (m * 2 ^ e) = m * 2 ^ e := by
  rcases Nat.eq_zero_or_pos m with rfl | hpos
  · refine round_of_places (k := 0) ?_
    norm_num
  have hq : (0 : ℚ) < m * 2 ^ e := mul_pos (by exact_mod_cast hpos) (two_zpow_pos e)
  have hlt : (m : ℚ) * 2 ^ e < (2 : ℕ) ^ (53 + e) := by
    rw [Nat.cast_ofNat, zpow_add₀ (by norm_num)]
    refine mul_lt_mul_of_pos_right ?_ (two_zpow_pos e)
    exact_mod_cast hm
  have hlog := (Int.lt_zpow_iff_log_lt (by norm_num) hq).mp hlt
  have hplace : lastPlace (m * 2 ^ e) ≤ e := by
    unfold lastPlace
    rw [abs_of_pos hq]
    omega
  obtain ⟨n, hn⟩ := Int.eq_ofNat_of_zero_le (Int.sub_nonneg.mpr hplace)
  refine round_of_places (k := m * 2 ^ n) ?_
  have hsplit : (2 : ℚ) ^ e = 2 ^ n * 2 ^ lastPlace (m * 2 ^ e) := by
    rw [← zpow_natCast, ← zpow_add₀ (by norm_num)]
    congr 1
    omega
  push_cast
  rw [mul_assoc, ← hsplit]

/-- Integers of 53 bits are doubles. -/
theorem round_natCast {n : ℕ} (h : n < 2 ^ 53) : round n = n := by
  have := round_mul_two_zpow h (e := 0) (by norm_num)
  simpa using this

theorem round_two_zpow {e : ℤ} (he : -1074 ≤ e) : round (2 ^ e) = 2 ^ e := by
  have := round_mul_two_zpow (show 1 < 2 ^ 53 by norm_num) he
  simpa using this

theorem round_nonpos {q : ℚ} (h : q ≤ 0) : round q ≤ 0 := by
  have hsig : significand q ≤ 0 := by
    refine roundHalfEven_le ?_
    rw [Int.cast_zero]
    exact div_nonpos_of_nonpos_of_nonneg h (two_zpow_pos _).le
  rw [round_eq]
  exact mul_nonpos_of_nonpos_of_nonneg (by exact_mod_cast hsig) (two_zpow_pos _).le

/-- Rounding moves a number by a last place at most. -/
theorem abs_round_sub_le (q : ℚ) : |round q - q| ≤ 2 ^ lastPlace q := by
  have hplace := two_zpow_pos (lastPlace q)
  obtain ⟨hlow, hhigh⟩ := roundHalfEven_floor (q / 2 ^ lastPlace q)
  have hdist : |(significand q : ℚ) - q / 2 ^ lastPlace q| ≤ 1 := by
    have hlow : (⌊q / 2 ^ lastPlace q⌋ : ℚ) ≤ significand q := by exact_mod_cast hlow
    have hhigh : (significand q : ℚ) ≤ ⌊q / 2 ^ lastPlace q⌋ + 1 := by exact_mod_cast hhigh
    have := Int.floor_le (q / 2 ^ lastPlace q)
    have := Int.lt_floor_add_one (q / 2 ^ lastPlace q)
    rw [abs_le]
    constructor <;> linarith
  calc |round q - q| = |((significand q : ℚ) - q / 2 ^ lastPlace q) * 2 ^ lastPlace q| := by
        rw [round_eq, sub_mul, div_mul_cancel₀ _ hplace.ne']
    _ = |(significand q : ℚ) - q / 2 ^ lastPlace q| * 2 ^ lastPlace q := by
        rw [abs_mul, abs_of_pos hplace]
    _ ≤ 1 * 2 ^ lastPlace q := mul_le_mul_of_nonneg_right hdist hplace.le
    _ = 2 ^ lastPlace q := one_mul _

/-- The last place of the numbers whose first place is known. -/
theorem lastPlace_eq {q : ℚ} {e : ℤ} (he : -1074 ≤ e) (hlow : 2 ^ (e + 52) ≤ q)
    (hhigh : q < 2 ^ (e + 53)) : lastPlace q = e := by
  have hq : 0 < q := (two_zpow_pos _).trans_le hlow
  have hle : e + 52 ≤ Int.log 2 q := by
    rw [← Int.zpow_le_iff_le_log (by norm_num) hq]
    exact_mod_cast hlow
  have hlt : Int.log 2 q < e + 53 := by
    rw [← Int.lt_zpow_iff_log_lt (by norm_num) hq]
    exact_mod_cast hhigh
  unfold lastPlace
  rw [abs_of_pos hq]
  omega

/-- What stays below a double of even significand is what is below it by more
than half a place. -/
theorem round_lt {q : ℚ} {e n : ℤ} (he : -1074 ≤ e) (heven : n % 2 = 0) (hlow : 2 ^ 52 < n)
    (hhigh : n ≤ 2 ^ 53) : round q < n * 2 ^ e ↔ q < (n - 1 / 2) * 2 ^ e := by
  have hplace := two_zpow_pos e
  have hn : (2 : ℚ) ^ 52 + 1 ≤ n := by exact_mod_cast hlow
  have hn' : (n : ℚ) ≤ 2 ^ 53 := by exact_mod_cast hhigh
  have hfirst : (2 : ℚ) ^ (e + 52) = 2 ^ 52 * 2 ^ e := by
    rw [zpow_add₀ (by norm_num), mul_comm]
    norm_num
  have hlast : (2 : ℚ) ^ (e + 53) = 2 ^ 53 * 2 ^ e := by
    rw [zpow_add₀ (by norm_num), mul_comm]
    norm_num
  rcases le_or_gt q 0 with hq | hq
  · exact iff_of_true ((round_nonpos hq).trans_lt (mul_pos (by linarith) hplace))
      (hq.trans_lt (mul_pos (by linarith) hplace))
  rcases lt_or_ge q (2 ^ (e + 52)) with hbelow | hfrom
  · -- Numbers of a smaller first place are rounded up to this one at most.
    refine iff_of_true ?_ ?_
    · calc round q ≤ round (2 ^ (e + 52)) := round_mono hq hbelow.le
        _ = 2 ^ 52 * 2 ^ e := (round_two_zpow (by omega)).trans hfirst
        _ < n * 2 ^ e := mul_lt_mul_of_pos_right (by linarith) hplace
    · calc q < 2 ^ 52 * 2 ^ e := hfirst ▸ hbelow
        _ ≤ (n - 1 / 2) * 2 ^ e := mul_le_mul_of_nonneg_right (by linarith) hplace.le
  rcases lt_or_ge q (2 ^ (e + 53)) with hto | habove
  · rw [round_eq, significand, lastPlace_eq he hfrom hto, mul_lt_mul_iff_left₀ hplace, Int.cast_lt,
      roundHalfEven_lt heven, div_lt_iff₀ hplace]
  · refine iff_of_false (not_lt.mpr ?_) (not_lt.mpr ?_)
    · calc (n : ℚ) * 2 ^ e ≤ 2 ^ 53 * 2 ^ e := mul_le_mul_of_nonneg_right hn' hplace.le
        _ = round (2 ^ (e + 53)) := ((round_two_zpow (by omega)).trans hlast).symm
        _ ≤ round q := round_mono (two_zpow_pos _) habove
    · calc ((n : ℚ) - 1 / 2) * 2 ^ e ≤ 2 ^ 53 * 2 ^ e :=
          mul_le_mul_of_nonneg_right (by linarith) hplace.le
        _ ≤ q := hlast ▸ habove

/-- The first powers of ten are doubles. -/
theorem round_ten_pow {n : ℕ} (h : n ≤ 22) : round (10 ^ n) = 10 ^ n := by
  have hfive : 5 ^ n < 2 ^ 53 := by
    calc 5 ^ n ≤ 5 ^ 22 := Nat.pow_le_pow_right (by norm_num) h
      _ < 2 ^ 53 := by norm_num
  have hsplit : (10 : ℚ) ^ n = (5 ^ n : ℕ) * 2 ^ (n : ℤ) := by
    rw [zpow_natCast, Nat.cast_pow, ← mul_pow]
    norm_num
  rw [hsplit]
  exact round_mul_two_zpow hfive (by omega)

end Binary64

end EventHarbor
