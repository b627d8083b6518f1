import Mathlib.Data.List.Dedup
import Mathlib.Data.List.Nodup

/-!
# Bounded recency lists

A recency list holds the distinct elements of a sequence in the order of their
last touch. Keeping only its most recent part loses nothing that a later touch
would need.
-/

namespace Recency

variable {α β : Type}

/-- The last `n` elements. -/
def lastN (n : ℕ) (xs : List α) : List α := xs.drop (xs.length - n)

theorem length_lastN_le (n : ℕ) (xs : List α) : (lastN n xs).length ≤ n := by
  rw [lastN, List.length_drop]
  omega

theorem lastN_of_length_le {n : ℕ} {xs : List α} (h : xs.length ≤ n) : lastN n xs = xs := by
  rw [lastN, Nat.sub_eq_zero_of_le h, List.drop_zero]

theorem lastN_append {n : ℕ} {xs ys : List α} (h : n ≤ ys.length) :
    lastN n (xs ++ ys) = lastN n ys := by
  have hlen : (xs ++ ys).length - n = xs.length + (ys.length - n) := by
    rw [List.length_append]
    omega
  rw [lastN, hlen, ← List.drop_drop, List.drop_left, lastN]

/-- What has fallen out of the list stays out. -/
theorem lastN_lastN_append (n : ℕ) (xs ys : List α) :
    lastN n (lastN n xs ++ ys) = lastN n (xs ++ ys) := by
  by_cases hlen : xs.length ≤ n
  · rw [lastN_of_length_le hlen]
  · have hkept : (lastN n xs).length = n := by
      rw [lastN, List.length_drop]
      omega
    have hsplit : xs ++ ys = xs.take (xs.length - n) ++ (lastN n xs ++ ys) := by
      rw [lastN, ← List.append_assoc, List.take_append_drop]
    have hlong : n ≤ (lastN n xs ++ ys).length := by
      rw [List.length_append, hkept]
      omega
    rw [hsplit, lastN_append hlong]

theorem getElem?_mem_lastN {n i : ℕ} {xs : List α} {a : α} (h : xs[i]? = some a)
    (hi : xs.length ≤ i + n) : a ∈ lastN n xs := by
  have hlt := (List.getElem?_eq_some_iff.mp h).1
  refine List.mem_of_getElem? (i := i - (xs.length - n)) ?_
  rw [lastN, List.getElem?_drop, ← h]
  congr 1
  omega

theorem lastN_map (f : α → β) (n : ℕ) (xs : List α) : lastN n (xs.map f) = (lastN n xs).map f := by
  rw [lastN, lastN, List.length_map, List.map_drop]

theorem lastN_sublist (n : ℕ) (xs : List α) : (lastN n xs).Sublist xs := List.drop_sublist _ _

/-- The newest element is kept. -/
theorem mem_lastN_of_last {n : ℕ} (hn : 0 < n) (xs : List α) (a : α) : a ∈ lastN n (xs ++ [a]) := by
  have hlen : (xs ++ [a]).length - n ≤ xs.length := by
    rw [List.length_append, List.length_singleton]
    omega
  rw [lastN, List.drop_append_of_le_length hlen]
  exact List.mem_append_right _ (List.mem_singleton.mpr rfl)

section Touch

variable [DecidableEq α]

/-- The element becomes the most recent one. -/
def touch (xs : List α) (a : α) : List α := xs.filter (· ≠ a) ++ [a]

theorem nodup_touch {xs : List α} (h : xs.Nodup) (a : α) : (touch xs a).Nodup := by
  refine List.nodup_append.mpr ⟨h.filter _, List.nodup_singleton a, ?_⟩
  intro b hb c hc
  rw [List.mem_singleton.mp hc]
  exact of_decide_eq_true (List.mem_filter.mp hb).2

/-- Touching what is there keeps the length. -/
theorem length_touch_of_mem {xs : List α} (h : xs.Nodup) {a : α} (ha : a ∈ xs) :
    (touch xs a).length = xs.length := by
  have herase : xs.filter (· ≠ a) = xs.erase a := by
    rw [h.erase_eq_filter]
    refine List.filter_congr fun b _ => ?_
    by_cases hb : b = a <;> simp [hb]
  have hpos := List.length_pos_of_mem ha
  rw [touch, herase, List.length_append, List.length_erase_of_mem ha, List.length_singleton]
  omega

/-- What falls out of the bounded list does not matter to later touches. -/
theorem lastN_touch_lastN {n : ℕ} {xs : List α} (h : xs.Nodup) (a : α) :
    lastN n (touch (lastN n xs) a) = lastN n (touch xs a) := by
  by_cases hlen : xs.length ≤ n
  · rw [lastN_of_length_le hlen]
  have hkept : (lastN n xs).length = n := by
    rw [lastN, List.length_drop]
    omega
  have hlong : n ≤ (touch (lastN n xs) a).length := by
    by_cases ha : a ∈ lastN n xs
    · have hsame := length_touch_of_mem (h.sublist (lastN_sublist n xs)) ha
      omega
    · have hall : (lastN n xs).filter (· ≠ a) = lastN n xs := by
        rw [List.filter_eq_self]
        intro b hb
        refine decide_eq_true ?_
        rintro rfl
        exact ha hb
      rw [touch, hall, List.length_append, hkept]
      omega
  have hsplit : touch xs a =
      (xs.take (xs.length - n)).filter (· ≠ a) ++ touch (lastN n xs) a := by
    rw [touch, touch, ← List.append_assoc, ← List.filter_append, lastN, List.take_append_drop]
  rw [hsplit, lastN_append hlong]

/-- One more touch of a sequence. -/
theorem dedup_append_singleton (ts : List α) (a : α) :
    (ts ++ [a]).dedup = touch ts.dedup a := by
  induction ts with
  | nil => rfl
  | cons b ts ih =>
    rw [List.cons_append]
    by_cases hb : b ∈ ts
    · rw [List.dedup_cons_of_mem (List.mem_append_left _ hb), List.dedup_cons_of_mem hb, ih]
    · by_cases hba : b = a
      · subst hba
        rw [List.dedup_cons_of_mem (by simp), List.dedup_cons_of_notMem hb, ih, touch, touch]
        simp
      · rw [List.dedup_cons_of_notMem (by simp [hb, hba]), List.dedup_cons_of_notMem hb, ih, touch,
          touch]
        simp [hba]

end Touch

end Recency
