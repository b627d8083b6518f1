import Mathlib.Data.List.Sort

/-!
# Working through a sorted list in batches

Taking the first elements of a sorted selection away leaves the rest of the
sorted selection, so batches follow one after the other.
-/

namespace Batches

variable {α κ : Type}

section Sorted

variable {r : α → α → Prop} [DecidableRel r]

/-- What is not selected may be inserted anywhere. -/
theorem filter_orderedInsert_of_neg {p : α → Bool} {a : α} (ha : p a = false) (l : List α) :
    (l.orderedInsert r a).filter p = l.filter p := by
  induction l with
  | nil => simp [ha]
  | cons b l ih =>
    by_cases hab : r a b
    · rw [List.orderedInsert_cons_of_le r l hab, List.filter_cons_of_neg (by simp [ha])]
    · rw [List.orderedInsert_of_not_le r l hab, List.filter_cons, List.filter_cons, ih]

variable [IsTrans α r]

/-- Inserting into a sorted list and selecting from it commute. -/
theorem filter_orderedInsert {p : α → Bool} {a : α} (ha : p a = true) {l : List α}
    (hl : l.Pairwise r) :
    (l.orderedInsert r a).filter p = (l.filter p).orderedInsert r a := by
  induction l with
  | nil => simp [ha]
  | cons b l ih =>
    obtain ⟨hb, hl⟩ := List.pairwise_cons.mp hl
    by_cases hab : r a b
    · rw [List.orderedInsert_cons_of_le r l hab, List.filter_cons_of_pos ha]
      -- Whatever is kept of the list comes after `a`.
      cases hf : (b :: l).filter p with
      | nil => rfl
      | cons c cs =>
        have hc : c ∈ b :: l := List.mem_of_mem_filter (hf ▸ List.mem_cons_self)
        have hac : r a c := by
          rcases List.mem_cons.mp hc with rfl | hc
          · exact hab
          · exact IsTrans.trans _ _ _ hab (hb c hc)
        rw [List.orderedInsert_cons_of_le r cs hac]
    · rw [List.orderedInsert_of_not_le r l hab]
      cases hp : p b with
      | false =>
        rw [List.filter_cons_of_neg (by simp [hp]), List.filter_cons_of_neg (by simp [hp]), ih hl]
      | true =>
        rw [List.filter_cons_of_pos hp, List.filter_cons_of_pos hp,
          List.orderedInsert_of_not_le r _ hab, ih hl]

/-- Sorting a selection selects from the sorted list. -/
theorem insertionSort_filter [Std.Total r] (p : α → Bool) (l : List α) :
    (l.filter p).insertionSort r = (l.insertionSort r).filter p := by
  induction l with
  | nil => rfl
  | cons a l ih =>
    rw [List.insertionSort_cons]
    cases hp : p a with
    | false =>
      rw [List.filter_cons_of_neg (by simp [hp]), ih, filter_orderedInsert_of_neg hp]
    | true =>
      rw [List.filter_cons_of_pos hp, List.insertionSort_cons, ih,
        filter_orderedInsert hp (List.pairwise_insertionSort r l)]

end Sorted

/-- What is left when the first elements are taken away. -/
theorem filter_not_mem_take [DecidableEq κ] {key : α → κ} {l : List α} (h : (l.map key).Nodup)
    (k : ℕ) : (l.filter fun a => key a ∉ (l.take k).map key) = l.drop k := by
  have hdisjoint := h
  rw [← List.take_append_drop k l, List.map_append, List.nodup_append] at hdisjoint
  calc l.filter (fun a => key a ∉ (l.take k).map key)
      = (l.take k).filter (fun a => key a ∉ (l.take k).map key) ++
          (l.drop k).filter (fun a => key a ∉ (l.take k).map key) := by
        rw [← List.filter_append, List.take_append_drop]
    _ = [] ++ l.drop k := by
        congr 1
        · refine List.filter_eq_nil_iff.mpr fun a ha => ?_
          simp only [decide_eq_true_eq, not_not]
          exact List.mem_map_of_mem ha
        · refine List.filter_eq_self.mpr fun a ha => decide_eq_true fun hm => ?_
          exact hdisjoint.2.2 _ hm _ (List.mem_map_of_mem ha) rfl
    _ = l.drop k := List.nil_append _

/-- One batch is counted for every started `b`. -/
theorem ceil_step {n b : ℕ} (hn : 0 < n) (hb : 0 < b) :
    (n - min b n + b - 1) / b + 1 = (n + b - 1) / b := by
  rcases Nat.le_total n b with hle | hle
  · rw [Nat.min_eq_right hle, Nat.sub_self, Nat.div_eq_of_lt (by omega)]
    have : n + b - 1 = n - 1 + b := by omega
    rw [this, Nat.add_div_right _ hb, Nat.div_eq_of_lt (by omega)]
  · have : n + b - 1 = n - min b n + b - 1 + b := by omega
    rw [this, Nat.add_div_right _ hb]

end Batches
