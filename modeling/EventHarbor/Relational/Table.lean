import Mathlib.Algebra.Ring.Nat
import Mathlib.Data.List.Nodup
import Mathlib.Data.List.Pairwise
import Mathlib.Data.List.Sort

/-!
# Keyed tables

A table is a list of rows whose keys are pairwise distinct. Inserting under a
key that is taken, and replacing a row whose key is absent, change nothing, so
the primary key holds of every table that can be built.
-/

namespace Relational

/-- Rows under a primary key. -/
structure Table {κ α : Type} (key : α → κ) where
  rows : List α
  nodup : (rows.map key).Nodup

namespace Table

variable {κ α : Type} {key : α → κ}

instance : Membership α (Table key) := ⟨fun t r => r ∈ t.rows⟩

instance [DecidableEq α] (r : α) (t : Table key) : Decidable (r ∈ t) :=
  inferInstanceAs (Decidable (r ∈ t.rows))

instance [DecidableEq α] : DecidableEq (Table key) := fun s t =>
  decidable_of_iff (s.rows = t.rows) ⟨fun h => by cases s; cases t; simp_all, fun h => h ▸ rfl⟩

theorem mem_def {r : α} {t : Table key} : r ∈ t ↔ r ∈ t.rows := Iff.rfl

def empty : Table key := ⟨[], List.nodup_nil⟩

@[simp] theorem not_mem_empty (r : α) : r ∉ (empty : Table key) := List.not_mem_nil

/-- Two rows under one key are the same row. -/
theorem eq_of_key {t : Table key} {r s : α} (hr : r ∈ t) (hs : s ∈ t) (h : key r = key s) :
    r = s :=
  List.inj_on_of_nodup_map t.nodup hr hs h

variable [DecidableEq κ]

/-- The row stored under a key. -/
def get? (t : Table key) (k : κ) : Option α := t.rows.find? (key · = k)

theorem get?_eq_some {t : Table key} {k : κ} {r : α} :
    t.get? k = some r ↔ r ∈ t ∧ key r = k := by
  constructor
  · intro h
    exact ⟨List.mem_of_find?_eq_some h, by simpa using List.find?_some h⟩
  · rintro ⟨hr, rfl⟩
    cases h : t.get? (key r) with
    | none => simpa using List.find?_eq_none.mp h r hr
    | some s =>
      have hs : key s = key r := by simpa using List.find?_some h
      rw [eq_of_key (List.mem_of_find?_eq_some h) hr hs]

theorem get?_eq_none {t : Table key} {k : κ} :
    t.get? k = none ↔ ∀ r ∈ t, key r ≠ k := by
  simp [get?, List.find?_eq_none, mem_def]

theorem get?_key {t : Table key} {r : α} (h : r ∈ t) : t.get? (key r) = some r :=
  get?_eq_some.mpr ⟨h, rfl⟩

/-- No row is stored under `k`. -/
def Fresh (t : Table key) (k : κ) : Prop := ∀ r ∈ t, key r ≠ k

instance (t : Table key) (k : κ) : Decidable (t.Fresh k) :=
  inferInstanceAs (Decidable (∀ r ∈ t.rows, key r ≠ k))

def insert (t : Table key) (r : α) : Table key :=
  if h : t.Fresh (key r) then
    ⟨t.rows ++ [r], by
      rw [List.map_append, List.nodup_append]
      refine ⟨t.nodup, List.nodup_singleton _, ?_⟩
      rintro k hk _ hr rfl
      obtain ⟨s, hs, rfl⟩ := List.mem_map.mp hk
      exact h s hs (by simpa using hr)⟩
  else t

theorem mem_insert {t : Table key} {r s : α} (h : t.Fresh (key r)) :
    s ∈ t.insert r ↔ s ∈ t ∨ s = r := by
  simp [insert, h, mem_def]

theorem mem_insert_of_mem {t : Table key} {r s : α} (h : s ∈ t) : s ∈ t.insert r := by
  unfold insert
  split
  · exact List.mem_append_left _ h
  · exact h

theorem mem_of_mem_insert {t : Table key} {r s : α} (h : s ∈ t.insert r) : s ∈ t ∨ s = r := by
  unfold insert at h
  split at h
  · simpa [mem_def] using h
  · exact Or.inl h

theorem length_insert {t : Table key} {r : α} (h : t.Fresh (key r)) :
    (t.insert r).rows.length = t.rows.length + 1 := by
  simp [insert, h]

theorem countP_insert {t : Table key} {r : α} (h : t.Fresh (key r)) (p : α → Bool) :
    (t.insert r).rows.countP p = t.rows.countP p + if p r then 1 else 0 := by
  simp [insert, h, List.countP_append, List.countP_singleton]

theorem filter_rows_insert {t : Table key} {r : α} (h : t.Fresh (key r)) (p : α → Bool) :
    (t.insert r).rows.filter p = t.rows.filter p ++ [r].filter p := by
  simp [insert, h]

variable (key) in
/-- `r` in the place of the row with its key. -/
def overwrite (r s : α) : α := if key s = key r then r else s

theorem overwrite_of_ne {r s : α} (h : key s ≠ key r) : overwrite key r s = s := by
  simp [overwrite, h]

theorem overwrite_self {r s : α} (h : key s = key r) : overwrite key r s = r := by
  simp [overwrite, h]

theorem key_overwrite (r s : α) : key (overwrite key r s) = key s := by
  by_cases h : key s = key r <;> simp [overwrite, h]

/-- Replace the row stored under `key r`. -/
def set (t : Table key) (r : α) : Table key :=
  ⟨t.rows.map (overwrite key r), by
    have h : (t.rows.map (overwrite key r)).map key = t.rows.map key := by
      rw [List.map_map]
      exact List.map_congr_left fun s _ => key_overwrite r s
    rw [h]
    exact t.nodup⟩

/-- Replacing a row acts on any selection that does not tell the two rows apart. -/
theorem filter_rows_set {t : Table key} {q r : α} (hq : q ∈ t) (h : key q = key r)
    {p : α → Bool} (hp : p q = p r) :
    (t.set r).rows.filter p = (t.rows.filter p).map (overwrite key r) := by
  simp only [set, List.filter_map]
  congr 1
  apply List.filter_congr
  intro s hs
  by_cases hk : key s = key r
  · rw [Function.comp_apply, overwrite_self hk, eq_of_key hs hq (hk.trans h.symm), hp]
  · rw [Function.comp_apply, overwrite_of_ne hk]

theorem set_set {t : Table key} {r s : α} (h : key r = key s) : (t.set r).set s = t.set s := by
  simp only [set, List.map_map, mk.injEq]
  apply List.map_congr_left
  intro q _
  by_cases hq : key q = key s
  · simp [overwrite, hq, h]
  · simp [overwrite, hq, h]

theorem mem_set {t : Table key} {r s : α} :
    s ∈ t.set r ↔ (s ∈ t ∧ key s ≠ key r) ∨ (s = r ∧ ∃ q ∈ t, key q = key r) := by
  simp only [set, mem_def, List.mem_map]
  constructor
  · rintro ⟨q, hq, rfl⟩
    by_cases h : key q = key r
    · exact Or.inr ⟨overwrite_self h, q, hq, h⟩
    · exact Or.inl (by simpa [overwrite_of_ne h] using ⟨hq, h⟩)
  · rintro (⟨hs, h⟩ | ⟨rfl, q, hq, h⟩)
    · exact ⟨s, hs, overwrite_of_ne h⟩
    · exact ⟨q, hq, overwrite_self h⟩

/-- Replacing a stored row leaves exactly the other rows and the new one. -/
theorem mem_set_of_mem {t : Table key} {q r s : α} (hq : q ∈ t) (h : key q = key r) :
    s ∈ t.set r ↔ (s ∈ t ∧ s ≠ q) ∨ s = r := by
  rw [mem_set]
  constructor
  · rintro (⟨hs, hne⟩ | ⟨hs, -⟩)
    · exact Or.inl ⟨hs, fun hsq => hne (hsq ▸ h)⟩
    · exact Or.inr hs
  · rintro (⟨hs, hne⟩ | hs)
    · exact Or.inl ⟨hs, fun hk => hne (eq_of_key hs hq (hk.trans h.symm))⟩
    · exact Or.inr ⟨hs, q, hq, h⟩

/-- A row of a list with distinct keys is found once. -/
theorem sum_map_overwrite {rows : List α} (hn : (rows.map key).Nodup) {q r : α}
    (hq : q ∈ rows) (h : key q = key r) (f : α → ℕ) :
    (rows.map fun s => f (overwrite key r s)).sum + f q = (rows.map f).sum + f r := by
  induction rows with
  | nil => cases hq
  | cons s rows ih =>
    rw [List.map_cons, List.nodup_cons] at hn
    rw [List.map_cons, List.sum_cons, List.map_cons, List.sum_cons]
    rcases List.mem_cons.mp hq with rfl | hq
    · have hrest : rows.map (fun s => f (overwrite key r s)) = rows.map f := by
        refine List.map_congr_left fun s hs => ?_
        rw [overwrite_of_ne fun hk => hn.1 (hk.trans h.symm ▸ List.mem_map_of_mem hs)]
      rw [hrest, overwrite_self h]
      omega
    · have hne : key s ≠ key r := fun hk => hn.1 (hk.trans h.symm ▸ List.mem_map_of_mem hq)
      have := ih hn.2 hq
      rw [overwrite_of_ne hne]
      omega

/-- Replacing a row replaces its share of a sum over the table. -/
theorem sum_map_set {t : Table key} {q r : α} (hq : q ∈ t) (h : key q = key r) (f : α → ℕ) :
    ((t.set r).rows.map f).sum + f q = (t.rows.map f).sum + f r := by
  rw [set, List.map_map]
  exact sum_map_overwrite t.nodup hq h f

omit [DecidableEq κ] in
theorem nodup_filter_map (p : α → Bool) {rows : List α} (h : (rows.map key).Nodup) :
    ((rows.filter p).map key).Nodup :=
  h.sublist (List.filter_sublist.map key)

/-- The rows that satisfy a predicate. -/
def filter (p : α → Bool) (t : Table key) : Table key :=
  ⟨t.rows.filter p, nodup_filter_map p t.nodup⟩

omit [DecidableEq κ] in
@[simp] theorem mem_filter {p : α → Bool} {t : Table key} {r : α} :
    r ∈ t.filter p ↔ r ∈ t ∧ p r = true := by
  simp [filter, mem_def]

omit [DecidableEq κ] in
/-- Two rows found by one selection are different rows. -/
theorem filter_pair_ne {t : Table key} {p : α → Bool} {r r' : α} {rs : List α}
    (h : t.rows.filter p = r :: r' :: rs) : r ≠ r' := by
  have hn := nodup_filter_map p t.nodup
  rw [h] at hn
  rintro rfl
  simp at hn

omit [DecidableEq κ] in
/-- A selection of one key finds at most one row. -/
theorem filter_ne_pair {t : Table key} {p : α → Bool} {k : κ} (hp : ∀ r, p r = true → key r = k)
    {r r' : α} {rs : List α} : t.rows.filter p ≠ r :: r' :: rs := by
  intro h
  have hmem : ∀ s ∈ r :: r' :: rs, s ∈ t ∧ key s = k := fun s hs =>
    ⟨(List.mem_filter.mp (h ▸ hs)).1, hp s (List.mem_filter.mp (h ▸ hs)).2⟩
  obtain ⟨hr, hrk⟩ := hmem r (by simp)
  obtain ⟨hr', hrk'⟩ := hmem r' (by simp)
  exact filter_pair_ne h (eq_of_key hr hr' (hrk.trans hrk'.symm))

/-- A table has one row under the key of one of its rows. -/
theorem filter_key {t : Table key} {r : α} (hr : r ∈ t) :
    (t.rows.filter fun s => key s = key r) = [r] := by
  have hmem : r ∈ t.rows.filter fun s => key s = key r := List.mem_filter.mpr ⟨hr, by simp⟩
  match hf : t.rows.filter fun s => key s = key r with
  | [] => rw [hf] at hmem; cases hmem
  | [s] =>
    rw [hf] at hmem
    rw [List.mem_singleton.mp hmem]
  | s :: s' :: ss => exact absurd hf (filter_ne_pair fun x hx => by simpa using hx)

end Table

end Relational
