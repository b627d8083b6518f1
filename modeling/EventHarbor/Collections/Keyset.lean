import Mathlib.Data.List.Sort
import Mathlib.Order.Basic

/-!
# Keyset pagination

A page is the first rows, in descending key order, whose keys are below the
last key of the page before. The table may change between two pages.
-/

namespace Keyset

variable {α κ : Type} [LinearOrder κ] (key : α → κ)

/-- `ORDER BY key DESC` -/
def ordered (rows : List α) : List α := rows.insertionSort fun a b => key b ≤ key a

/-- `WHERE key < after` -/
def isBelow (after : Option κ) (r : α) : Bool :=
  match after with
  | none => true
  | some k => key r < k

/-- The rows that are left to read. -/
def rest (after : Option κ) (rows : List α) : List α := ordered key (rows.filter (isBelow key after))

structure Slice (α κ : Type) where
  items : List α
  next : Option κ

/-- A page of `limit` rows; one more is read to see whether another follows. -/
def slice (limit : ℕ) (after : Option κ) (rows : List α) : Slice α κ :=
  let found := (rest key after rows).take (limit + 1)
  let visible := found.take limit
  { items := visible
    next := if limit < found.length then visible.getLast?.map key else none }

/-- Pages read one after the other: the tables they were read from, the pages,
and the key below which the next one starts. -/
inductive Traversal (limit : ℕ) : List (List α) → List (List α) → Option κ → Prop
  | first {rows} : Traversal limit [rows] [(slice key limit none rows).items]
      (slice key limit none rows).next
  | more {tables pages k rows} (h : Traversal limit tables pages (some k)) :
      Traversal limit (tables ++ [rows]) (pages ++ [(slice key limit (some k) rows).items])
        (slice key limit (some k) rows).next

variable {key} {limit : ℕ} {after : Option κ} {rows : List α}

theorem mem_rest {r : α} : r ∈ rest key after rows ↔ r ∈ rows ∧ isBelow key after r = true := by
  simp [rest, ordered, List.mem_insertionSort]

/-- Rows with distinct keys, in descending order. -/
abbrev Descending (key : α → κ) (l : List α) : Prop := l.Pairwise fun a b => key b < key a

variable (after) in
theorem rest_descending (hkey : (rows.map key).Nodup) : Descending key (rest key after rows) := by
  have hsorted : (rest key after rows).Pairwise fun a b => key b ≤ key a :=
    List.pairwise_insertionSort _ _
  have hnodup : ((rest key after rows).map key).Nodup :=
    ((List.perm_insertionSort _ _).map key).nodup_iff.mpr
      (hkey.sublist (List.filter_sublist.map key))
  have hne : (rest key after rows).Pairwise fun a b => key a ≠ key b := List.pairwise_map.mp hnodup
  exact hsorted.imp₂ (fun _ _ hle hne => lt_of_le_of_ne hle (Ne.symm hne)) hne

/-- Descending lists are determined by their rows. -/
theorem Descending.ext {l l' : List α} (h : Descending key l) (h' : Descending key l')
    (hmem : ∀ r, r ∈ l ↔ r ∈ l') : l = l' := by
  have hnodup : ∀ {l : List α}, Descending key l → l.Nodup := by
    intro l h
    refine h.imp ?_
    rintro a b hlt rfl
    exact lt_irrefl _ hlt
  refine List.Perm.eq_of_pairwise (fun a b _ _ hab hba => absurd hab (lt_asymm hba)) h h' ?_
  exact (List.perm_ext_iff_of_nodup (hnodup h) (hnodup h')).mpr hmem

variable (after) in
/-- A page is all that is left, or a next page starts below its last key. -/
theorem slice_cases (hlimit : 1 ≤ limit) (hkey : (rows.map key).Nodup) :
    ((slice key limit after rows).next = none ∧
      (slice key limit after rows).items = rest key after rows) ∨
    ∃ k, (slice key limit after rows).next = some k ∧ (∀ a, after = some a → k < a) ∧
      (∀ r ∈ (slice key limit after rows).items, k ≤ key r) ∧
      (slice key limit after rows).items ≠ [] ∧
      rest key after rows = (slice key limit after rows).items ++ rest key (some k) rows := by
  have hdesc := rest_descending after hkey
  have hitems : (slice key limit after rows).items = (rest key after rows).take limit := by
    simp [slice, List.take_take]
  rcases Nat.lt_or_ge limit (rest key after rows).length with hlen | hlen
  · right
    have hne : (rest key after rows).take limit ≠ [] := by
      rw [Ne, List.take_eq_nil_iff]
      rintro (h | h)
      · omega
      · simp [h] at hlen
    obtain ⟨init, last, hlast⟩ := List.eq_nil_or_concat' _ |>.resolve_left hne
    have hnext : (slice key limit after rows).next = some (key last) := by
      have hfound : limit < ((rest key after rows).take (limit + 1)).length := by
        rw [List.length_take]
        omega
      simp only [slice, if_pos hfound, List.take_take, Nat.min_eq_left (Nat.le_succ limit), hlast]
      simp
    have hsplit : rest key after rows =
        (init ++ [last]) ++ (rest key after rows).drop limit := by
      rw [← hlast, List.take_append_drop]
    have hlastmem : last ∈ rest key after rows := by
      rw [hsplit]
      simp
    rw [hsplit] at hdesc
    obtain ⟨hvisible, hleft, hcross⟩ := List.pairwise_append.mp hdesc
    refine ⟨key last, hnext, ?_, ?_, hitems ▸ hne, ?_⟩
    · rintro a rfl
      simpa [isBelow] using (mem_rest.mp hlastmem).2
    · intro r hr
      rw [hitems, hlast] at hr
      rcases List.mem_append.mp hr with hr | hr
      · exact le_of_lt ((List.pairwise_append.mp hvisible).2.2 r hr last (by simp))
      · rw [List.mem_singleton.mp hr]
    · rw [hitems, hlast]
      refine hsplit.trans (congrArg _ (Descending.ext hleft (rest_descending _ hkey) fun r => ?_))
      constructor
      · intro hr
        have hmem : r ∈ rest key after rows := List.mem_of_mem_drop hr
        refine mem_rest.mpr ⟨(mem_rest.mp hmem).1, ?_⟩
        simpa [isBelow] using hcross last (by simp) r hr
      · intro hr
        obtain ⟨hr, hlt⟩ := mem_rest.mp hr
        have hlt : key r < key last := by simpa [isBelow] using hlt
        have hmem : r ∈ rest key after rows := by
          refine mem_rest.mpr ⟨hr, ?_⟩
          cases after with
          | none => rfl
          | some a =>
            have hla : key last < a := by simpa [isBelow] using (mem_rest.mp hlastmem).2
            simpa [isBelow] using hlt.trans hla
        rw [hsplit] at hmem
        rcases List.mem_append.mp hmem with hmem | hmem
        · -- Every visible row is at or above the last one.
          rcases List.mem_append.mp hmem with hmem | hmem
          · exact absurd ((List.pairwise_append.mp hvisible).2.2 r hmem last (by simp))
              (lt_asymm hlt)
          · rw [List.mem_singleton.mp hmem] at hlt
            exact absurd hlt (lt_irrefl _)
        · exact hmem
  · left
    have hall : (rest key after rows).take (limit + 1) = rest key after rows :=
      List.take_of_length_le (by omega)
    refine ⟨?_, by rw [hitems, List.take_of_length_le hlen]⟩
    simp only [slice, hall, if_neg (Nat.not_lt.mpr hlen)]

/-! ## Whole traversals -/

section Traversal

variable {tables pages : List (List α)} {next : Option κ}

theorem slice_sublist : (slice key limit after rows).items.Sublist (rest key after rows) := by
  simp only [slice, List.take_take]
  exact List.take_sublist _ _

theorem flatten_concat (pages : List (List α)) (page : List α) :
    (pages ++ [page]).flatten = pages.flatten ++ page := by
  rw [List.flatten_append, List.flatten_singleton]

/-- Every row that is returned was there when its page was read. -/
theorem Traversal.subset (ht : Traversal key limit tables pages next) :
    ∀ r ∈ pages.flatten, ∃ rows ∈ tables, r ∈ rows := by
  induction ht with
  | first =>
    intro r hr
    rw [List.flatten_singleton] at hr
    exact ⟨_, List.mem_singleton_self _, (mem_rest.mp (slice_sublist.subset hr)).1⟩
  | more h ih =>
    intro r hr
    rw [flatten_concat, List.mem_append] at hr
    rcases hr with hr | hr
    · obtain ⟨rows, hrows, hr⟩ := ih r hr
      exact ⟨rows, List.mem_append_left _ hrows, hr⟩
    · exact ⟨_, List.mem_append_right _ (List.mem_singleton_self _),
        (mem_rest.mp (slice_sublist.subset hr)).1⟩

/-- Keys strictly descend over all pages, and the next page starts at or below
them. -/
theorem Traversal.descending (hlimit : 1 ≤ limit) (ht : Traversal key limit tables pages next)
    (hkeys : ∀ rows ∈ tables, (rows.map key).Nodup) :
    Descending key pages.flatten ∧ ∀ k, next = some k → ∀ r ∈ pages.flatten, k ≤ key r := by
  induction ht with
  | @first rows =>
    have hkey := hkeys rows (List.mem_singleton_self _)
    rw [List.flatten_singleton]
    refine ⟨(rest_descending none hkey).sublist slice_sublist, fun k hk => ?_⟩
    rcases slice_cases none hlimit hkey with ⟨hnone, -⟩ | ⟨k', hk', -, hlow, -⟩
    · cases hk.symm.trans hnone
    · obtain rfl := Option.some.inj (hk.symm.trans hk')
      exact hlow
  | @more tables pages k rows h ih =>
    obtain ⟨hdesc, hlow⟩ := ih fun t ht => hkeys t (List.mem_append_left _ ht)
    have hkey := hkeys rows (List.mem_append_right _ (List.mem_singleton_self _))
    have hbelow : ∀ r ∈ (slice key limit (some k) rows).items, key r < k := fun r hr => by
      simpa [isBelow] using (mem_rest.mp (slice_sublist.subset hr)).2
    rw [flatten_concat]
    refine ⟨List.pairwise_append.mpr ⟨hdesc, (rest_descending _ hkey).sublist slice_sublist, ?_⟩, ?_⟩
    · intro r hr q hq
      exact lt_of_lt_of_le (hbelow q hq) (hlow k rfl r hr)
    · intro k' hk' r hr
      rcases slice_cases (some k) hlimit hkey with ⟨hnone, -⟩ | ⟨k'', hk'', hafter, hlow', -⟩
      · cases hk'.symm.trans hnone
      obtain rfl := Option.some.inj (hk'.symm.trans hk'')
      rcases List.mem_append.mp hr with hr | hr
      · exact le_of_lt (lt_of_lt_of_le (hafter k rfl) (hlow k rfl r hr))
      · exact hlow' r hr

/-- A key that is there at every page read is returned, or is still to come. -/
theorem Traversal.complete (hlimit : 1 ≤ limit) (ht : Traversal key limit tables pages next)
    (hkeys : ∀ rows ∈ tables, (rows.map key).Nodup) {k : κ}
    (hk : ∀ rows ∈ tables, ∃ r ∈ rows, key r = k) :
    k ∈ pages.flatten.map key ∨ ∃ k', next = some k' ∧ k < k' := by
  -- A row that is left is on the page or below its last key.
  have hpage : ∀ {after : Option κ} {rows : List α}, (rows.map key).Nodup →
      ∀ r ∈ rest key after rows, key r ∈ (slice key limit after rows).items.map key ∨
        ∃ k', (slice key limit after rows).next = some k' ∧ key r < k' := by
    intro after rows hkey r hr
    rcases slice_cases after hlimit hkey with ⟨-, hitems⟩ | ⟨k', hk', -, -, -, hsplit⟩
    · exact .inl (hitems ▸ List.mem_map_of_mem hr)
    · rw [hsplit] at hr
      rcases List.mem_append.mp hr with hr | hr
      · exact .inl (List.mem_map_of_mem hr)
      · exact .inr ⟨k', hk', by simpa [isBelow] using (mem_rest.mp hr).2⟩
  induction ht with
  | @first rows =>
    obtain ⟨r, hr, rfl⟩ := hk rows (List.mem_singleton_self _)
    rw [List.flatten_singleton]
    exact hpage (hkeys rows (List.mem_singleton_self _)) r (mem_rest.mpr ⟨hr, rfl⟩)
  | @more tables pages k' rows h ih =>
    rw [flatten_concat, List.map_append, List.mem_append]
    rcases ih (fun t ht => hkeys t (List.mem_append_left _ ht))
      (fun t ht => hk t (List.mem_append_left _ ht)) with hdone | ⟨k'', hk'', hlt⟩
    · exact .inl (.inl hdone)
    · obtain rfl := Option.some.inj hk''
      have hlast : rows ∈ tables ++ [rows] := List.mem_append_right _ (List.mem_singleton_self _)
      obtain ⟨r, hr, rfl⟩ := hk rows hlast
      have hleft : r ∈ rest key (some k') rows := mem_rest.mpr ⟨hr, by simpa [isBelow] using hlt⟩
      rcases hpage (hkeys rows hlast) r hleft with hitem | hlater
      · exact .inl (.inr hitem)
      · exact .inr hlater

/-- What a table that does not change still holds for a traversal. -/
def left (key : α → κ) (next : Option κ) (rows : List α) : List α :=
  match next with
  | none => []
  | some k => rest key (some k) rows

theorem rest_eq_slice (after : Option κ) (hlimit : 1 ≤ limit) (hkey : (rows.map key).Nodup) :
    rest key after rows = (slice key limit after rows).items ++
      left key (slice key limit after rows).next rows := by
  rcases slice_cases after hlimit hkey with ⟨hnone, hitems⟩ | ⟨k, hk, -, -, -, hsplit⟩
  · rw [hnone, hitems, left, List.append_nil]
  · rw [hk]
    exact hsplit

/-- A page that another follows makes what is left shorter. -/
theorem left_length_lt (after : Option κ) (hlimit : 1 ≤ limit) (hkey : (rows.map key).Nodup) {k : κ}
    (hk : (slice key limit after rows).next = some k) :
    (rest key (some k) rows).length < (rest key after rows).length := by
  rcases slice_cases after hlimit hkey with ⟨hnone, -⟩ | ⟨k', hk', -, -, hne, hsplit⟩
  · cases hk.symm.trans hnone
  · obtain rfl := Option.some.inj (hk.symm.trans hk')
    have hpos := List.length_pos_iff.mpr hne
    rw [hsplit, List.length_append]
    omega

/-- The pages of a table that does not change, and what is left, are all of it. -/
theorem Traversal.static (hlimit : 1 ≤ limit) (ht : Traversal key limit tables pages next)
    (hkey : (rows.map key).Nodup) (hsame : ∀ t ∈ tables, t = rows) :
    pages.flatten ++ left key next rows = rest key none rows := by
  induction ht with
  | @first rows' =>
    obtain rfl := hsame rows' (List.mem_singleton_self _)
    rw [List.flatten_singleton, ← rest_eq_slice none hlimit hkey]
  | @more tables pages k rows' h ih =>
    obtain rfl := hsame rows' (List.mem_append_right _ (List.mem_singleton_self _))
    rw [flatten_concat, List.append_assoc, ← rest_eq_slice (some k) hlimit hkey]
    exact ih fun t ht => hsame t (List.mem_append_left _ ht)

end Traversal

end Keyset
