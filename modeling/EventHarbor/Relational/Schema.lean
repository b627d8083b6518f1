import EventHarbor.Relational.Table

/-!
# Schema changes

What the statements that change a schema do to the rows of a keyed table:
every row is rewritten, rows are added or the change is refused, a nullable
column becomes a required one, and a unique constraint compares the rows where
its columns are not null.
-/

namespace Relational

namespace Table

variable {κ α β : Type} {key : α → κ} {key' : β → κ}

/-- Every row rewritten under its key. -/
def map (t : Table key) (f : α → β) (h : ∀ a, key' (f a) = key a) : Table key' :=
  ⟨t.rows.map f, by
    rw [List.map_map, show key' ∘ f = key from funext h]
    exact t.nodup⟩

theorem mem_map {f : α → β} {h : ∀ a, key' (f a) = key a} {t : Table key} {b : β} :
    b ∈ t.map f h ↔ ∃ a ∈ t, f a = b := List.mem_map

/-- A rewriting undone. -/
theorem map_map_self {f : α → β} {g : β → α} (t : Table key) (h : ∀ a, key' (f a) = key a)
    (h' : ∀ b, key (g b) = key' b) (hgf : ∀ a, g (f a) = a) : (t.map f h).map g h' = t := by
  obtain ⟨rows, hnodup⟩ := t
  have hid : g ∘ f = id := funext hgf
  simp only [map, List.map_map, hid, List.map_id]

theorem keys_mapM {f : α → Option β} (h : ∀ a b, f a = some b → key' b = key a) {as : List α}
    {bs : List β} (hbs : as.mapM f = some bs) : bs.map key' = as.map key := by
  induction as generalizing bs with
  | nil =>
    cases hbs
    rfl
  | cons a as ih =>
    rw [List.mapM_cons] at hbs
    obtain ⟨b, hb, hbs⟩ := Option.bind_eq_some_iff.mp hbs
    obtain ⟨bs', hbs', hcons⟩ := Option.bind_eq_some_iff.mp hbs
    cases hcons
    rw [List.map_cons, List.map_cons, ih hbs', h a b hb]

/-- Every row through a function that a null value escapes. -/
def traverse (t : Table key) (f : α → Option β) (h : ∀ a b, f a = some b → key' b = key a) :
    Option (Table key') :=
  match hbs : t.rows.mapM f with
  | none => none
  | some bs => some ⟨bs, by
      rw [keys_mapM h hbs]
      exact t.nodup⟩

theorem traverse_eq_some {f : α → Option β} {h : ∀ a b, f a = some b → key' b = key a}
    {t : Table key} {t' : Table key'} (ht : t.rows.mapM f = some t'.rows) :
    t.traverse f h = some t' := by
  unfold traverse
  split
  · rename_i hnone
    rw [hnone] at ht
    cases ht
  · rename_i bs hbs
    rw [hbs, Option.some.injEq] at ht
    cases t'
    simp_all

variable [DecidableEq κ]

/-- Rows added at the end, unless a key is taken. -/
def append (t : Table key) (as : List α) : Option (Table key) :=
  if h : ((t.rows ++ as).map key).Nodup then some ⟨t.rows ++ as, h⟩ else none

theorem append_eq_some {t t' : Table key} {as : List α} (h : t'.rows = t.rows ++ as) :
    t.append as = some t' := by
  have hnodup : ((t.rows ++ as).map key).Nodup := h ▸ t'.nodup
  rw [append, dif_pos hnodup]
  cases t'
  simp_all

end Table

section Null

variable {α β γ : Type} {f : α → Option β}

/-- Rows made without null values. -/
theorem mapM_map_eq {p : γ → α} {q : γ → β} {cs : List γ} (h : ∀ c ∈ cs, f (p c) = some (q c)) :
    (cs.map p).mapM f = some (cs.map q) := by
  induction cs with
  | nil => rfl
  | cons c cs ih =>
    rw [List.map_cons, List.mapM_cons, h c List.mem_cons_self,
      ih fun d hd => h d (List.mem_cons_of_mem c hd)]
    rfl

/-- A rewriting undone row by row. -/
theorem mapM_map_self {p : β → α} {bs : List β} (h : ∀ b ∈ bs, f (p b) = some b) :
    (bs.map p).mapM f = some bs := by
  rw [mapM_map_eq h, List.map_id']

end Null

/-- The rows whose unique columns are not null differ in them. -/
def Unique {α μ : Type} (k : α → Option μ) (rows : List α) : Prop := (rows.filterMap k).Nodup

instance {α μ : Type} [DecidableEq μ] (k : α → Option μ) (rows : List α) :
    Decidable (Unique k rows) :=
  inferInstanceAs (Decidable (rows.filterMap k).Nodup)

theorem unique_of_key {κ α μ : Type} {key : α → κ} {rows : List α} (hn : (rows.map key).Nodup)
    {k : α → Option μ} (h : ∀ a ∈ rows, ∀ b ∈ rows, ∀ x, k a = some x → k b = some x →
      key a = key b) : Unique k rows := by
  refine List.pairwise_filterMap.mpr ?_
  refine (List.pairwise_map.mp hn).imp_of_mem fun {a b} ha hb hne x hx y hy hxy => hne ?_
  exact h a ha b hb x hx (hxy ▸ hy)

end Relational
