import EventHarbor.Atomic.Frame

/-!
# Generation chains

The deliveries of one event, oldest first. The chain starts with the initial
delivery; each replay adds one generation after a dead-lettered one.
-/

namespace EventHarbor

open Relational

/-- The generations of an event. -/
inductive Chain : List Delivery → Prop
  | initial {d : Delivery} (hg : d.replayGeneration = 0) (hf : d.replayedFromDeliveryId = none)
      (hk : d.replayIdempotencyKey = none) : Chain [d]
  | replay {ds : List Delivery} {d d' : Delivery} (h : Chain (ds ++ [d]))
      (hs : d.status = .deadLettered) (hg : d'.replayGeneration = d.replayGeneration + 1)
      (hf : d'.replayedFromDeliveryId = some d.id) (hk : d'.replayIdempotencyKey.isSome)
      (he : d'.endpointId = d.endpointId) : Chain ((ds ++ [d]) ++ [d'])

namespace Chain

variable {ds : List Delivery} {d d' : Delivery}

theorem generations (h : Chain ds) : ds.map (·.replayGeneration) = List.range ds.length := by
  induction h with
  | initial hg hf hk => simp [hg]
  | @replay ds d d' h hs hg hf hk he ih =>
    -- The last generation of the shorter chain is its index.
    have hlast : d.replayGeneration = ds.length := by
      have := congrArg List.getLast? ih
      simpa [List.range_succ] using this
    rw [List.map_append, ih, List.length_append, List.length_singleton, List.range_succ]
    simp [hg, hlast, List.range_succ]

theorem last_generation {init : List Delivery} (h : Chain (init ++ [d])) :
    d.replayGeneration = init.length := by
  have := congrArg List.getLast? h.generations
  simpa [List.range_succ] using this

theorem generation_lt (h : Chain ds) {x : Delivery} (hx : x ∈ ds) :
    x.replayGeneration < ds.length := by
  have : x.replayGeneration ∈ List.range ds.length := h.generations ▸ List.mem_map_of_mem hx
  exact List.mem_range.mp this

theorem ne_nil (h : Chain ds) : ds ≠ [] := by
  cases h <;> simp

theorem exists_initial (h : Chain ds) : ∃ d ∈ ds, d.replayGeneration = 0 := by
  have hlen : 0 < ds.length := List.length_pos_iff.mpr h.ne_nil
  have : 0 ∈ ds.map (·.replayGeneration) := by
    rw [h.generations]
    exact List.mem_range.mpr hlen
  obtain ⟨d, hd, hg⟩ := List.mem_map.mp this
  exact ⟨d, hd, hg⟩

/-- A chain has a newest generation; all before it are dead-lettered. -/
theorem exists_last (h : Chain ds) : ∃ init d, ds = init ++ [d] ∧
    ∀ x ∈ init, x.status = .deadLettered := by
  induction h with
  | @initial d hg hf hk => exact ⟨[], d, rfl, by simp⟩
  | @replay ds d d' h hs hg hf hk he ih =>
    obtain ⟨init, e, heq, hdead⟩ := ih
    obtain ⟨rfl, hde⟩ := List.append_inj' heq rfl
    refine ⟨_, d', rfl, ?_⟩
    intro x hx
    rcases List.mem_append.mp hx with hx | hx
    · exact hdead x hx
    · rw [List.mem_singleton.mp hx]
      exact hs

theorem endpoint_eq (h : Chain ds) : ∀ x ∈ ds, ∀ y ∈ ds, x.endpointId = y.endpointId := by
  induction h with
  | @initial d hg hf hk =>
    intro x hx y hy
    rw [List.mem_singleton.mp hx, List.mem_singleton.mp hy]
  | @replay ds d d' h hs hg hf hk he ih =>
    have hnew : ∀ x ∈ ds ++ [d], x.endpointId = d'.endpointId := fun x hx =>
      (ih x hx d (by simp)).trans he.symm
    intro x hx y hy
    rcases List.mem_append.mp hx with hx | hx <;> rcases List.mem_append.mp hy with hy | hy
    · exact ih x hx y hy
    · rw [List.mem_singleton.mp hy]
      exact hnew x hx
    · rw [List.mem_singleton.mp hx]
      exact (hnew y hy).symm
    · rw [List.mem_singleton.mp hx, List.mem_singleton.mp hy]

theorem eq_of_generation (h : Chain ds) {x y : Delivery} (hx : x ∈ ds) (hy : y ∈ ds)
    (hg : x.replayGeneration = y.replayGeneration) : x = y := by
  refine List.inj_on_of_nodup_map ?_ hx hy hg
  rw [h.generations]
  exact List.nodup_range

/-- Where a generation comes from. -/
theorem provenance (h : Chain ds) : ∀ x ∈ ds,
    (x.replayGeneration = 0 ∧ x.replayedFromDeliveryId = none ∧ x.replayIdempotencyKey = none) ∨
    (∃ p ∈ ds, x.replayGeneration = p.replayGeneration + 1 ∧
      x.replayedFromDeliveryId = some p.id ∧ x.replayIdempotencyKey.isSome) := by
  induction h with
  | initial hg hf hk =>
    intro x hx
    rw [List.mem_singleton.mp hx]
    exact .inl ⟨hg, hf, hk⟩
  | @replay ds d d' h hs hg hf hk he ih =>
    intro x hx
    rcases List.mem_append.mp hx with hx | hx
    · rcases ih x hx with h0 | ⟨p, hp, h1⟩
      · exact .inl h0
      · exact .inr ⟨p, List.mem_append_left _ hp, h1⟩
    · rw [List.mem_singleton.mp hx]
      exact .inr ⟨d, by simp, hg, hf, hk⟩

/-- Every generation but the newest is dead-lettered. -/
theorem dead_of_lt (h : Chain ds) {x y : Delivery} (hx : x ∈ ds) (hy : y ∈ ds)
    (hlt : x.replayGeneration < y.replayGeneration) : x.status = .deadLettered := by
  obtain ⟨init, e, rfl, hdead⟩ := h.exists_last
  rcases List.mem_append.mp hx with hx' | hx'
  · exact hdead x hx'
  · -- Otherwise `x` is the newest and nothing comes after it.
    have hy := h.generation_lt hy
    rw [List.mem_singleton.mp hx', h.last_generation] at hlt
    simp only [List.length_append, List.length_singleton] at hy
    omega

theorem set_last {init : List Delivery} (h : Chain (init ++ [d])) (hsame : SameDelivery d d') :
    Chain (init ++ [d']) := by
  generalize hds : init ++ [d] = ds at h
  cases h with
  | @initial e hg hf hk =>
    obtain ⟨rfl, hde⟩ := List.append_inj' (show init ++ [d] = [] ++ [e] from hds) rfl
    cases hde
    exact .initial (hsame.replayGeneration.trans hg) (hsame.replayedFrom.trans hf)
      (hsame.replayKey.trans hk)
  | replay h hs hg hf hk he =>
    obtain ⟨rfl, hde⟩ := List.append_inj' hds rfl
    cases hde
    exact .replay h hs (hsame.replayGeneration.trans hg) (hsame.replayedFrom.trans hf)
      (hsame.replayKey ▸ hk) (hsame.endpointId.trans he)

/-- An active generation may move: it is the newest. -/
theorem overwrite (h : Chain ds) (hids : (ds.map Delivery.id).Nodup) (hd : d ∈ ds)
    (hactive : d.status.active = true) (hsame : SameDelivery d d') :
    Chain (ds.map (Table.overwrite Delivery.id d')) := by
  obtain ⟨init, e, rfl, hdead⟩ := h.exists_last
  have hde : d = e := by
    rcases List.mem_append.mp hd with hd | hd
    · rw [hdead d hd] at hactive
      cases hactive
    · exact List.mem_singleton.mp hd
  subst hde
  have hinit : init.map (Table.overwrite Delivery.id d') = init := by
    refine (List.map_congr_left fun x hx => Table.overwrite_of_ne ?_).trans (List.map_id _)
    rw [hsame.id]
    intro hid
    rw [List.map_append, List.nodup_append] at hids
    exact hids.2.2 _ (List.mem_map_of_mem hx) _ (by simp) hid
  rw [List.map_append, hinit, List.map_singleton, Table.overwrite_self hsame.id.symm]
  exact h.set_last hsame

/-- A replay of the newest generation extends the chain. -/
theorem extend (h : Chain ds) (hd : d ∈ ds) (hs : d.status = .deadLettered)
    (hmax : ∀ x ∈ ds, x.replayGeneration ≤ d.replayGeneration)
    (hg : d'.replayGeneration = d.replayGeneration + 1) (hf : d'.replayedFromDeliveryId = some d.id)
    (hk : d'.replayIdempotencyKey.isSome) (he : d'.endpointId = d.endpointId) :
    Chain (ds ++ [d']) := by
  obtain ⟨init, e, rfl, -⟩ := h.exists_last
  have hde : d = e := by
    refine h.eq_of_generation hd (by simp) (le_antisymm ?_ (hmax e (by simp)))
    have := h.generation_lt hd
    rw [h.last_generation]
    simpa [Nat.lt_succ_iff] using this
  subst hde
  exact .replay h hs hg hf hk he

end Chain

end EventHarbor
