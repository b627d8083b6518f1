import EventHarbor.Refinement.Contract

/-!
# Rules for the repositories' statements
-/

namespace EventHarbor

open Relational Txn Contract DeliveryWorker

theorem subset_two {α : Type} (a b : α) (l : List α) : l ⊆ a :: b :: l :=
  fun _ hi => List.mem_cons_of_mem a (List.mem_cons_of_mem b hi)

theorem subset_three {α : Type} (a b c : α) (l : List α) : l ⊆ a :: b :: c :: l :=
  fun _ hi => List.mem_cons_of_mem a (subset_two b c l hi)

section Rules

variable {lib : Lib} {cleanup : Prop} {τ : Type} {F : Error → Db → Prop}
  {R : τ → List UUID → List Write → List Lock → Db → Prop}
  {g : List UUID} {ws : List Write} {L : List Lock} {db : Db}

theorem safe_scalarOneOrNone {α : Type} {rows : Db → List α} {f : Option α → Tx τ}
    (h : ∀ db', (contract lib cleanup).Relies g L db db' →
      (rows (view ws db') = [] → (contract lib cleanup).Safe F R (f none) g ws L db') ∧
      (∀ r, rows (view ws db') = [r] →
        (contract lib cleanup).Safe F R (f (some r)) g ws L db') ∧
      (∀ r r' rs, rows (view ws db') = r :: r' :: rs →
        ∀ db'', (contract lib cleanup).Relies g L db' db'' → F .multipleResultsFound db'')) :
    (contract lib cleanup).Safe F R (scalarOneOrNone rows >>= f) g ws L db := by
  refine Safe.bind (Safe.query ?_)
  intro db' hr a ha
  obtain ⟨h0, h1, h2⟩ := h db' hr
  match a with
  | [] => exact fun db'' hr' => (h0 ha).relies hr'
  | [r] => exact fun db'' hr' => (h1 r ha).relies hr'
  | r :: r' :: rs => exact fun db'' hr' => h2 r r' rs ha db'' hr'

theorem safe_selectForUpdate {α : Type} {key : α → UUID} {rowLock : UUID → Lock}
    {rows : Db → List α} {f : Option α → Tx τ}
    (h : ∀ db₁, (contract lib cleanup).Relies g L db db₁ →
      (rows (view ws db₁) = [] → (contract lib cleanup).Safe F R (f none) g ws L db₁) ∧
      (∀ r, rows (view ws db₁) = [r] → ∀ db₂, (contract lib cleanup).Relies g L db₁ db₂ →
        ∀ o, ((rows (view ws db₂)).find? fun r' => key r' = key r) = o →
          (contract lib cleanup).Safe F R (f o) g ws (rowLock (key r) :: L) db₂) ∧
      (∀ r r' rs, rows (view ws db₁) = r :: r' :: rs →
        ∀ db₂, (contract lib cleanup).Relies g L db₁ db₂ → F .multipleResultsFound db₂)) :
    (contract lib cleanup).Safe F R (selectForUpdate key rowLock rows >>= f) g ws L db := by
  refine Safe.bind (Safe.query ?_)
  intro db₁ hr a ha
  obtain ⟨h0, h1, h2⟩ := h db₁ hr
  match a with
  | [] => exact fun db' hr' => (h0 ha).relies hr'
  | [r] =>
    intro db₂ hr₂ db₃ hr₃
    have hr₃' := hr₂.trans (hr₃.subset (List.subset_cons_self _ L))
    exact fun db' hr' => (h1 r ha db₃ hr₃' _ rfl).relies hr'
  | r :: r' :: rs => exact fun db' hr' => h2 r r' rs ha db' hr'

theorem safe_foreignKey {rowLock : Lock} {present : Db → Bool} {c : Constraint} {f : Unit → Tx τ}
    (h : ∀ db', (contract lib cleanup).Relies g L db db' →
      (present (view ws db') = true →
        (contract lib cleanup).Safe F R (f ()) g ws (rowLock :: L) db') ∧
      (present (view ws db') = false →
        ∀ db'', (contract lib cleanup).Relies g L db' db'' → F (.database c) db'')) :
    (contract lib cleanup).Safe F R (foreignKey rowLock present c >>= f) g ws L db := by
  refine Safe.bind (Safe.acquire ?_)
  intro db₁ hr₁
  refine Safe.query ?_
  intro db₂ hr₂ b hb
  obtain ⟨ht, hf⟩ := h db₂ (hr₁.trans (hr₂.subset (List.subset_cons_self _ L)))
  cases b with
  | true => exact fun db' hr' => (ht hb).relies hr'
  | false => exact fun db' hr' => hf hb db' (hr'.subset (List.subset_cons_self _ L))

theorem safe_updateDelivery {d : Delivery} {f : Unit → Tx τ}
    (h : ∀ db', (contract lib cleanup).Relies g L db db' →
      (∀ c, violation (Write.checks (.updateDelivery d) (view ws db')) = some c →
        ∀ db'', (contract lib cleanup).Relies g L db' db'' → F (.database c) db'') ∧
      (violation (Write.checks (.updateDelivery d) (view ws db')) = none →
        (contract lib cleanup).Safe F R (f ()) g (ws ++ [.updateDelivery d])
          (Lock.delivery d.id .noKeyUpdate :: L) db')) :
    (contract lib cleanup).Safe F R (updateDelivery d >>= f) g ws L db := by
  intro db₁ hr₁ db₂ hr₂
  obtain ⟨herr, hok⟩ := h db₂ (hr₁.trans (hr₂.subset (List.subset_cons_self _ L)))
  refine ⟨fun e he db' hr' => ?_, fun hn => ⟨trivial, hok (check_eq_none.mp hn)⟩⟩
  obtain ⟨c, hc, rfl⟩ := Option.map_eq_some_iff.mp he
  exact herr c hc db' (hr'.subset (List.subset_cons_self _ L))

theorem safe_updateAttempt {a : DeliveryAttempt} {f : Unit → Tx τ}
    (h : ∀ db', (contract lib cleanup).Relies g L db db' →
      (∀ c, violation (Write.checks (.updateAttempt a) (view ws db')) = some c →
        ∀ db'', (contract lib cleanup).Relies g L db' db'' → F (.database c) db'') ∧
      (violation (Write.checks (.updateAttempt a) (view ws db')) = none →
        (contract lib cleanup).Safe F R (f ()) g (ws ++ [.updateAttempt a])
          (Lock.attempt a.id .noKeyUpdate :: L) db')) :
    (contract lib cleanup).Safe F R (updateAttempt a >>= f) g ws L db := by
  intro db₁ hr₁ db₂ hr₂
  obtain ⟨herr, hok⟩ := h db₂ (hr₁.trans (hr₂.subset (List.subset_cons_self _ L)))
  refine ⟨fun e he db' hr' => ?_, fun hn => ⟨trivial, hok (check_eq_none.mp hn)⟩⟩
  obtain ⟨c, hc, rfl⟩ := Option.map_eq_some_iff.mp he
  exact herr c hc db' (hr'.subset (List.subset_cons_self _ L))

/-- Inserting a delivery, with its foreign keys. -/
theorem safe_create {d : Delivery} {f : Unit → Tx τ} (hF : ∀ c db', F (.database c) db')
    (h : ∀ db₁, (contract lib cleanup).Relies g L db db₁ →
      violation (Write.checks (.insertDelivery d) (view ws db₁)) = none →
      ∀ db₂, (contract lib cleanup).Relies g (Write.keys (.insertDelivery d) ++ L) db₁ db₂ →
      ∀ L', Write.keys (.insertDelivery d) ++ L ⊆ L' → Lock.event d.eventId .keyShare ∈ L' →
        (contract lib cleanup).Safe F R (f ()) g (ws ++ [.insertDelivery d]) L' db₂) :
    (contract lib cleanup).Safe F R (DeliveryRepository.create d >>= f) g ws L db := by
  refine Safe.bind (Safe.exec fun db₁ hr₁ => ⟨fun e he db' _ => ?_, fun hok => ⟨trivial, ?_⟩⟩)
  · obtain ⟨c, rfl⟩ := check_eq_some he
    exact hF c db'
  refine safe_foreignKey fun db₂ hr₂ => ⟨fun _ => ?_, fun _ db' _ => hF _ db'⟩
  refine safe_foreignKey fun db₃ hr₃ => ⟨fun _ => ?_, fun _ db' _ => hF _ db'⟩
  have hr₃' := hr₂.trans (hr₃.subset (List.subset_cons_self _ _))
  have next := h db₁ hr₁ (check_eq_none.mp hok)
  cases d.replayedFromDeliveryId with
  | none =>
    intro db₄ hr₄
    exact next db₄ (hr₃'.trans (hr₄.subset (subset_two _ _ _))) _ (subset_two _ _ _) (by simp)
  | some source =>
    refine Safe.acquire fun db₄ hr₄ => Safe.query fun db₅ hr₅ present hp => ?_
    cases present with
    | false => exact fun db' _ => hF _ db'
    | true =>
      intro db₆ hr₆
      have hr₅' := (hr₃'.trans (hr₄.subset (subset_two _ _ _))).trans
        (hr₅.subset (subset_three _ _ _ _))
      exact next db₆ (hr₅'.trans (hr₆.subset (subset_three _ _ _ _))) _ (subset_three _ _ _ _)
        (by simp)

end Rules

end EventHarbor
