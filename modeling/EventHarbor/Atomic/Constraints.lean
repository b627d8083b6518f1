import EventHarbor.Atomic.Lease

/-!
# Constraints the invariant rules out

Unique indexes that a delivery or an attempt cannot violate by moving, and the
checks that a storable result passes.
-/

namespace EventHarbor

open Relational DeliveryWorker

variable {lib : Lib} {db : Db} {d d' : Delivery} {a a' : DeliveryAttempt}

theorem violation_eq_none {cs : List (Bool × Constraint)} :
    violation cs = none ↔ ∀ c ∈ cs, c.1 = true := by
  simp [violation, List.find?_eq_none]

theorem violation_append {cs cs' : List (Bool × Constraint)} :
    violation (cs ++ cs') = none ↔ violation cs = none ∧ violation cs' = none := by
  simp only [violation_eq_none, List.mem_append]
  exact ⟨fun h => ⟨fun c hc => h c (.inl hc), fun c hc => h c (.inr hc)⟩,
    fun h c hc => hc.elim (h.1 c) (h.2 c)⟩

/-- A successor follows its source in the chain. -/
theorem Inv.source_of (h : Inv lib db) (hd : d ∈ db.deliveries) {i : UUID}
    (hi : d.replayedFromDeliveryId = some i) : ∃ p ∈ db.deliveries, p.id = i ∧
      p.eventId = d.eventId ∧ d.replayGeneration = p.replayGeneration + 1 := by
  rcases (h.chain_of hd).provenance d (Db.mem_deliveriesAt.mpr ⟨hd, rfl⟩) with
    ⟨-, hn, -⟩ | ⟨p, hp, hg, hf, -⟩
  · rw [hi] at hn
    cases hn
  · obtain ⟨hp, hpe⟩ := Db.mem_deliveriesAt.mp hp
    rw [hi, Option.some.injEq] at hf
    exact ⟨p, hp, hf.symm, hpe, hg⟩

/-- A delivery has at most one successor. -/
theorem Inv.successor_unique (h : Inv lib db) {e : Delivery} (hd : d ∈ db.deliveries)
    (he : e ∈ db.deliveries) {i : UUID} (hdi : d.replayedFromDeliveryId = some i)
    (hei : e.replayedFromDeliveryId = some i) : d = e := by
  obtain ⟨p, hp, hpi, hpe, hpg⟩ := h.source_of hd hdi
  obtain ⟨q, hq, hqi, hqe, hqg⟩ := h.source_of he hei
  have hpq : p = q := Table.eq_of_key hp hq (hpi.trans hqi.symm)
  subst hpq
  refine (h.chain_of hd).eq_of_generation (Db.mem_deliveriesAt.mpr ⟨hd, rfl⟩)
    (Db.mem_deliveriesAt.mpr ⟨he, hqe.symm.trans hpe⟩) (hpg.trans hqg.symm)

/-- An event has at most one active delivery. -/
theorem Inv.active_unique (h : Inv lib db) {e : Delivery} (hd : d ∈ db.deliveries)
    (he : e ∈ db.deliveries) (heq : e.eventId = d.eventId) (hda : d.status.active = true)
    (hea : e.status.active = true) : e = d := by
  have hc := h.chain_of hd
  have hdm : d ∈ db.deliveriesAt d.eventId := Db.mem_deliveriesAt.mpr ⟨hd, rfl⟩
  have hem : e ∈ db.deliveriesAt d.eventId := Db.mem_deliveriesAt.mpr ⟨he, heq⟩
  rcases Nat.lt_trichotomy e.replayGeneration d.replayGeneration with hlt | hg | hlt
  · rw [hc.dead_of_lt hem hdm hlt] at hea
    cases hea
  · exact hc.eq_of_generation hem hdm hg
  · rw [hc.dead_of_lt hdm hem hlt] at hda
    cases hda

theorem Inv.deliveryUnique (h : Inv lib db) (hd : d ∈ db.deliveries) (hs : SameDelivery d d')
    (hactive : d.status.active = true) : violation (db.deliveryUnique d') = none := by
  have hno : ∀ same : Delivery → Bool, (∀ e ∈ db.deliveries, same e = true → e = d) →
      db.noOther d' same = true := by
    intro same hsame
    simp only [Db.noOther, List.all_eq_true, Bool.or_eq_true, decide_eq_true_eq,
      Bool.not_eq_true']
    intro e he
    by_cases hse : same e = true
    · exact .inl (by rw [hsame e he hse, hs.id])
    · exact .inr (by simpa using hse)
  simp only [violation_eq_none, Db.deliveryUnique, List.mem_cons, List.not_mem_nil, or_false,
    forall_eq_or_imp, forall_eq, Bool.or_eq_true]
  refine ⟨hno _ ?_, ?_, .inr (hno _ ?_)⟩
  · intro e he hsame
    simp only [Bool.and_eq_true, decide_eq_true_eq] at hsame
    obtain ⟨⟨hev, -⟩, hg⟩ := hsame
    exact (h.chain_of hd).eq_of_generation
      (Db.mem_deliveriesAt.mpr ⟨he, hev.trans hs.eventId⟩) (Db.mem_deliveriesAt.mpr ⟨hd, rfl⟩)
      (hg.trans hs.replayGeneration)
  · rw [hs.replayedFrom, hs.replayKey]
    cases hf : d.replayedFromDeliveryId with
    | none => exact .inl rfl
    | some i =>
      refine .inr (hno _ ?_)
      intro e he hsame
      simp only [Bool.and_eq_true, decide_eq_true_eq] at hsame
      exact h.successor_unique he hd hsame.1 hf
  · intro e he hsame
    simp only [Bool.and_eq_true, decide_eq_true_eq] at hsame
    exact h.active_unique hd he (hsame.1.1.trans hs.eventId) hactive hsame.2

theorem Inv.attemptUnique (h : Inv lib db) (ha : a ∈ db.attempts) (hs : SameAttempt a a')
    (hp : a'.status ≠ .inProgress) : violation (db.attemptUnique a') = none := by
  obtain ⟨d, hd, hid⟩ := h.delivery a ha
  have hl := h.ledger d hd
  have hmem : a ∈ db.attemptsAt d.id := Db.mem_attemptsAt.mpr ⟨ha, hid.symm⟩
  have hno : ∀ same : DeliveryAttempt → Bool,
      (∀ b ∈ db.attemptsAt d.id, same b = true → b = a) →
      (db.attempts.rows.all fun b =>
        b.id = a'.id || !(b.deliveryId = a'.deliveryId && same b)) = true := by
    intro same hsame
    simp only [List.all_eq_true, Bool.or_eq_true, decide_eq_true_eq, Bool.not_eq_true',
      Bool.and_eq_false_iff, decide_eq_false_iff_not]
    intro b hb
    by_cases hbd : b.deliveryId = a'.deliveryId
    · by_cases hsb : same b = true
      · refine .inl ?_
        have hbm : b ∈ db.attemptsAt d.id :=
          Db.mem_attemptsAt.mpr ⟨hb, by rw [hbd, hs.deliveryId, hid]⟩
        rw [hsame b hbm hsb, hs.id]
      · exact .inr (.inr (by simpa using hsb))
    · exact .inr (.inl hbd)
  simp only [violation_eq_none, Db.attemptUnique, List.mem_cons, List.not_mem_nil, or_false,
    forall_eq_or_imp, forall_eq, Bool.or_eq_true]
  refine ⟨hno _ ?_, hno _ ?_, .inl (by simpa using hp)⟩
  · intro b hb hsame
    exact hl.eq_of_number hb hmem (by simpa [hs.attemptNumber] using hsame)
  · intro b hb hsame
    exact hl.eq_of_token hb hmem (by simpa [hs.leaseToken] using hsame)

/-! ## Storing a result -/

theorem toNat_ofNat {n : ℕ} (h : n.isValidChar) : (Char.ofNat n).toNat = n := by
  rw [Char.ofNat, dif_pos h]
  rfl

theorem toNat_ofNat_invalid {n : ℕ} (h : ¬ n.isValidChar) : (Char.ofNat n).toNat = 0 := by
  rw [Char.ofNat, dif_neg h]
  rfl

theorem toNat_ofNat_eq_zero {c : CodePoint} :
    (Char.ofNat c.val).toNat = 0 ↔ c.val = 0 ∨ CodePoint.isSurrogate c = true := by
  have hbound := c.isLt
  simp only [CodePoint.isSurrogate, Bool.and_eq_true, decide_eq_true_eq]
  by_cases h : c.val.isValidChar
  · rw [toNat_ofNat h]
    simp only [Nat.isValidChar] at h
    omega
  · rw [toNat_ofNat_invalid h]
    simp only [Nat.isValidChar] at h
    exact iff_of_true rfl (by omega)

/-- The column takes what the driver can send. -/
theorem isText_toText {s : PyStr} : isText s.toText = true ↔
    ∀ c ∈ s, c.val ≠ 0 ∧ CodePoint.isSurrogate c = false := by
  simp only [isText, PyStr.toText, String.toList_ofList, List.all_map, List.all_eq_true,
    Function.comp_apply, decide_eq_true_eq, ne_eq, toNat_ofNat_eq_zero, not_or, Bool.not_eq_true]

theorem bindText_ok {text : Option PyStr} (h : nullOr isText (text.map PyStr.toText) = true) :
    bindText text = .ok () := by
  cases text with
  | none => rfl
  | some s =>
    refine if_neg fun hany => ?_
    obtain ⟨c, hc, hsurrogate⟩ := List.any_eq_true.mp hany
    exact absurd hsurrogate (by simp [(isText_toText.mp h c hc).2])

theorem bindText_error {text : Option PyStr} {e : Error} (h : bindText text = .error e) :
    ∃ c, e = .database c := by
  cases text with
  | none => cases h
  | some s =>
    simp only [bindText] at h
    split at h <;> cases h
    exact ⟨_, rfl⟩

/-- The evidence of a result fits the columns it is stored in. -/
def AttemptResult.storable (r : AttemptResult) : Bool :=
  nullOr (isVarchar 120) r.errorType && nullOr isText r.errorType &&
  nullOr isText (r.errorMessage.map PyStr.toText) && nullOr isText r.responseBodyExcerpt &&
  nullOr isText ((lastError r).map PyStr.toText) &&
  nullOr isInteger r.httpStatusCode && isInteger r.durationMs &&
  isBigInteger r.requestTimestamp && 0 ≤ r.durationMs && 0 ≤ r.requestTimestamp &&
  nullOr (fun n => 100 ≤ n && n ≤ 599) r.httpStatusCode && r.startedAt ≤ r.finishedAt

theorem AttemptResult.storable_bind {r : AttemptResult} (h : r.storable = true) :
    bindText (lastError r) = .ok () ∧ bindText r.errorMessage = .ok () := by
  simp only [AttemptResult.storable, Bool.and_eq_true] at h
  exact ⟨bindText_ok h.1.1.1.1.1.1.1.2, bindText_ok h.1.1.1.1.1.1.1.1.1.2⟩

theorem settled_checks {result : AttemptResult} (hr : result.storable = true)
    (hd : violation d.checks = none) {status : DeliveryStatus} (hs : status ≠ .inProgress)
    (at' : Option Time) (now : Time) :
    violation (settled d result status at' now).checks = none := by
  simp only [violation_eq_none, Delivery.checks, List.mem_cons, List.not_mem_nil, or_false,
    forall_eq_or_imp, forall_eq, Bool.and_eq_true] at hd ⊢
  simp only [AttemptResult.storable, Bool.and_eq_true] at hr
  obtain ⟨⟨hv, -⟩, ⟨⟨ht, -⟩, -⟩, hm, hk, -, -, -⟩ := hd
  refine ⟨⟨hv, rfl⟩, ⟨⟨ht, rfl⟩, ?_⟩, hm, hk, ⟨rfl, rfl⟩, ?_, ?_⟩
  · simp only [settled]
    tauto
  · simp [settled, hs]
  · by_cases h : status = .delivered <;> simp [settled, h]

theorem completed_checks {result : AttemptResult} (hr : result.storable = true)
    (hn : 1 ≤ a.attemptNumber) (at' : Option Time) (now : Time) :
    violation (completed a result at' now).checks = none := by
  simp only [AttemptResult.storable, Bool.and_eq_true, decide_eq_true_eq] at hr
  obtain ⟨⟨⟨⟨⟨⟨⟨⟨⟨⟨⟨h1, h2⟩, h3⟩, h4⟩, -⟩, h6⟩, h7⟩, h8⟩, h9⟩, h10⟩, h11⟩, h12⟩ := hr
  simp only [violation_eq_none, DeliveryAttempt.checks, List.mem_cons, List.not_mem_nil, or_false,
    forall_eq_or_imp, forall_eq, Bool.and_eq_true, decide_eq_true_eq]
  refine ⟨h1, ⟨⟨h2, h3⟩, h4⟩, ⟨⟨h6, h7⟩, h8⟩, hn, ?_, ?_, ?_, ?_, rfl⟩
  · simpa [completed, nullOr] using h9
  · simpa [completed, nullOr] using h10
  · simpa [completed] using h11
  · simpa [DeliveryAttempt.timestampsOrdered, completed] using h12

end EventHarbor
