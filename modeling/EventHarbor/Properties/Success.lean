import EventHarbor.Properties.Chains

/-!
# Success is recorded truthfully and ends the chain
-/

namespace EventHarbor

open Relational DeliveryWorker EventService ReplayService

/-- A result that is reported comes from the transport. -/
def Request.Transported : Request → Prop
  | finalize w webhook result _ => ∃ (lib : TransportLib)
      (post : Bytes → List (String × String) → HttpOutcome) (clock : AttemptClock),
      sendWebhook lib w.settings.workerRetryAfterCapSeconds webhook post clock = .ok result
  | _ => True

/-- The runs in which workers report what the transport returned. -/
abbrev ReachesTruthful (lib : Lib) (ls : List Shown) (s : System) : Prop :=
  Sys.Run (Request.code lib) (fun ls s x s' => Ordinary ls s x s' ∧
    ∀ t r, x = .start t r → r.Transported) [] (.idle Db.empty) ls s

/-- A success carries a 2xx status. -/
def Truthful (a : DeliveryAttempt) : Prop :=
  a.disposition = some .succeeded → ∃ n, a.httpStatusCode = some n ∧ 200 ≤ n ∧ n ≤ 299

section Success

variable {lib : Lib} {L : List Lock} {db db' : Db} {r : Request} {a : Response}
  {ls ls' : List Shown} {s s' : System}

/-- A claim makes no success. -/
theorem Claimed.truthful {w : DeliveryWorker} {draw : ClaimDraw} {ep : Endpoint} {c : Claim}
    {d d' : Delivery} {closed opened : Option DeliveryAttempt}
    (hc : Claimed False w draw db ep d c d' closed opened) (h : ∀ x ∈ db.attempts, Truthful x) :
    (∀ x, closed = some x → Truthful x) ∧ ∀ x, opened = some x → Truthful x := by
  cases hc with
  | lease hev hmem hs he hr =>
    constructor
    · intro x hx
      cases hx
    · intro x hx hsucc
      cases hx
      cases hsucc
  | relet hev hmem hs ha he hr =>
    constructor
    · intro x hx hsucc
      cases hx
      have := h _ (mem_leasedAttempts.mp ha).1
      exact this hsucc
    · intro x hx hsucc
      cases hx
      cases hsucc
  | expire hs ha hx =>
    constructor
    · intro x hx hsucc
      cases hx
      have := h _ (mem_leasedAttempts.mp ha).1
      exact this hsucc
    · intro x hx
      cases hx
  | drop hs hx =>
    constructor
    · intro x hx
      cases hx
    · intro x hx
      cases hx

theorem Step.truthful (hstep : Step lib False L db r a db') (hr : r.Transported)
    (h : ∀ x ∈ db.attempts, Truthful x) : ∀ x ∈ db'.attempts, Truthful x := by
  intro x hx
  cases hstep with
  | claim hd hL hdue hep hepid hc hvalid hclose hopen =>
    rcases mem_move_attempts (hc.moves hd) hx with hx | hx | hx
    · exact h x hx
    · exact (hc.truthful h).1 x hx
    · exact (hc.truthful h).2 x hx
  | settle htarget hd hcount ha hL hvalid hclose =>
    rcases mem_move_attempts (settle_moves hd ha _ _ _ _) hx with hx | hx | hx
    · exact h x hx
    · cases hx
      obtain ⟨tlib, post, clock, hsend⟩ := hr
      exact fun hsucc => sendWebhook_succeeded hsend (Option.some.inj hsucc)
    · cases hx
  | purge hc hL hids hend => exact hc.elim
  | _ => exact h x hx

/-- Every recorded success carries a 2xx status. -/
theorem ReachesTruthful.truthful (hr : ReachesTruthful lib ls s) :
    ∀ x ∈ s.db.attempts, Truthful x := by
  induction hr with
  | nil => exact fun x hx => absurd hx (Table.not_mem_empty x)
  | @snoc ls₁ s₁ x m s₂ hr hx hp ih =>
    have hreq := (hr.requests (Q := Request.Transported) (fun hp => hp.2 _ _ rfl)
      (fun c hc => absurd hc (Table.not_mem_empty c)) (by simp)).1
    have hr' : Reaches lib ls₁ s₁ := hr.mono fun hp => hp.1
    rcases (reaches_meets hr' hx hp.1).cases with ⟨-, hdb⟩ | ⟨c, hc, a, -, hstep⟩
    · exact hdb ▸ ih
    · exact Step.truthful hstep (hreq c hc) ih

/-! ## The end of a chain -/

/-- Once an event is delivered none of its deliveries is active. -/
theorem Inv.ended (h : Inv lib db) {d x : Delivery} (hd : d ∈ db.deliveries)
    (hs : d.status = .delivered) (hx : x ∈ db.deliveriesAt d.eventId) :
    x.status.active = false := by
  have hchain := h.chain_of hd
  have hmem : d ∈ db.deliveriesAt d.eventId := Db.mem_deliveriesAt.mpr ⟨hd, rfl⟩
  rcases lt_trichotomy x.replayGeneration d.replayGeneration with hlt | heq | hlt
  · rw [hchain.dead_of_lt hx hmem hlt]
    rfl
  · rw [hchain.eq_of_generation hx hmem heq, hs]
    rfl
  · rw [hchain.dead_of_lt hmem hx hlt] at hs
    cases hs

/-- The deliveries of an event with their attempts. -/
def Db.Frozen (e : UUID) (db db' : Db) : Prop :=
  db'.deliveriesAt e = db.deliveriesAt e ∧
    ∀ x ∈ db.deliveriesAt e, db'.attemptsAt x.id = db.attemptsAt x.id

theorem Moves.frozen {d d' : Delivery} {closed opened : Option DeliveryAttempt} {e : UUID}
    (hm : Moves db d d' closed opened) (hopen : ∀ x, opened = some x → Opens L db d.id x)
    (he : d.eventId ≠ e) : db.Frozen e (db.move d' closed opened) := by
  have hne : ∀ x ∈ db.deliveriesAt e, x.id ≠ d.id := by
    intro x hx hk
    obtain ⟨hx, hxe⟩ := Db.mem_deliveriesAt.mp hx
    exact he (Table.eq_of_key hx hm.mem hk ▸ hxe)
  refine ⟨?_, fun x hx => attemptsAt_move_of_ne hm (fun b hb => (hopen b hb).id) (hne x hx)⟩
  rw [deliveriesAt_move hm]
  refine (List.map_congr_left fun x hx => ?_).trans (List.map_id _)
  exact Table.overwrite_of_ne fun hk => hne x hx (hk.trans hm.same.id)

/-- Nothing is added to a delivered event. -/
theorem Step.frozen (hstep : Step lib False L db r a db') (h : Inv lib db) {d : Delivery}
    (hd : d ∈ db.deliveries) (hs : d.status = .delivered) : db.Frozen d.eventId db' := by
  have hidle : ∀ x ∈ db.deliveries, x.status.active = true → x.eventId ≠ d.eventId := by
    intro x hx hactive he
    have := h.ended hd hs (Db.mem_deliveriesAt.mpr ⟨hx, he⟩)
    rw [hactive] at this
    cases this
  cases hstep with
  | accept hid hep hdigest hbytes hvalid hevent hkey hdelivery hLe hLk hLd hLs =>
    refine ⟨?_, fun x _ => rfl⟩
    rw [deliveriesAt_insert rfl hdelivery, if_neg, List.append_nil]
    obtain ⟨e, he, hide⟩ := h.event d hd
    exact fun heq => hevent e he (hide.trans heq.symm)
  | @supersede i key draw source hid hfresh hvalid hLd hLs hsource =>
    refine ⟨?_, fun x _ => rfl⟩
    rw [deliveriesAt_insert rfl hfresh, if_neg, List.append_nil]
    -- The source would have to be the delivered generation itself.
    obtain ⟨hm, hdead, hmax⟩ := hsource not_false
    intro heq
    have hchain := h.chain_of hd
    have hmem : d ∈ db.deliveriesAt d.eventId := Db.mem_deliveriesAt.mpr ⟨hd, rfl⟩
    have hsrc : source ∈ db.deliveriesAt d.eventId := Db.mem_deliveriesAt.mpr ⟨hm, heq⟩
    rcases Nat.lt_or_eq_of_le (hmax d hd heq.symm) with hlt | hgen
    · rw [hchain.dead_of_lt hmem hsrc hlt] at hs
      cases hs
    · rw [hchain.eq_of_generation hmem hsrc hgen, hdead] at hs
      cases hs
  | claim hx hL hdue hep hepid hc hvalid hclose hopen =>
    exact (hc.moves hx).frozen hopen (hidle _ hx (hc.moves hx).active)
  | settle htarget hx hcount ha hL hvalid hclose =>
    obtain ⟨hmem, -, hin, -⟩ := mem_ownedDeliveries.mp hx
    exact (settle_moves hx ha _ _ _ _).frozen (L := L) (fun x hx => by cases hx)
      (hidle _ hmem (active_of_inProgress hin))
  | purge hc hL hids hend => exact hc.elim
  | _ => exact ⟨rfl, fun x _ => rfl⟩

theorem trace_frozen {h₀ h : List (Request × Response)}
    (ht : (contract lib False).Trace h₀ db h db') {d : Delivery} (hd : d ∈ db.deliveries)
    (hs : d.status = .delivered) : db.Frozen d.eventId db' := by
  induction ht with
  | nil => exact ⟨rfl, fun x _ => rfl⟩
  | @snoc h₁ db₁ r a L db₂ ht ha hinv hstep ih =>
    have hmem : d ∈ db₁.deliveriesAt d.eventId := ih.1 ▸ Db.mem_deliveriesAt.mpr ⟨hd, rfl⟩
    have hnext := Step.frozen hstep (hinv not_false) (Db.mem_deliveriesAt.mp hmem).1 hs
    exact ⟨hnext.1.trans ih.1, fun x hx => (hnext.2 x (ih.1 ▸ hx)).trans (ih.2 x hx)⟩

/-- The attempt with the highest number is the last one. -/
theorem Ledger.getLast_of_number {d : Delivery} {as : List DeliveryAttempt} {x : DeliveryAttempt}
    (h : Ledger d as) (hx : x ∈ as) (hn : x.attemptNumber = d.attemptCount) :
    as.getLast? = some x := by
  obtain ⟨init, y, rfl⟩ : ∃ init y, as = init ++ [y] :=
    ⟨_, _, (List.dropLast_append_getLast (List.ne_nil_of_mem hx)).symm⟩
  have hlen : d.attemptCount = init.length + 1 := by
    have := congrArg List.length h.numbered
    simpa using this.symm
  have hy : y.attemptNumber = d.attemptCount := by
    have := congrArg List.getLast? h.numbered
    rw [hlen, List.range'_1_concat] at this
    simp at this
    omega
  rw [List.getLast?_append_cons, h.eq_of_number hx (by simp) (hn.trans hy.symm)]
  rfl

/-- A delivery is delivered exactly when one of its attempts succeeded; that
attempt is the last thing that happens for its event. -/
theorem success_ends_chain (hr : ReachesTruthful lib ls s) :
    (∀ d ∈ s.db.deliveries, d.status = .delivered ↔
      ∃ x ∈ s.db.attemptsAt d.id, x.disposition = some .succeeded) ∧
    (∀ d ∈ s.db.deliveries, ∀ x ∈ s.db.attemptsAt d.id, x.disposition = some .succeeded →
      (∀ d' ∈ s.db.pairAt d.eventId d.endpointId, ∀ x' ∈ s.db.attemptsAt d'.id,
        x'.disposition = some .succeeded → x' = x) ∧
      (s.db.attemptsAt d.id).getLast? = some x ∧
      d.replayGeneration + 1 = (s.db.pairAt d.eventId d.endpointId).length ∧
      (∃ n, x.httpStatusCode = some n ∧ 200 ≤ n ∧ n ≤ 299) ∧
      d.deliveredAt.isSome) ∧
    (∀ d ∈ s.db.deliveries, d.status = .delivered → ∀ ls' s', Continues lib ls s ls' s' →
      s'.db.deliveriesAt d.eventId = s.db.deliveriesAt d.eventId ∧
      ∀ d' ∈ s.db.deliveriesAt d.eventId, s'.db.attemptsAt d'.id = s.db.attemptsAt d'.id) := by
  have hr' : Reaches lib ls s := hr.mono fun hp => hp.1
  have hinv := reaches_inv hr'
  refine ⟨fun d hd => (hinv.ledger d hd).succeeded, fun d hd x hx hsucc => ?_,
    fun d hd hs ls' s' hc => trace_frozen (continues_trace hr' hc) hd hs⟩
  have hl := hinv.ledger d hd
  have hs : d.status = .delivered := hl.succeeded.mpr ⟨x, hx, hsucc⟩
  refine ⟨fun d' hd' x' hx' hsucc' => ?_, hl.getLast_of_number hx (hl.last x hx hsucc),
    hinv.generation_last hd (hinv.delivered_last hd hs),
    ReachesTruthful.truthful hr x (Db.mem_attemptsAt.mp hx).1 hsucc, hl.delivered hs⟩
  -- Another success would belong to another delivered generation.
  have hdm : d' ∈ s.db.deliveries := (Db.mem_pairAt.mp hd').1
  have hl' := hinv.ledger d' hdm
  have hs' : d'.status = .delivered := hl'.succeeded.mpr ⟨x', hx', hsucc'⟩
  have hchain := hinv.chain_pairAt hd
  have hle := hinv.delivered_last hd hs d' hd'
  rcases Nat.lt_or_eq_of_le hle with hlt | hgen
  · rw [hchain.dead_of_lt hd' (Db.mem_pairAt_self hd) hlt] at hs'
    cases hs'
  · have hdd := hchain.eq_of_generation hd' (Db.mem_pairAt_self hd) hgen
    subst hdd
    exact hl.eq_of_number hx' hx ((hl.last x' hx' hsucc').trans (hl.last x hx hsucc).symm)

end Success

namespace Sample

def transportLib : TransportLib where
  float := fun _ => none
  parsedateToDatetime := fun _ => .error .invalid
  decodeReplace := fun bytes => String.ofList (bytes.map fun b => Char.ofNat b.toNat)
  hmacSha256Hex := fun _ _ => "317eb520aff07fc2c4ef1f66ce7b8003bd14857e30073c1011f75180ed19fb0b"

/-- The endpoint answers at once. -/
def clock : AttemptClock := ⟨epoch + 2, epoch + 3, 0, 1, AttemptClock.finite_of_second⟩

/-- The result of sending a webhook to an endpoint that answers 200. -/
def delivered (webhook : OutboundWebhook) : Option AttemptResult :=
  (sendWebhook transportLib settings.workerRetryAfterCapSeconds webhook
    (fun _ _ => .response 200 [111, 107] none) clock).toOption

def success : AttemptResult :=
  (delivered (webhook 5 4 1)).getD (unreachable (epoch + 2))

/-- Only the webhook of the example's first claim is reported. -/
def Reported (ls : List Shown) (s : System) (x : Shown) (s' : System) : Prop :=
  Ordinary ls s x s' ∧
    match x with
    | .start _ (.finalize w webhook result _) =>
      w.settings.workerRetryAfterCapSeconds = settings.workerRetryAfterCapSeconds ∧
        delivered webhook = some result
    | _ => True

instance (ls : List Shown) (s : System) : (x : Shown) → (s' : System) →
    Decidable (Reported ls s x s')
  | .start _ (.finalize w webhook result _), _ => inferInstanceAs (Decidable (_ ∧
      w.settings.workerRetryAfterCapSeconds = settings.workerRetryAfterCapSeconds ∧
        delivered webhook = some result))
  | .start _ (.createEndpoint _ _ _), _ | .start _ (.setEnabled _ _ _), _
  | .start _ (.publish _ _ _), _ | .start _ (.replay _ _ _), _ | .start _ (.claimOne _ _), _
  | .start _ (.purge _ _ _), _
  | .tau _, _ | .wrote _ _, _ | .commit _ _ _, _ | .fail _ _ _, _ | .abort _, _ =>
    inferInstanceAs (Decidable (_ ∧ True))

theorem Reported.transported {ls : List Shown} {s s' : System} {x : Shown}
    (h : Reported ls s x s') : ∀ t r, x = .start t r → r.Transported := by
  rintro t r rfl
  cases r with
  | finalize w webhook result draw =>
    obtain ⟨-, hcap, hsent⟩ := h
    refine ⟨transportLib, fun _ _ => .response 200 [111, 107] none, clock, ?_⟩
    rw [hcap]
    unfold delivered at hsent
    cases hok : sendWebhook transportLib settings.workerRetryAfterCapSeconds webhook
        (fun _ _ => .response 200 [111, 107] none) clock with
    | error e =>
      rw [hok] at hsent
      cases hsent
    | ok result' =>
      rw [hok] at hsent
      cases hsent
      rfl
  | _ => trivial

end Sample

theorem success_ends_chain_of_delivery : ∃ ls s, ReachesTruthful Sample.lib ls s ∧
    s.db.deliveries.rows.map (·.status) = [.delivered] ∧
    ∀ d ∈ s.db.deliveries, d.status = .delivered ↔
      ∃ x ∈ s.db.attemptsAt d.id, x.disposition = some .succeeded := by
  have hplay : (Sys.play (Request.code Sample.lib) Sample.Reported [] (.idle Db.empty)
      (Sys.alone 0 Sample.register 2 ++ Sys.alone 1 (Sample.publish 2 3) 9 ++
        Sys.alone 2 (Sample.claim "a" (Sample.epoch + 1) 4 5) 12 ++
        Sys.alone 3 (Sample.finalize "a" (Sample.webhook 5 4 1) Sample.success (Sample.epoch + 4))
          11)).any (fun p => p.2.db.deliveries.rows.map (·.status) = [.delivered]) = true := by
    decide +kernel
  obtain ⟨ls, s, hr, h⟩ := Sys.exists_run hplay
  have hr' : ReachesTruthful Sample.lib ls s := hr.mono fun hp => ⟨hp.1, hp.transported⟩
  exact ⟨ls, s, hr', of_decide_eq_true h, (success_ends_chain hr').1⟩

end EventHarbor
