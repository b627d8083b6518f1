import EventHarbor.Properties.Ledger

/-!
# The attempt budget

Every answer of a claim is paid for by the delivery it is about: a lease uses
up one attempt, a resolution the one remaining answer.
-/

namespace EventHarbor

open Relational DeliveryWorker EventService ReplayService

/-- Every delivery worker that takes part has this limit. -/
def Request.limitedTo (m : ℕ) : Request → Bool
  | claimOne w _ | finalize w _ _ _ => w.settings.workerMaxAttempts = m
  | _ => true

/-- Ordinary operation of workers that share one limit. -/
def Limited (m : ℕ) (ls : List Shown) (s : System) (x : Shown) (s' : System) : Prop :=
  Ordinary ls s x s' ∧
    match x with
    | .start _ r => r.limitedTo m = true
    | _ => True

instance (m : ℕ) (ls : List Shown) (s : System) : (x : Shown) → (s' : System) →
    Decidable (Limited m ls s x s')
  | .start _ r, _ => inferInstanceAs (Decidable (_ ∧ r.limitedTo m = true))
  | .tau _, _ | .wrote _ _, _ | .commit _ _ _, _ | .fail _ _ _, _ | .abort _, _ =>
    inferInstanceAs (Decidable (_ ∧ True))

/-- The answer of a claim, unless it is `None`. -/
def Response.claim : Response → Option Claim
  | claimed c => c
  | _ => none

def claimed (h : List (Request × Response)) : List Claim := h.filterMap (·.2.claim)

/-- A commit that added a delivery. -/
def Response.creates : Response → Bool
  | published p => !p.idempotentReplay
  | replayed r => !r.idempotentReplay
  | _ => false

/-- A step that accepts new work. -/
def acceptsWork : Shown → Bool
  | .commit _ _ a => a.creates
  | _ => false

/-- The answers that claims can still give about a delivery. -/
def Delivery.budget (m : ℕ) (d : Delivery) : ℕ :=
  if d.status.active then m - d.attemptCount + 1 else 0

section Budget

variable {lib : Lib} {L : List Lock} {db db' : Db} {r : Request} {a : Response} {m : ℕ}

/-- What a commit does to the budgets. -/
inductive Spends (m : ℕ) (t : Table Delivery.id) : Response → Table Delivery.id → Prop
  | lease {w : OutboundWebhook} {d d' : Delivery} (hd : d ∈ t) (hid : d'.id = d.id)
      (hw : w.deliveryId = d.id) (hn : w.attemptNumber = d.attemptCount + 1)
      (hcount : d'.attemptCount = d.attemptCount + 1) (hlt : d.attemptCount < m)
      (hb : d'.budget m + 1 ≤ d.budget m) : Spends m t (.claimed (some (.webhook w))) (t.set d')
  | resolve {x : DeliveryResolution} {d d' : Delivery} (hd : d ∈ t) (hid : d'.id = d.id)
      (hx : x.deliveryId = d.id) (hcount : d'.attemptCount = d.attemptCount)
      (hb : d'.budget m + 1 ≤ d.budget m) : Spends m t (.claimed (some (.resolution x))) (t.set d')
  | settle {ok : Bool} {d d' : Delivery} (hd : d ∈ t) (hid : d'.id = d.id)
      (hcount : d'.attemptCount = d.attemptCount) (hb : d'.budget m ≤ d.budget m) :
      Spends m t (.finalized ok) (t.set d')
  | create {a : Response} {d : Delivery} (hfresh : t.Fresh d.id) (ha : a.creates = true)
      (hcount : d.attemptCount = 0) : Spends m t a (t.insert d)
  | keep {a : Response} (ha : a.claim = none) : Spends m t a t

theorem budget_of_active {d : Delivery} (h : d.status.active = true) :
    d.budget m = m - d.attemptCount + 1 := by
  rw [Delivery.budget, if_pos h]

theorem budget_of_ended {d : Delivery} (h : d.status.active = false) : d.budget m = 0 := by
  rw [Delivery.budget, h]
  rfl

theorem Claimed.spends {w : DeliveryWorker} {draw : ClaimDraw} {ep : Endpoint} {c : Claim}
    {d d' : Delivery} {closed opened : Option DeliveryAttempt}
    (hc : Claimed False w draw db ep d c d' closed opened) (hd : d ∈ db.deliveries)
    (hm : w.settings.workerMaxAttempts = m) :
    Spends m db.deliveries (.claimed (some c)) (db.deliveries.set d') := by
  have hactive := budget_of_active (m := m) (hc.moves hd).active
  cases hc with
  | lease hev hmem hs he hr =>
    refine .lease hd rfl rfl rfl rfl (hm ▸ hr) ?_
    rw [hactive, budget_of_active (d := w.leased d draw) rfl]
    simp only [leased]
    omega
  | relet hev hmem hs ha he hr =>
    refine .lease hd rfl rfl rfl rfl (hm ▸ hr) ?_
    rw [hactive, budget_of_active (d := w.leased (w.expired d true draw) draw) rfl]
    simp only [leased, expired]
    omega
  | expire hs ha hx =>
    refine .resolve hd rfl rfl rfl ?_
    rw [hactive, budget_of_ended rfl]
    omega
  | drop hs hx =>
    refine .resolve hd rfl rfl rfl ?_
    rw [hactive, budget_of_ended rfl]
    omega

theorem Step.spends (hstep : Step lib False L db r a db') (hm : r.limitedTo m = true) :
    Spends m db.deliveries a db'.deliveries := by
  cases hstep with
  | accept hid hep hdigest hbytes hvalid hevent hkey hdelivery hLe hLk hLd hLs =>
    exact .create hdelivery rfl rfl
  | supersede hid hfresh hvalid hLd hLs h => exact .create hfresh rfl rfl
  | claim hd hL hdue hep hepid hc hvalid hclose hopen => exact hc.spends hd (of_decide_eq_true hm)
  | @settle w webhook result draw status delay d at' htarget hd hcount ha hL hvalid hclose =>
    obtain ⟨hd, -, hs, -⟩ := mem_ownedDeliveries.mp hd
    refine .settle hd rfl rfl ?_
    rw [budget_of_active (active_of_inProgress hs), Delivery.budget]
    split
    · exact le_refl _
    · exact Nat.zero_le _
  | purge hc hL hids hend => exact hc.elim
  | _ => exact .keep rfl

/-! ## Accounts of whole runs -/

/-- The numbers of the webhooks issued for a delivery. -/
def numbers (i : UUID) (h : List (Request × Response)) : List ℕ :=
  ((issued h).filter (·.deliveryId = i)).map (·.attemptNumber)

/-- How many claims have answered with a delivery. -/
def answers (i : UUID) (h : List (Request × Response)) : ℕ :=
  (claimed h).countP (·.deliveryId = i)

theorem numbers_append (i : UUID) (h h' : List (Request × Response)) :
    numbers i (h ++ h') = numbers i h ++ numbers i h' := by
  simp [numbers]

theorem answers_append (i : UUID) (h h' : List (Request × Response)) :
    answers i (h ++ h') = answers i h + answers i h' := by
  simp [answers, claimed]

/-- The history in order with the deliveries. -/
structure Accounted (m : ℕ) (h : List (Request × Response)) (t : Table Delivery.id) : Prop where
  limit : ∀ d ∈ t, d.attemptCount ≤ m
  numbered : ∀ d ∈ t, numbers d.id h = List.range' 1 d.attemptCount
  answered : ∀ d ∈ t, answers d.id h + d.budget m ≤ m + 1
  known : ∀ i, t.Fresh i → numbers i h = [] ∧ answers i h = 0

section Accounts

variable {h : List (Request × Response)} {t t' : Table Delivery.id} {x : Request × Response}
  {i : UUID}

/-- The commit says nothing about a delivery. -/
def Silent (i : UUID) (x : Request × Response) : Prop := numbers i [x] = [] ∧ answers i [x] = 0

theorem silent_of_other {c : Claim} (hne : c.deliveryId ≠ i) :
    Silent i (r, .claimed (some c)) := by
  cases c <;>
    simp_all [Silent, numbers, answers, issued, claimed, Response.claim, Claim.deliveryId]

theorem silent_of_none (ha : a.claim = none) (i : UUID) : Silent i (r, a) := by
  cases a <;> simp_all [Silent, numbers, answers, issued, claimed, Response.claim]

theorem Silent.numbers (hs : Silent i x) : numbers i (h ++ [x]) = EventHarbor.numbers i h := by
  rw [numbers_append, hs.1, List.append_nil]

theorem Silent.answers (hs : Silent i x) : answers i (h ++ [x]) = EventHarbor.answers i h := by
  rw [answers_append, hs.2, Nat.add_zero]

/-- A commit that rewrites one delivery. -/
theorem Accounted.set {d d' : Delivery} (hacc : Accounted m h t) (hd : d ∈ t) (hid : d'.id = d.id)
    (hother : ∀ i, i ≠ d.id → Silent i x) (hlimit : d'.attemptCount ≤ m)
    (hn : numbers d.id (h ++ [x]) = List.range' 1 d'.attemptCount)
    (ha : answers d.id (h ++ [x]) + d'.budget m ≤ m + 1) : Accounted m (h ++ [x]) (t.set d') := by
  have hmem : ∀ y, y ∈ t.set d' ↔ (y ∈ t ∧ y ≠ d) ∨ y = d' := fun y =>
    Table.mem_set_of_mem hd hid.symm
  have hne : ∀ y ∈ t, y ≠ d → Silent y.id x := fun y hy hyd =>
    hother y.id fun hk => hyd (Table.eq_of_key hy hd hk)
  constructor
  · intro y hy
    rcases (hmem y).mp hy with ⟨hy, -⟩ | rfl
    · exact hacc.limit y hy
    · exact hlimit
  · intro y hy
    rcases (hmem y).mp hy with ⟨hy, hyd⟩ | rfl
    · rw [(hne y hy hyd).numbers]
      exact hacc.numbered y hy
    · rw [hid]
      exact hn
  · intro y hy
    rcases (hmem y).mp hy with ⟨hy, hyd⟩ | rfl
    · rw [(hne y hy hyd).answers]
      exact hacc.answered y hy
    · rw [hid]
      exact ha
  · intro i hi
    have hids : i ≠ d.id := fun hk => hi d' ((hmem d').mpr (.inr rfl)) (hid.trans hk.symm)
    have hfresh : t.Fresh i := by
      intro y hy hk
      by_cases hyd : y = d
      · exact hids (hk.symm.trans (hyd ▸ rfl))
      · exact hi y ((hmem y).mpr (.inl ⟨hy, hyd⟩)) hk
    rw [(hother i hids).numbers, (hother i hids).answers]
    exact hacc.known i hfresh

theorem Accounted.spends (hacc : Accounted m h t) (hs : Spends m t a t') :
    Accounted m (h ++ [(r, a)]) t' := by
  cases hs with
  | @lease w d d' hd hid hw hn hcount hlt hb =>
    have hown : numbers d.id [(r, .claimed (some (.webhook w)))] = [d.attemptCount + 1] ∧
        answers d.id [(r, .claimed (some (.webhook w)))] = 1 := by
      simp [numbers, answers, issued, claimed, Response.claim, Claim.deliveryId, hw, hn]
    refine hacc.set hd hid (fun i hi => silent_of_other fun hk => hi (hk.symm.trans hw)) ?_ ?_ ?_
    · omega
    · rw [numbers_append, hacc.numbered d hd, hown.1, hcount, List.range'_1_concat, Nat.add_comm 1]
    · have := hacc.answered d hd
      rw [answers_append, hown.2]
      omega
  | @resolve z d d' hd hid hz hcount hb =>
    have hown : numbers d.id [(r, .claimed (some (.resolution z)))] = [] ∧
        answers d.id [(r, .claimed (some (.resolution z)))] = 1 := by
      simp [numbers, answers, issued, claimed, Response.claim, Claim.deliveryId, hz]
    refine hacc.set hd hid (fun i hi => silent_of_other fun hk => hi (hk.symm.trans hz)) ?_ ?_ ?_
    · exact hcount ▸ hacc.limit d hd
    · rw [numbers_append, hown.1, List.append_nil, hcount]
      exact hacc.numbered d hd
    · have := hacc.answered d hd
      rw [answers_append, hown.2]
      omega
  | @settle ok d d' hd hid hcount hb =>
    have hsilent : ∀ i, Silent i (r, .finalized ok) := silent_of_none rfl
    refine hacc.set hd hid (fun i _ => hsilent i) (hcount ▸ hacc.limit d hd) ?_ ?_
    · rw [(hsilent d.id).numbers, hcount]
      exact hacc.numbered d hd
    · rw [(hsilent d.id).answers]
      exact (Nat.add_le_add_left hb _).trans (hacc.answered d hd)
  | @create _ d hfresh ha hcount =>
    have hsilent : ∀ i, Silent i (r, a) := by
      refine silent_of_none ?_
      cases a <;> first | rfl | cases ha
    have hmem : ∀ y, y ∈ t.insert d ↔ y ∈ t ∨ y = d := fun y => Table.mem_insert hfresh
    obtain ⟨hnone, hzero⟩ := hacc.known d.id hfresh
    constructor
    · intro y hy
      rcases (hmem y).mp hy with hy | rfl
      · exact hacc.limit y hy
      · omega
    · intro y hy
      rw [(hsilent y.id).numbers]
      rcases (hmem y).mp hy with hy | rfl
      · exact hacc.numbered y hy
      · rw [hnone, hcount]
        rfl
    · intro y hy
      rw [(hsilent y.id).answers]
      rcases (hmem y).mp hy with hy | rfl
      · exact hacc.answered y hy
      · rw [hzero, Delivery.budget]
        split <;> omega
    · intro i hi
      rw [(hsilent i).numbers, (hsilent i).answers]
      exact hacc.known i fun y hy => hi y ((hmem y).mpr (.inl hy))
  | keep ha =>
    have hsilent : ∀ i, Silent i (r, a) := silent_of_none ha
    constructor
    · exact hacc.limit
    · intro y hy
      rw [(hsilent y.id).numbers]
      exact hacc.numbered y hy
    · intro y hy
      rw [(hsilent y.id).answers]
      exact hacc.answered y hy
    · intro i hi
      rw [(hsilent i).numbers, (hsilent i).answers]
      exact hacc.known i hi

/-- Without new work every answer is paid for. -/
theorem Spends.paid (hs : Spends m t a t') (ha : a.creates = false) :
    a.claim.toList.length + (t'.rows.map (Delivery.budget m)).sum ≤
      (t.rows.map (Delivery.budget m)).sum := by
  cases hs with
  | lease hd hid hw hn hcount hlt hb =>
    have := Table.sum_map_set hd hid.symm (Delivery.budget m)
    simp only [Response.claim, Option.toList_some, List.length_singleton]
    omega
  | resolve hd hid hx hcount hb =>
    have := Table.sum_map_set hd hid.symm (Delivery.budget m)
    simp only [Response.claim, Option.toList_some, List.length_singleton]
    omega
  | settle hd hid hcount hb =>
    have := Table.sum_map_set hd hid.symm (Delivery.budget m)
    simp only [Response.claim, Option.toList_none, List.length_nil]
    omega
  | create hfresh hc hcount =>
    rw [ha] at hc
    cases hc
  | keep hc => simp [hc]

end Accounts

/-! ## The bounds -/

/-- The runs of workers with the limit `m`, from an empty store. -/
abbrev ReachesLimited (lib : Lib) (m : ℕ) (ls : List Shown) (s : System) : Prop :=
  Sys.Run (Request.code lib) (Limited m) [] (.idle Db.empty) ls s

/-- Limited operation that accepts no new work. -/
abbrev Drains (lib : Lib) (m : ℕ) (ls : List Shown) (s : System) (ls' : List Shown) (s' : System) :
    Prop :=
  Sys.Run (Request.code lib) (fun ls s x s' => Limited m ls s x s' ∧ acceptsWork x = false) ls s ls' s'

variable {ls ls' : List Shown} {s s' : System}

theorem ReachesLimited.reaches (hr : ReachesLimited lib m ls s) : Reaches lib ls s :=
  hr.mono fun hp => hp.1

theorem ReachesLimited.step (hr : ReachesLimited lib m ls s) {x : Action ℕ Request} {l : Shown}
    (hx : s.act (Request.code lib) x = some (l, s')) (hp : Limited m ls s l s') :
    (history [l] = [] ∧ s'.db = s.db) ∨ ∃ t r a, l = .commit t r a ∧
      Spends m s.db.deliveries a s'.db.deliveries := by
  rcases (reaches_meets (ReachesLimited.reaches hr) hx hp.1).cases with h | ⟨c, hc, a, rfl, hstep⟩
  · exact .inl h
  · obtain ⟨hreq, -⟩ := hr.requests (Q := fun r => r.limitedTo m = true) (fun hp => hp.2)
      (fun c hc => absurd hc (Table.not_mem_empty c)) (by simp)
    exact .inr ⟨c.id, c.req, a, rfl, Step.spends hstep (hreq c hc)⟩

theorem ReachesLimited.accounted (hr : ReachesLimited lib m ls s) :
    Accounted m (history ls) s.db.deliveries := by
  induction hr with
  | nil =>
    exact ⟨fun d hd => absurd hd (Table.not_mem_empty d), fun d hd => absurd hd (Table.not_mem_empty d),
      fun d hd => absurd hd (Table.not_mem_empty d), fun i _ => ⟨rfl, rfl⟩⟩
  | snoc hr hx hp ih =>
    rw [history_append]
    rcases ReachesLimited.step hr hx hp with ⟨hl, hdb⟩ | ⟨t, r, a, rfl, hs⟩
    · rw [hl, List.append_nil, hdb]
      exact ih
    · exact ih.spends hs

/-- The budgets of all deliveries pay for every further answer. -/
theorem Drains.paid (hr : ReachesLimited lib m ls s) (hd : Drains lib m ls s ls' s') :
    (claimed (history ls')).length + (s'.db.deliveries.rows.map (Delivery.budget m)).sum ≤
      (claimed (history ls)).length + (s.db.deliveries.rows.map (Delivery.budget m)).sum := by
  induction hd with
  | nil => exact le_refl _
  | snoc hd hx hp ih =>
    rw [history_append]
    have hr' : ReachesLimited lib m _ _ := hr.trans (hd.mono fun hp => hp.1)
    rcases ReachesLimited.step hr' hx hp.1 with ⟨hl, hdb⟩ | ⟨t, r, a, rfl, hs⟩
    · rw [hl, List.append_nil, hdb]
      exact ih
    · have hpaid := hs.paid hp.2
      have hsnoc : ∀ h, claimed (h ++ [(r, a)]) = claimed h ++ a.claim.toList := by
        intro h
        cases hc : a.claim <;> simp [claimed, hc]
      rw [show history [(Label.commit t r a : Shown)] = [(r, a)] from rfl, hsnoc, List.length_append]
      omega

theorem sum_budget (ds : List Delivery) :
    ((ds.filter (·.status.active)).map fun d => m - d.attemptCount + 1).sum =
      (ds.map (Delivery.budget m)).sum := by
  induction ds with
  | nil => rfl
  | cons d ds ih =>
    rw [List.map_cons, List.sum_cons, ← ih]
    by_cases hd : d.status.active = true
    · simp [hd, budget_of_active hd]
    · simp [hd, budget_of_ended (Bool.eq_false_of_not_eq_true hd)]

/-- A delivery generation is sent at most `m` times, answered at most once
more, and without new work all claims come to an end. -/
theorem bounded_requests (hr : ReachesLimited lib m ls s) :
    (∀ i, ∃ k ≤ m, numbers i (history ls) = List.range' 1 k) ∧
    (∀ i, answers i (history ls) ≤ m + 1) ∧
    (∀ ls' s', Drains lib m ls s ls' s' →
      (claimed (history ls')).length ≤ (claimed (history ls)).length +
        ((s.db.deliveries.rows.filter (·.status.active)).map fun d =>
          m - d.attemptCount + 1).sum) := by
  have hacc := ReachesLimited.accounted hr
  refine ⟨fun i => ?_, fun i => ?_, fun ls' s' hd => ?_⟩
  · cases hg : s.db.deliveries.get? i with
    | none => exact ⟨0, Nat.zero_le m, (hacc.known i (Table.get?_eq_none.mp hg)).1⟩
    | some d =>
      obtain ⟨hd, rfl⟩ := Table.get?_eq_some.mp hg
      exact ⟨d.attemptCount, hacc.limit d hd, hacc.numbered d hd⟩
  · cases hg : s.db.deliveries.get? i with
    | none =>
      rw [(hacc.known i (Table.get?_eq_none.mp hg)).2]
      exact Nat.zero_le _
    | some d =>
      obtain ⟨hd, rfl⟩ := Table.get?_eq_some.mp hg
      exact (Nat.le_add_right _ _).trans (hacc.answered d hd)
  · rw [sum_budget]
    exact (Nat.le_add_right _ _).trans (Drains.paid hr hd)

end Budget

/-- The example's delivery has three attempts; two of them are used here. -/
theorem bounded_requests_of_expiry : ∃ ls s ls' s', ReachesLimited Sample.lib 3 ls s ∧
    Drains Sample.lib 3 ls s ls' s' ∧ numbers 3 (history ls') = [1, 2] ∧
    (claimed (history ls')).length = 2 ∧
    (claimed (history ls')).length ≤ (claimed (history ls)).length +
      ((s.db.deliveries.rows.filter (·.status.active)).map fun d => 3 - d.attemptCount + 1).sum := by
  have hplay : (Sys.play (Request.code Sample.lib) (Limited 3) [] (.idle Db.empty)
      (Sys.alone 0 Sample.register 2 ++ Sys.alone 1 (Sample.publish 2 3) 9)).any (fun p =>
      (Sys.play (Request.code Sample.lib)
        (fun ls s x s' => Limited 3 ls s x s' ∧ acceptsWork x = false) p.1 p.2
        (Sys.alone 2 (Sample.claim "a" (Sample.epoch + 1) 4 5) 12 ++
          Sys.alone 3 (Sample.claim "b" (Sample.epoch + 40) 6 7) 19)).any fun q =>
        numbers 3 (history q.1) = [1, 2] && (claimed (history q.1)).length = 2) = true := by
    decide +kernel
  obtain ⟨ls, s, hr, h⟩ := Sys.exists_run hplay
  obtain ⟨ls', s', hd, h'⟩ := Sys.exists_run h
  obtain ⟨hn, hc⟩ := Bool.and_eq_true_iff.mp h'
  exact ⟨ls, s, ls', s', hr, hd, of_decide_eq_true hn, of_decide_eq_true hc,
    (bounded_requests hr).2.2 ls' s' hd⟩

end EventHarbor
