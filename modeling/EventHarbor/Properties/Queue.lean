import EventHarbor.Properties.Claims

/-!
# Accepted work is neither stranded nor starved
-/

namespace EventHarbor

open Relational Txn DeliveryWorker

/-- The instant from which a delivery is due. -/
def Delivery.dueFrom (d : Delivery) : Option Time :=
  match d.status with
  | .pending | .retryWait => d.nextAttemptAt
  | .inProgress => d.leaseExpiresAt
  | _ => none

section Queue

variable {lib : Lib} {db : Db} {d : Delivery} {w : DeliveryWorker} {draw : ClaimDraw}

theorem Inv.mem_claimCandidates (h : Inv lib db) {clock : UUID → Time} :
    d ∈ claimCandidates clock db ↔ d ∈ db.deliveries ∧ claimable (clock d.id) d = true := by
  rw [claimCandidates, List.mem_insertionSort, List.mem_filter]
  constructor
  · rintro ⟨hd, hc⟩
    exact ⟨hd, (Bool.and_eq_true_iff.mp hc).1⟩
  · rintro ⟨hd, hc⟩
    obtain ⟨e, he, hid⟩ := h.endpoint d hd
    exact ⟨hd, by rw [hc, ← hid, Table.get?_key he]; rfl⟩

/-- An active delivery is claimable from its due instant on. -/
theorem Inv.claimable_from (h : Inv lib db) (hd : d ∈ db.deliveries)
    (ha : d.status.active = true) :
    ∃ t, d.dueFrom = some t ∧ ∀ now, t ≤ now → claimable now d = true := by
  have hl := h.ledger d hd
  cases hs : d.status with
  | pending =>
    obtain ⟨t, ht⟩ := Option.isSome_iff_exists.mp (hl.scheduled (.inl hs))
    have hn := (hl.unleased (by simp [hs])).2.2
    exact ⟨t, by simp [Delivery.dueFrom, hs, ht], fun now hle => by simp [claimable, due, hs, ht, hn, hle]⟩
  | retryWait =>
    obtain ⟨t, ht⟩ := Option.isSome_iff_exists.mp (hl.scheduled (.inr hs))
    have hn := (hl.unleased (by simp [hs])).2.2
    exact ⟨t, by simp [Delivery.dueFrom, hs, ht], fun now hle => by simp [claimable, due, hs, ht, hn, hle]⟩
  | inProgress =>
    obtain ⟨t, ht⟩ := Option.isSome_iff_exists.mp (hl.leased hs).2.1
    exact ⟨t, by simp [Delivery.dueFrom, hs, ht], fun now hle => by simp [claimable, due, hs, ht, hle]⟩
  | delivered => simp [hs, DeliveryStatus.active] at ha
  | deadLettered => simp [hs, DeliveryStatus.active] at ha

/-! ## The order of claims -/

instance : Std.Total dueBefore where
  total a b := by
    unfold dueBefore
    cases dueAt a with
    | none =>
      cases dueAt b with
      | none => exact le_total a.id b.id
      | some t => exact .inr trivial
    | some s =>
      cases dueAt b with
      | none => exact .inl trivial
      | some t =>
        rcases lt_trichotomy s t with h | rfl | h
        · exact .inl (.inl h)
        · exact (le_total a.id b.id).imp (fun h => .inr ⟨rfl, h⟩) fun h => .inr ⟨rfl, h⟩
        · exact .inr (.inl h)

instance : IsTrans Delivery dueBefore where
  trans a b c hab hbc := by
    unfold dueBefore at *
    cases ha : dueAt a <;> cases hb : dueAt b <;> cases hc : dueAt c <;> simp only [ha, hb, hc] at *
    · exact le_trans hab hbc
    · rcases hab with hab | ⟨rfl, hab⟩
      · rcases hbc with hbc | ⟨rfl, hbc⟩
        · exact .inl (hab.trans hbc)
        · exact .inl hab
      · rcases hbc with hbc | ⟨rfl, hbc⟩
        · exact .inl hbc
        · exact .inr ⟨rfl, hab.trans hbc⟩

/-- The first candidate is due before every other. -/
theorem claimCandidates_head {clock : UUID → Time} {ds : List Delivery}
    (h : claimCandidates clock db = d :: ds) : ∀ x ∈ d :: ds, dueBefore d x := by
  have hsorted : (claimCandidates clock db).Pairwise dueBefore := List.pairwise_insertionSort _ _
  rw [h] at hsorted
  intro x hx
  rcases List.mem_cons.mp hx with rfl | hx
  · exact (Std.Total.total (r := dueBefore) x x).elim id id
  · exact List.rel_of_pairwise_cons hsorted hx

/-! ## A claim that runs alone -/

theorem lockFirst_run {reclock : UUID → Time} {ds : List Delivery} (hd : d ∈ db.deliveries) :
    (lockFirst reclock (d :: ds)).run db = .ok (some d, db) := by
  have hget : db.deliveries.get? d.id = some d := Table.get?_key hd
  simp [lockFirst, hget]

theorem claimOne_run (w : DeliveryWorker) (draw : ClaimDraw) (db : Db) :
    (w.claimOne draw).run db = match claimCandidates draw.clock db with
      | [] => .ok (none, db)
      | d :: _ => match (w.claimLocked draw d).run db with
        | .ok (c, db') => .ok (some c, db')
        | .error e => .error e := by
  rw [claimOne, run_query_bind, run_bind]
  cases hc : claimCandidates draw.clock db with
  | nil => rfl
  | cons d ds =>
    have hd : d ∈ db.deliveries := by
      have hmem : d ∈ claimCandidates draw.clock db := hc ▸ List.mem_cons_self
      exact (List.mem_filter.mp ((List.mem_insertionSort _).mp hmem)).1
    rw [lockFirst_run hd]
    dsimp only
    rw [run_bind]
    cases (w.claimLocked draw d).run db <;> rfl

theorem reserve_returns (ep : Endpoint) :
    (w.reserve d ep draw).Returns fun c => c.deliveryId = d.id := by
  refine Returns.after fun _ => Returns.after fun o => ?_
  cases o with
  | none => trivial
  | some event => exact Returns.after fun _ => Returns.after fun _ => rfl

theorem resolveExpiredAttempt_returns (enabled : Bool) :
    (w.resolveExpiredAttempt d enabled draw).Returns
      (Sum.elim (fun d' => d'.id = d.id) fun r => r.deliveryId = d.id) := by
  refine Returns.after fun o => ?_
  cases o with
  | none => trivial
  | some a =>
    simp only [resolveLocked]
    split
    · exact Returns.after fun _ => Returns.after fun _ => rfl
    · exact Returns.after fun _ => Returns.after fun _ => Returns.after fun _ => rfl

/-- The answer of a claim is about the delivery it locked. -/
theorem claimLocked_returns : (w.claimLocked draw d).Returns fun c => c.deliveryId = d.id := by
  refine Returns.after fun o => ?_
  cases o with
  | none => trivial
  | some ep =>
    dsimp only
    split
    · refine Returns.bind ((resolveExpiredAttempt_returns ep.enabled).mono ?_)
      intro r hr
      cases r with
      | inl d' => exact (reserve_returns ep).mono fun c hc => hc.trans hr
      | inr r => exact hr
    · split
      · exact Returns.bind (Returns.after fun _ => Returns.after fun _ => rfl)
      · exact Returns.after fun _ => reserve_returns ep

/-- Every active delivery comes due, and a claim that nobody disturbs takes the
one that has been due longest. -/
theorem work_not_stranded {ls : List Shown} {s : System} (hr : Reaches lib ls s) :
    (∀ d ∈ s.db.deliveries, d.status ≠ .delivered → d.status ≠ .deadLettered →
      ∃ t, d.dueFrom = some t ∧ ∀ clock : UUID → Time, t ≤ clock d.id →
        claimable (clock d.id) d = true ∧ d ∈ claimCandidates clock s.db) ∧
    (∀ c ∈ s.sessions, ∀ w draw, c.req = .claimOne w draw → c.prog = (c.req.code lib) →
      c.writes = [] → (∀ c' ∈ s.sessions, c'.id ≠ c.id → c'.held = []) →
      ∀ ls' s' r a s'', Sys.Run (Request.code lib) (fun _ _ m _ => m.Statement c.id) ls s ls' s' →
        s'.act (Request.code lib) (.next c.id) = some (.commit c.id r a, s'') →
        (a = .claimed none → ∀ d ∈ s.db.deliveries, claimable (draw.clock d.id) d = false) ∧
        (∀ k, a = .claimed (some k) → ∃ e ∈ s.db.deliveries, e.id = k.deliveryId ∧
          claimable (draw.clock e.id) e = true ∧
          ∀ d ∈ s.db.deliveries, claimable (draw.clock d.id) d = true → dueBefore e d)) := by
  have hinv := reaches_inv hr
  refine ⟨fun d hd hne hne' => ?_, fun c hc w draw hreq hprog hws hfree ls' s' r a s'' hrun hx => ?_⟩
  · have ha : d.status.active = true := by
      cases hs : d.status <;> simp_all [DeliveryStatus.active]
    obtain ⟨t, ht, hclaim⟩ := hinv.claimable_from hd ha
    exact ⟨t, ht, fun clock hle =>
      ⟨hclaim _ hle, hinv.mem_claimCandidates.mpr ⟨hd, hclaim _ hle⟩⟩⟩
  · have hcode := hrun.alone hc hfree hx
    rw [hprog, hws, hreq, view_nil, Request.code, run_bind, claimOne_run] at hcode
    cases hcand : claimCandidates draw.clock s.db with
    | nil =>
      rw [hcand] at hcode
      obtain ⟨rfl, -⟩ := Prod.mk.inj (Except.ok.inj hcode)
      refine ⟨fun _ d hd => ?_, fun k hk => by cases hk⟩
      by_contra hne
      have hmem := hinv.mem_claimCandidates.mpr ⟨hd, Bool.eq_true_of_not_eq_false hne⟩
      rw [hcand] at hmem
      cases hmem
    | cons e ds =>
      rw [hcand] at hcode
      dsimp only at hcode
      cases hlocked : (w.claimLocked draw e).run s.db with
      | error err =>
        rw [hlocked] at hcode
        cases hcode
      | ok p =>
        rw [hlocked] at hcode
        obtain ⟨rfl, -⟩ := Prod.mk.inj (Except.ok.inj hcode)
        refine ⟨fun h => (by cases h), fun k hk => ?_⟩
        cases hk
        have hcandidate : ∀ d, d ∈ e :: ds ↔ d ∈ s.db.deliveries ∧
            claimable (draw.clock d.id) d = true := fun d => hcand ▸ hinv.mem_claimCandidates
        obtain ⟨he, hclaim⟩ := (hcandidate e).mp List.mem_cons_self
        refine ⟨e, he, (claimLocked_returns.run hlocked).symm, hclaim, fun d hd hd' => ?_⟩
        exact claimCandidates_head hcand d ((hcandidate d).mpr ⟨hd, hd'⟩)

end Queue

namespace Sample

/-- Two events for one endpoint; the delivery with the greater id is due first. -/
def staggered : List (Action ℕ Request) :=
  Sys.alone 0 register 2 ++
  Sys.alone 1 (.publish order "order-43"
    { eventId := 12, deliveryId := 13, createdAt := epoch, transactionNow := epoch }) 9 ++
  Sys.alone 2 (.publish order "order-42"
    { eventId := 2, deliveryId := 3, createdAt := epoch, transactionNow := epoch + 1 }) 9

/-- The claimable deliveries with the instants from which they are due. -/
def dues (now : Time) (db : Db) : List (UUID × Option Time) :=
  (db.deliveries.rows.filter (claimable now)).map fun d => (d.id, dueAt d)

/-- The next statement of the claim commits the delivery with id 13. -/
def commitsFirst (q : List Shown × System) : Bool :=
  match q.2.act (Request.code twoEvents) (.next 3) with
  | some (.commit 3 _ (.claimed (some k)), _) => k.deliveryId = 13
  | _ => false

end Sample

/-- Of two deliveries that are due at different instants the claim takes the older one. -/
theorem work_not_stranded_of_claim : ∃ ls s c w draw ls' s' r k s'', Reaches Sample.twoEvents ls s ∧
    Sample.dues (Sample.epoch + 2) s.db =
      [(13, some Sample.epoch), (3, some (Sample.epoch + 1))] ∧
    c ∈ s.sessions ∧ c.req = .claimOne w draw ∧ draw.clock = (fun _ => Sample.epoch + 2) ∧
    Sys.Run (Request.code Sample.twoEvents) (fun _ _ m _ => m.Statement c.id) ls s ls' s' ∧
    s'.act (Request.code Sample.twoEvents) (.next c.id) =
      some (.commit c.id r (.claimed (some k)), s'') ∧ k.deliveryId = 13 ∧
    ∃ e ∈ s.db.deliveries, e.id = k.deliveryId ∧ claimable (draw.clock e.id) e = true ∧
      ∀ d ∈ s.db.deliveries, claimable (draw.clock d.id) d = true → dueBefore e d := by
  let request := Sample.claim "a" (Sample.epoch + 2) 4 5
  let started (s : System) : System :=
    { s with sessions := s.sessions.insert (s.opened (Request.code Sample.twoEvents) 3 request) }
  have hplay : (Sys.play (Request.code Sample.twoEvents) Ordinary [] (.idle Db.empty)
      Sample.staggered).any (fun p => p.2.sessions.rows.isEmpty &&
        (decide (Sample.dues (Sample.epoch + 2) p.2.db =
          [(13, some Sample.epoch), (3, some (Sample.epoch + 1))]) &&
        (Sys.play (Request.code Sample.twoEvents) (fun _ _ m _ => m.Statement 3)
          (p.1 ++ [.start 3 request]) (started p.2) (List.replicate 11 (.next 3))).any
            Sample.commitsFirst)) = true := by decide +kernel
  obtain ⟨ls, s, hr, h⟩ := Sys.exists_run hplay
  obtain ⟨hempty, h⟩ := Bool.and_eq_true_iff.mp h
  obtain ⟨hdues, hrun⟩ := Bool.and_eq_true_iff.mp h
  obtain ⟨ls', s', hrun, hlast⟩ := Sys.exists_run hrun
  unfold Sample.commitsFirst at hlast
  split at hlast
  · rename_i r k s'' hact
    have hnone : ∀ c, c ∉ s.sessions := by
      intro c hc
      rw [Table.mem_def, List.isEmpty_iff.mp hempty] at hc
      cases hc
    have hmem : ∀ c, c ∈ (started s).sessions ↔
        c = s.opened (Request.code Sample.twoEvents) 3 request := by
      intro c
      rw [Table.mem_insert fun c hc => absurd hc (hnone c)]
      exact ⟨fun hc => hc.resolve_left (hnone c), .inr⟩
    have hget : s.sessions.get? 3 = none := Table.get?_eq_none.mpr fun c hc => absurd hc (hnone c)
    have hr' : Reaches Sample.twoEvents (ls ++ [.start 3 request]) (started s) :=
      hr.snoc (x := .start 3 request) (by simp only [Sys.act, hget]; rfl) trivial
    obtain ⟨-, hclaim⟩ := work_not_stranded hr'
    have := hclaim _ ((hmem _).mpr rfl) _ _ rfl rfl rfl
      (fun c hc hne => absurd (congrArg Session.id ((hmem c).mp hc)) hne) _ _ _ _ _ hrun hact
    exact ⟨_, _, _, _, _, _, _, _, _, _, hr', of_decide_eq_true hdues, (hmem _).mpr rfl, rfl, rfl,
      hrun, hact, of_decide_eq_true hlast, this.2 _ rfl⟩
  · cases hlast

end EventHarbor
