import EventHarbor.Properties.Ledger
import EventHarbor.Relational.Locks

/-!
# What concurrent claims select

A claim's selection locks the rows of both joined tables, so a delivery is
passed over when its own row is taken and also when its endpoint is. Claims
that are open together can therefore select no more deliveries than there are
endpoints with work that is due.
-/

namespace EventHarbor

open Relational Txn DeliveryWorker

abbrev OpenTx := Session ℕ Request Db Write Lock (List UUID) Error Response

/-! ## The statements of a selection -/

/-- What a claim does with the answer of its selection. -/
def afterSelection (w : DeliveryWorker) (draw : ClaimDraw) (o : Option Delivery) : Tx Response := do
  let claim ← (match o with
    | none => return none
    | some d => return some (← w.claimLocked draw d))
  return .claimed claim

/-- A claim that has `candidates` left to try. -/
def selecting (w : DeliveryWorker) (draw : ClaimDraw) (candidates : List Delivery) : Tx Response := do
  afterSelection w draw (← lockFirst draw.reclock candidates)

/-- A claim that has locked `d` and reads it again. -/
def rereading (w : DeliveryWorker) (draw : ClaimDraw) (d : Delivery) (ds : List Delivery) :
    Tx Response := do
  match ← query (·.deliveries.get? d.id) with
  | none => selecting w draw ds
  | some row =>
    if row = d || claimable (draw.reclock d.id) row then afterSelection w draw (some row)
    else selecting w draw ds

/-- A claim that has locked the row of `d` and tries its endpoint. -/
def testing (w : DeliveryWorker) (draw : ClaimDraw) (d : Delivery) (ds : List Delivery) :
    Tx Response := do
  if ← tryAcquire (.endpoint d.endpointId .update) then rereading w draw d ds
  else selecting w draw ds

section Statements

variable {w : DeliveryWorker} {draw : ClaimDraw} {d : Delivery} {ds : List Delivery}

theorem code_claimOne (lib : Lib) : Request.code lib (.claimOne w draw) =
    query (claimCandidates draw.clock) >>= selecting w draw := by
  simp only [Request.code, DeliveryWorker.claimOne, bind_assoc]
  rfl

theorem selecting_nil : selecting w draw [] = .done (.claimed none) := rfl

theorem rereading_eq : rereading w draw d ds = .read (fun _ => none) fun db =>
    match db.deliveries.get? d.id with
    | none => selecting w draw ds
    | some row =>
      if row = d || claimable (draw.reclock d.id) row then afterSelection w draw (some row)
      else selecting w draw ds := rfl

theorem testing_eq : testing w draw d ds = .tryLock (.endpoint d.endpointId .update) fun b =>
    if b then rereading w draw d ds else selecting w draw ds := rfl

theorem selecting_cons : selecting w draw (d :: ds) = .tryLock (.delivery d.id .update) fun b =>
    if b then testing w draw d ds else selecting w draw ds := by
  rw [selecting, lockFirst, bind_assoc]
  refine congrArg (Txn.tryLock _) (funext fun b => ?_)
  cases b with
  | false => rfl
  | true =>
    refine congrArg (Txn.tryLock _) (funext fun b => ?_)
    cases b with
    | false => rfl
    | true =>
      refine congrArg (Txn.read _) (funext fun db => ?_)
      show Txn.bind (Txn.bind (.done (db.deliveries.get? d.id)) _) _ = _
      simp only [Txn.bind]
      cases db.deliveries.get? d.id with
      | none => rfl
      | some row =>
        simp only
        split
        · rfl
        · rfl

end Statements

/-! ## Claims that are open together -/

/-- A delivery that a selection at `now` may take. -/
def eligible (now : Time) (db : Db) (d : Delivery) : Bool :=
  claimable now d && (db.endpoints.get? d.endpointId).isSome

/-- The endpoints with work that is due. -/
def dueEndpoints (now : Time) (db : Db) : Finset UUID :=
  ((db.deliveries.rows.filter (eligible now db)).map Delivery.endpointId).toFinset

/-- The selection of the claim is over. -/
def HasChosen (c : OpenTx) : Prop :=
  ∃ w draw o, c.req = .claimOne w draw ∧ Leaves (afterSelection w draw o) c.prog

/-- The claim has selected `d`, whose row it has locked. -/
def Selected (c : OpenTx) (d : Delivery) : Prop :=
  ∃ w draw, c.req = .claimOne w draw ∧ Leaves (afterSelection w draw (some d)) c.prog ∧
    Lock.delivery d.id .update ∈ c.held

/-- The claim found `d` due and goes on with the candidates behind it. -/
def PassedOver (db : Db) (c : OpenTx) (d : Delivery) : Prop :=
  ∃ w draw l₁ l₂, c.req = .claimOne w draw ∧ claimCandidates draw.clock db = l₁ ++ l₂ ∧
    d ∈ l₁ ∧ c.prog = selecting w draw l₂

/-- Claims are started from `t` on and stay open. -/
def Claiming (t : Time) (_ : List Shown) (_ : System) : Shown → System → Prop
  | .start _ (.claimOne _ draw), _ => ∀ i, t ≤ draw.clock i
  | .tau _, _ | .wrote _ _, _ => True
  | _, _ => False

/-- The states that claims on `db` reach while all of them are open. -/
abbrev Together (lib : Lib) (t : Time) (db : Db) (ls : List Shown) (s : System) : Prop :=
  Sys.Run (Request.code lib) (Claiming t) [] (.idle db) ls s

/-- However `k` claims on `db` interleave, each selects a delivery that it finds
eligible, and no two select the same one. -/
def SelectsApart (lib : Lib) (t : Time) (db : Db) (k : ℕ) : Prop :=
  ∀ ls s, Together lib t db ls s → s.sessions.rows.length = k →
    (∀ c ∈ s.sessions, HasChosen c) →
      (∀ c ∈ s.sessions, ∃ d ∈ db.deliveries, Selected c d ∧
        ∃ w draw, c.req = .claimOne w draw ∧ eligible (draw.clock d.id) db d = true) ∧
      ∀ c ∈ s.sessions, ∀ c' ∈ s.sessions, ∀ d, Selected c d → Selected c' d → c = c'

/-- A claim passes over an eligible delivery only when the row of that delivery
is locked by another transaction. -/
def PassesOnlyLocked (lib : Lib) (t : Time) (db : Db) : Prop :=
  ∀ ls s, Together lib t db ls s → ∀ c ∈ s.sessions, ∀ d, PassedOver db c d →
    ∃ c' ∈ s.sessions, c'.id ≠ c.id ∧ Lock.delivery d.id .update ∈ c'.held

/-- No two deliveries that fall due from `t` on share an endpoint. -/
def EndpointsApart (t : Time) (db : Db) : Prop :=
  ∀ d ∈ db.deliveries, ∀ d' ∈ db.deliveries, ∀ now, t ≤ now → eligible now db d = true →
    eligible now db d' = true → d.endpointId = d'.endpointId → d = d'

section Eligible

variable {db : Db} {d : Delivery} {t t' : Time} {clock : UUID → Time}

theorem mem_claimCandidates :
    d ∈ claimCandidates clock db ↔ d ∈ db.deliveries ∧ eligible (clock d.id) db d = true := by
  rw [claimCandidates, List.mem_insertionSort, List.mem_filter]
  rfl

theorem nodup_claimCandidates : ((claimCandidates clock db).map Delivery.id).Nodup := by
  refine List.Perm.nodup (List.Perm.map _ (List.perm_insertionSort _ _).symm) ?_
  exact Table.nodup_filter_map _ db.deliveries.nodup

theorem due_mono {o : Option Time} (ht : t ≤ t') (h : due o t = true) : due o t' = true := by
  cases o with
  | none => cases h
  | some x => exact decide_eq_true ((of_decide_eq_true h).trans ht)

theorem eligible_mono (ht : t ≤ t') (h : eligible t db d = true) : eligible t' db d = true := by
  simp only [eligible, claimable, Bool.and_eq_true, Bool.or_eq_true] at h ⊢
  refine ⟨h.1.imp ?_ ?_, h.2⟩
  · rintro ⟨⟨hst, hdue⟩, hlease⟩
    exact ⟨⟨hst, due_mono ht hdue⟩, hlease⟩
  · rintro ⟨hst, hdue⟩
    exact ⟨hst, due_mono ht hdue⟩

theorem mem_dueEndpoints {i : UUID} : i ∈ dueEndpoints t db ↔
    ∃ d ∈ db.deliveries, eligible t db d = true ∧ d.endpointId = i := by
  simp only [dueEndpoints, List.mem_toFinset, List.mem_map, List.mem_filter, and_assoc]
  rfl

end Eligible

/-! ## A claim past its selection -/

/-- A lock that a claim takes once it has selected the delivery `i`. -/
structure Later (i : UUID) (x : Lock) : Prop where
  endpoint : ∀ j m, x ≠ .endpoint j m
  delivery : ∀ j m, x = .delivery j m → j = i ∧ m ≠ .update

/-- A program that works on the selected delivery `i`. -/
structure Chosen (i : UUID) (p : Tx Response) : Prop where
  locks : p.Locks (Later i)
  returns : p.Returns fun a => ∃ c, a = .claimed (some c)

section Chosen

variable {w : DeliveryWorker} {draw : ClaimDraw} {i : UUID} {d : Delivery} {ds : List Delivery}

theorem later_keys (wr : Write) : ∀ x ∈ Engine.keys Db wr, Later i x := by
  intro x hx
  obtain ⟨k, rfl⟩ := Write.mem_keys hx
  exact ⟨by simp, by simp⟩

theorem later_delivery {m : RowLock} (hm : m ≠ .update) : Later i (.delivery i m) where
  endpoint := by simp
  delivery := by
    rintro j n ⟨⟩
    exact ⟨rfl, hm⟩

theorem later_attempt (j : UUID) (m : RowLock) : Later i (.attempt j m) :=
  ⟨by simp, by simp⟩

theorem locks_lift {α : Type} (x : Except Error α) : (lift x : Tx α).Locks (Later i) := by
  cases x <;> trivial

theorem locks_exec (wr : Write) : (exec wr : Tx Unit).Locks (Later i) := by
  refine ⟨later_keys wr, fun e => ?_⟩
  cases e <;> trivial

theorem locks_updateDelivery (hd : d.id = i) : (updateDelivery d).Locks (Later i) :=
  Locks.bind ⟨hd ▸ later_delivery (by simp), trivial⟩ fun _ => locks_exec _

theorem locks_updateAttempt (a : DeliveryAttempt) : (updateAttempt a).Locks (Later i) :=
  Locks.bind ⟨later_attempt _ _, trivial⟩ fun _ => locks_exec _

theorem locks_reserve (ep : Endpoint) (hd : d.id = i) :
    (w.reserve d ep draw).Locks (Later i) := by
  refine Locks.bind (locks_updateDelivery hd) fun _ => Locks.bind (fun _ => trivial) fun o => ?_
  cases o with
  | none => trivial
  | some ev =>
    refine Locks.bind (locks_exec _) fun _ => Locks.bind ?_ fun _ => trivial
    refine Locks.bind ⟨?_, trivial⟩ fun _ => Locks.bind (fun _ => trivial) fun b => ?_
    · exact hd ▸ later_delivery (by simp)
    · cases b <;> trivial

/-- An expired lease is resolved on the delivery itself. -/
def onDelivery (i : UUID) : Delivery ⊕ DeliveryResolution → Prop
  | .inl d => d.id = i
  | .inr _ => True

theorem locks_resolveExpiredAttempt (b : Bool) (hd : d.id = i) :
    (w.resolveExpiredAttempt d b draw).Locks (Later i) ∧
      (w.resolveExpiredAttempt d b draw).Returns (onDelivery i) := by
  constructor
  · refine Locks.bind (Locks.bind (fun _ => trivial) fun rows => ?_) fun o => ?_
    · match rows with
      | [] => trivial
      | [r] => exact Locks.bind ⟨later_attempt _ _, trivial⟩ fun _ _ => trivial
      | _ :: _ :: _ => trivial
    · cases o with
      | none => trivial
      | some attempt =>
        simp only [resolveLocked]
        split
        · exact Locks.bind (locks_updateDelivery hd) fun _ =>
            Locks.bind (locks_updateAttempt _) fun _ => trivial
        · exact Locks.bind (locks_lift _) fun _ => Locks.bind (locks_updateDelivery hd) fun _ =>
            Locks.bind (locks_updateAttempt _) fun _ => trivial
  · refine Returns.after fun o => ?_
    cases o with
    | none => trivial
    | some attempt =>
      simp only [resolveLocked]
      split
      · exact Returns.after fun _ => Returns.after fun _ => hd
      · exact Returns.after fun _ => Returns.after fun _ => Returns.after fun _ => trivial

theorem locks_claimLocked : (w.claimLocked draw d).Locks (Later d.id) := by
  refine Locks.bind (fun _ => trivial) fun o => ?_
  cases o with
  | none => trivial
  | some ep =>
    dsimp only
    split
    · have hd : d.id = d.id := rfl
      refine (locks_resolveExpiredAttempt _ hd).1.bindReturns
        (locks_resolveExpiredAttempt _ hd).2 fun r hr => ?_
      cases r with
      | inl d' => exact locks_reserve ep hr
      | inr r => trivial
    · split
      · refine Locks.bind ?_ fun _ => trivial
        exact Locks.bind (locks_lift _) fun _ =>
          Locks.bind (locks_updateDelivery rfl) fun _ => trivial
      · exact Locks.bind (locks_lift _) fun _ => locks_reserve ep rfl

theorem chosen_afterSelection : Chosen d.id (afterSelection w draw (some d)) where
  locks := Locks.bind (Locks.bind locks_claimLocked fun _ => trivial) fun _ => trivial
  returns := .bind (.bind (.of_forall (fun c => ⟨c, rfl⟩) _))

theorem Chosen.answers {p q : Tx Response} (h : Chosen i p) (ha : Answers p q) : Chosen i q where
  locks := h.locks.answers ha
  returns := by
    have hr := h.returns
    cases ha with
    | read n k d => exact hr d
    | lock i k => exact hr
    | tryLock i k b => exact hr b
    | write w k e => exact hr e

theorem Chosen.leaves {p q : Tx Response} (h : Chosen i p) (hl : Leaves p q) : Chosen i q := by
  induction hl with
  | refl => exact h
  | tail _ ha ih => exact ih.answers ha

/-! A program that is still selecting has not chosen. -/

theorem not_chosen_selecting : ¬Chosen i (selecting w draw ds) := by
  intro h
  cases ds with
  | nil =>
    obtain ⟨c, hc⟩ := h.returns
    cases hc
  | cons d ds =>
    rw [selecting_cons] at h
    exact (h.locks.1.delivery d.id .update rfl).2 rfl

theorem not_chosen_testing : ¬Chosen i (testing w draw d ds) :=
  fun h => h.locks.1.endpoint d.endpointId .update rfl

theorem not_chosen_rereading : ¬Chosen i (rereading w draw d ds) := by
  intro h
  -- The row may be gone, and then the selection goes on.
  exact not_chosen_selecting (h.answers (.read _ _ Db.empty) : Chosen i (selecting w draw ds))

end Chosen

/-! ## How far a claim has come -/

/-- Another claim has locked the row of `d` or its endpoint. -/
def Taken (s : System) (t : ℕ) (d : Delivery) : Prop :=
  ∃ c ∈ s.sessions, c.id ≠ t ∧
    (Lock.delivery d.id .update ∈ c.held ∨ Lock.endpoint d.endpointId .update ∈ c.held)

/-- The lock of a row that was passed over, for a reason `Z`. -/
def Kept (Z : ℕ → Delivery → Prop) (t : ℕ) (passed : List Delivery) (x : Lock) : Prop :=
  ∃ d ∈ passed, x = .delivery d.id .update ∧ Z t d

/-- Where a claim on `db` stands: it passed over `l₁`, each of which another
claim had taken, and holds the locks of its last test. -/
inductive Stage (db : Db) (Z : ℕ → Delivery → Prop) (s : System) (w : DeliveryWorker)
    (draw : ClaimDraw) (c : OpenTx) : Prop
  | opened (hp : c.prog = query (claimCandidates draw.clock) >>= selecting w draw)
      (hw : c.writes = []) (hh : c.held = [])
  | selecting (l₁ l₂ : List Delivery) (hl : claimCandidates draw.clock db = l₁ ++ l₂)
      (hp : c.prog = selecting w draw l₂) (hw : c.writes = [])
      (hpast : ∀ d ∈ l₁, Taken s c.id d) (hh : ∀ x ∈ c.held, Kept Z c.id l₁ x)
  | testing (l₁ : List Delivery) (d : Delivery) (l₂ : List Delivery)
      (hl : claimCandidates draw.clock db = l₁ ++ d :: l₂)
      (hp : c.prog = testing w draw d l₂) (hw : c.writes = [])
      (hpast : ∀ d ∈ l₁, Taken s c.id d) (hd : Lock.delivery d.id .update ∈ c.held)
      (hh : ∀ x ∈ c.held, x = .delivery d.id .update ∨ Kept Z c.id l₁ x)
  | rereading (l₁ : List Delivery) (d : Delivery) (l₂ : List Delivery)
      (hl : claimCandidates draw.clock db = l₁ ++ d :: l₂)
      (hp : c.prog = rereading w draw d l₂) (hw : c.writes = [])
      (hpast : ∀ d ∈ l₁, Taken s c.id d) (hd : Lock.delivery d.id .update ∈ c.held)
      (he : Lock.endpoint d.endpointId .update ∈ c.held)
      (hh : ∀ x ∈ c.held, x = .endpoint d.endpointId .update ∨ x = .delivery d.id .update ∨
        Kept Z c.id l₁ x)
  | chosen (l₁ : List Delivery) (d : Delivery) (l₂ : List Delivery)
      (hl : claimCandidates draw.clock db = l₁ ++ d :: l₂)
      (hp : Leaves (afterSelection w draw (some d)) c.prog)
      (hpast : ∀ d ∈ l₁, Taken s c.id d) (hd : Lock.delivery d.id .update ∈ c.held)
      (he : Lock.endpoint d.endpointId .update ∈ c.held)
      (hh : ∀ x ∈ c.held, Later d.id x ∨ x = .endpoint d.endpointId .update ∨
        x = .delivery d.id .update ∨ Kept Z c.id l₁ x)

/-- The states of claims that are open together. -/
structure Claims (t : Time) (db : Db) (Z : ℕ → Delivery → Prop) (s : System) : Prop where
  store : s.db = db
  apart : s.Apart
  stage : ∀ c ∈ s.sessions, ∃ w draw, c.req = .claimOne w draw ∧ (∀ i, t ≤ draw.clock i) ∧
    Stage db Z s w draw c

section Stage

variable {lib : Lib} {t : Time} {db : Db} {Z : ℕ → Delivery → Prop} {s s' : System}
  {w : DeliveryWorker} {draw : ClaimDraw} {c c' : OpenTx} {m : Shown}

theorem Kept.mono {l l' : List Delivery} {x : Lock} {n : ℕ} (h : Kept Z n l x) (hl : l ⊆ l') :
    Kept Z n l' x := by
  obtain ⟨d, hd, hx⟩ := h
  exact ⟨d, hl hd, hx⟩

/-- What the others do leaves a claim where it is. -/
theorem Stage.mono (h : Stage db Z s w draw c)
    (hs : ∀ d, Taken s c.id d → Taken s' c.id d) : Stage db Z s' w draw c := by
  cases h with
  | opened hp hw hh => exact .opened hp hw hh
  | selecting l₁ l₂ hl hp hw hpast hh =>
    exact .selecting l₁ l₂ hl hp hw (fun d hd => hs d (hpast d hd)) hh
  | testing l₁ d l₂ hl hp hw hpast hd hh =>
    exact .testing l₁ d l₂ hl hp hw (fun d hd => hs d (hpast d hd)) hd hh
  | rereading l₁ d l₂ hl hp hw hpast hd he hh =>
    exact .rereading l₁ d l₂ hl hp hw (fun d hd => hs d (hpast d hd)) hd he hh
  | chosen l₁ d l₂ hl hp hpast hd he hh =>
    exact .chosen l₁ d l₂ hl hp (fun d hd => hs d (hpast d hd)) hd he hh

/-- A claim that holds any lock on a delivery's row holds the one it took first. -/
theorem Stage.row_lock (h : Stage db Z s w draw c) {i : UUID} {n : RowLock}
    (hx : Lock.delivery i n ∈ c.held) : Lock.delivery i .update ∈ c.held := by
  have hkept : ∀ {l}, Kept Z c.id l (.delivery i n) → n = .update := by
    rintro l ⟨d, -, hx, -⟩
    cases hx
    rfl
  cases h with
  | opened hp hw hh =>
    rw [hh] at hx
    cases hx
  | selecting l₁ l₂ hl hp hw hpast hh => exact hkept (hh _ hx) ▸ hx
  | testing l₁ d l₂ hl hp hw hpast hd hh =>
    rcases hh _ hx with heq | hk
    · cases heq
      exact hd
    · exact hkept hk ▸ hx
  | rereading l₁ d l₂ hl hp hw hpast hd he hh =>
    rcases hh _ hx with heq | heq | hk
    · cases heq
    · cases heq
      exact hd
    · exact hkept hk ▸ hx
  | chosen l₁ d l₂ hl hp hpast hd he hh =>
    rcases hh _ hx with hlater | heq | heq | hk
    · exact (hlater.delivery i n rfl).1 ▸ hd
    · cases heq
    · cases heq
      exact hd
    · exact hkept hk ▸ hx

/-- A claim that holds a lock on an endpoint holds it with a delivery. -/
theorem Stage.endpoint_lock (h : Stage db Z s w draw c) {i : UUID} {n : RowLock}
    (hx : Lock.endpoint i n ∈ c.held) : ∃ l₁ d l₂, claimCandidates draw.clock db = l₁ ++ d :: l₂ ∧
      d.endpointId = i ∧ n = .update ∧ Lock.delivery d.id .update ∈ c.held ∧
      ∀ x ∈ c.held, ∀ j, x = .endpoint j .update → j = i := by
  have hkept : ∀ {l} {j} {n}, ¬Kept Z c.id l (.endpoint j n) := by
    rintro l j n ⟨d, -, hx, -⟩
    cases hx
  cases h with
  | opened hp hw hh =>
    rw [hh] at hx
    cases hx
  | selecting l₁ l₂ hl hp hw hpast hh => exact absurd (hh _ hx) hkept
  | testing l₁ d l₂ hl hp hw hpast hd hh =>
    rcases hh _ hx with heq | hk
    · cases heq
    · exact absurd hk hkept
  | rereading l₁ d l₂ hl hp hw hpast hd he hh =>
    have honly : ∀ j n, Lock.endpoint j n ∈ c.held → j = d.endpointId ∧ n = .update := by
      intro j n hj
      rcases hh _ hj with heq | heq | hk
      · cases heq
        exact ⟨rfl, rfl⟩
      · cases heq
      · exact absurd hk hkept
    obtain ⟨rfl, rfl⟩ := honly i n hx
    exact ⟨l₁, d, l₂, hl, rfl, rfl, hd, fun x hx j hj => (honly j _ (hj ▸ hx)).1⟩
  | chosen l₁ d l₂ hl hp hpast hd he hh =>
    have honly : ∀ j n, Lock.endpoint j n ∈ c.held → j = d.endpointId ∧ n = .update := by
      intro j n hj
      rcases hh _ hj with hlater | heq | heq | hk
      · exact absurd rfl (hlater.endpoint j n)
      · cases heq
        exact ⟨rfl, rfl⟩
      · cases heq
      · exact absurd hk hkept
    obtain ⟨rfl, rfl⟩ := honly i n hx
    exact ⟨l₁, d, l₂, hl, rfl, rfl, hd, fun x hx j hj => (honly j _ (hj ▸ hx)).1⟩

theorem taken_put (hc : c ∈ s.sessions) (hid : c'.id = c.id) (hheld : c.held ⊆ c'.held) {n : ℕ}
    {d : Delivery} (h : Taken s n d) : Taken (s.put c') n d := by
  obtain ⟨e, he, hne, hlock⟩ := h
  by_cases hec : e = c
  · subst hec
    exact ⟨c', (Sys.mem_put hc hid).mpr (.inr rfl), hid ▸ hne,
      hlock.imp (fun h => hheld h) fun h => hheld h⟩
  · exact ⟨e, (Sys.mem_put hc hid).mpr (.inl ⟨he, hec⟩), hne, hlock⟩

/-- A row lock that is not free belongs to a claim that took the row first. -/
theorem Claims.blocked_row (hs : Claims t db Z s) {n : ℕ} {d : Delivery}
    (hf : ¬s.Free n (.delivery d.id .update)) : Taken s n d := by
  simp only [Sys.Free, not_forall, Bool.not_eq_false] at hf
  obtain ⟨e, he, hne, x, hx, hconf⟩ := hf
  obtain ⟨w, draw, -, -, hst⟩ := hs.stage e he
  cases x with
  | delivery j mode =>
    have hconf : (decide (d.id = j) && RowLock.conflict .update mode) = true := hconf
    obtain rfl := of_decide_eq_true (Bool.and_eq_true_iff.mp hconf).1
    exact ⟨e, he, hne, .inl (hst.row_lock hx)⟩
  | _ => cases hconf

/-- So does an endpoint lock. -/
theorem Claims.blocked_endpoint (hs : Claims t db Z s) {n : ℕ} {d : Delivery}
    (hf : ¬s.Free n (.endpoint d.endpointId .update)) : Taken s n d := by
  simp only [Sys.Free, not_forall, Bool.not_eq_false] at hf
  obtain ⟨e, he, hne, x, hx, hconf⟩ := hf
  obtain ⟨w, draw, -, -, hst⟩ := hs.stage e he
  cases x with
  | endpoint j mode =>
    have hconf : (decide (d.endpointId = j) && RowLock.conflict .update mode) = true := hconf
    obtain rfl := of_decide_eq_true (Bool.and_eq_true_iff.mp hconf).1
    obtain ⟨-, -, -, -, -, rfl, -⟩ := hst.endpoint_lock hx
    exact ⟨e, he, hne, .inr hx⟩
  | _ => cases hconf

/-- The next statement of a claim. -/
theorem Claims.next (hs : Claims t db Z s) (hc : c ∈ s.sessions)
    (hreq : c.req = .claimOne w draw) (hst : Stage db Z s w draw c)
    (hn : s.next c = some (m, s')) (hm : m.Statement c.id)
    (hZ : ∀ c' ∈ s'.sessions, ∀ d, PassedOver db c' d →
      Lock.delivery d.id .update ∈ c'.held → Z c'.id d) :
    ∃ c', s' = s.put c' ∧ c'.id = c.id ∧ c'.req = c.req ∧ c.held ⊆ c'.held ∧
      Stage db Z s' w draw c' := by
  have hcons : ∀ x : Lock, c.held ⊆ x :: c.held := fun x => List.subset_cons_self x c.held
  cases hst with
  | opened hp hw hh =>
    rw [Sys.next_read hp] at hn
    obtain ⟨-, rfl⟩ := Prod.mk.inj (Option.some.inj hn)
    refine ⟨_, rfl, rfl, rfl, fun _ h => h, .selecting [] (claimCandidates draw.clock db) rfl ?_ hw
      (by simp) (by simp [hh])⟩
    show selecting w draw (claimCandidates draw.clock (view c.writes s.db)) = _
    rw [hw, view_nil, hs.store]
  | selecting l₁ l₂ hl hp hw hpast hh =>
    cases l₂ with
    | nil =>
      rw [Sys.next, hp, selecting_nil] at hn
      obtain ⟨rfl, -⟩ := Prod.mk.inj (Option.some.inj hn)
      exact hm.elim
    | cons d l₂ =>
      rw [Sys.next_tryLock (hp.trans selecting_cons)] at hn
      split at hn
      · obtain ⟨-, rfl⟩ := Prod.mk.inj (Option.some.inj hn)
        refine ⟨_, rfl, rfl, rfl, hcons _, .testing l₁ d l₂ hl rfl hw
          (fun d hd => taken_put hc (by rfl) (by exact hcons _) (hpast d hd)) List.mem_cons_self ?_⟩
        intro x hx
        exact (List.mem_cons.mp hx).imp id (hh x)
      · rename_i hfree
        obtain ⟨-, rfl⟩ := Prod.mk.inj (Option.some.inj hn)
        refine ⟨_, rfl, rfl, rfl, fun _ h => h, .selecting (l₁ ++ [d]) l₂ (by simp [hl]) rfl hw ?_
          fun x hx => (hh x hx).mono (List.subset_append_left _ _)⟩
        intro d' hd'
        refine taken_put hc (by rfl) (by exact fun _ h => h) ?_
        rcases List.mem_append.mp hd' with hd' | hd'
        · exact hpast d' hd'
        · obtain rfl := List.mem_singleton.mp hd'
          exact hs.blocked_row hfree
  | testing l₁ d l₂ hl hp hw hpast hd hh =>
    rw [Sys.next_tryLock (hp.trans testing_eq)] at hn
    split at hn
    · obtain ⟨-, rfl⟩ := Prod.mk.inj (Option.some.inj hn)
      refine ⟨_, rfl, rfl, rfl, hcons _, .rereading l₁ d l₂ hl rfl hw
        (fun d hd => taken_put hc (by rfl) (by exact hcons _) (hpast d hd)) (List.mem_cons_of_mem _ hd)
        List.mem_cons_self ?_⟩
      intro x hx
      exact (List.mem_cons.mp hx).imp id (hh x)
    · rename_i hfree
      obtain ⟨-, rfl⟩ := Prod.mk.inj (Option.some.inj hn)
      have hl' : claimCandidates draw.clock db = (l₁ ++ [d]) ++ l₂ := by simp [hl]
      refine ⟨_, rfl, rfl, rfl, fun _ h => h, .selecting (l₁ ++ [d]) l₂ hl' rfl hw ?_ ?_⟩
      · intro d' hd'
        refine taken_put hc (by rfl) (by exact fun _ h => h) ?_
        rcases List.mem_append.mp hd' with hd' | hd'
        · exact hpast d' hd'
        · obtain rfl := List.mem_singleton.mp hd'
          exact hs.blocked_endpoint hfree
      · intro x hx
        rcases hh x hx with rfl | hk
        · -- The row lock of a delivery whose endpoint is taken stays with the claim.
          refine ⟨d, by simp, rfl, hZ _ ((Sys.mem_put hc (by rfl)).mpr (.inr (by rfl))) d ?_ hd⟩
          exact ⟨w, draw, l₁ ++ [d], l₂, hreq, hl', by simp, rfl⟩
        · exact hk.mono (List.subset_append_left _ _)
  | rereading l₁ d l₂ hl hp hw hpast hd he hh =>
    rw [Sys.next_read (hp.trans rereading_eq)] at hn
    obtain ⟨-, rfl⟩ := Prod.mk.inj (Option.some.inj hn)
    have hmem : d ∈ claimCandidates draw.clock db := by simp [hl]
    have hmem := (mem_claimCandidates.mp hmem).1
    refine ⟨_, rfl, rfl, rfl, fun _ h => h, .chosen l₁ d l₂ hl ?_
      (fun d hd => taken_put hc (by rfl) (by exact fun _ h => h) (hpast d hd)) hd he fun x hx => .inr (hh x hx)⟩
    simp only [hw, view_nil, hs.store, Table.get?_key hmem, decide_true, Bool.true_or, if_true]
    exact .refl
  | chosen l₁ d l₂ hl hp hpast hd he hh =>
    obtain ⟨c', rfl, hadv⟩ := Sys.next_advances hn hm
    refine ⟨c', rfl, hadv.id, hadv.req, hadv.held, .chosen l₁ d l₂ hl (hp.tail hadv.answers)
      (fun d hd => ?_) (hadv.held hd) (hadv.held he) fun x hx => ?_⟩
    · rw [hadv.id]
      exact taken_put hc hadv.id hadv.held (hpast d hd)
    · rcases hadv.locks _ (chosen_afterSelection.leaves hp).locks x hx with hx | hx
      · rw [hadv.id]
        exact hh x hx
      · exact .inl hx

theorem Claims.act (hs : Claims t db Z s) {x : Action ℕ Request} {ls : List Shown}
    (hx : s.act (Request.code lib) x = some (m, s')) (hm : Claiming t ls s m s')
    (hZ : ∀ c ∈ s'.sessions, ∀ d, PassedOver db c d → Lock.delivery d.id .update ∈ c.held →
      Z c.id d) : Claims t db Z s' := by
  have hapart := Sys.act_apart lock_conflict_symm hx hs.apart
  cases x with
  | start n r =>
    simp only [Sys.act] at hx
    split at hx
    · cases hx
    · simp only [Option.some.injEq, Prod.mk.injEq] at hx
      obtain ⟨rfl, rfl⟩ := hx
      refine ⟨hs.store, hapart, fun c hc => ?_⟩
      rcases Table.mem_of_mem_insert hc with hc | rfl
      · obtain ⟨w, draw, hreq, hclock, hst⟩ := hs.stage c hc
        refine ⟨w, draw, hreq, hclock, hst.mono fun d => ?_⟩
        rintro ⟨e, he, h⟩
        exact ⟨e, Table.mem_insert_of_mem he, h⟩
      · cases r with
        | claimOne w draw => exact ⟨w, draw, rfl, hm, .opened (code_claimOne lib) rfl rfl⟩
        | _ => exact hm.elim
  | next n =>
    obtain ⟨c, hc, hn⟩ := Option.bind_eq_some_iff.mp hx
    obtain ⟨hc, -⟩ := Table.get?_eq_some.mp hc
    have hstmt : m.Statement c.id := by
      rcases Sys.next_cases hn with ⟨a, -, rfl, -⟩ | ⟨e, -, rfl, -⟩ | ⟨hstmt, -⟩
      · exact hm.elim
      · exact hm.elim
      · exact hstmt
    obtain ⟨w, draw, hreq, hclock, hst⟩ := hs.stage c hc
    obtain ⟨c', rfl, hid, hreq', hheld, hst'⟩ := hs.next hc hreq hst hn hstmt hZ
    refine ⟨hs.store, hapart, fun e he => ?_⟩
    rcases (Sys.mem_put hc hid).mp he with ⟨he, -⟩ | rfl
    · obtain ⟨w, draw, hreq, hclock, hst⟩ := hs.stage e he
      exact ⟨w, draw, hreq, hclock, hst.mono fun d => taken_put hc hid hheld⟩
    · exact ⟨w, draw, hreq'.trans hreq, hclock, hst'⟩
  | abort n =>
    simp only [Sys.act] at hx
    split at hx
    · simp only [Option.some.injEq, Prod.mk.injEq] at hx
      obtain ⟨rfl, -⟩ := hx
      exact hm.elim
    · cases hx

theorem together_claims {ls : List Shown} (hr : Together lib t db ls s)
    (hZ : ∀ ls s, Together lib t db ls s → ∀ c ∈ s.sessions, ∀ d, PassedOver db c d →
      Lock.delivery d.id .update ∈ c.held → Z c.id d) : Claims t db Z s := by
  induction hr with
  | nil =>
    refine ⟨rfl, Sys.idle_apart db, fun c hc => ?_⟩
    exact absurd hc (Table.not_mem_empty c)
  | snoc hr hx hm ih => exact ih.act hx hm (hZ _ _ (.snoc hr hx hm))

/-! ## Claims whose selections are over -/

/-- Such a claim passed over everything or holds the delivery it selected. -/
theorem selection_over (h : Stage db Z s w draw c) (hreq : c.req = .claimOne w draw)
    (hc : HasChosen c) :
    (c.prog = selecting w draw [] ∧ (∀ d ∈ claimCandidates draw.clock db, Taken s c.id d) ∧
      ∀ x ∈ c.held, Kept Z c.id (claimCandidates draw.clock db) x) ∨
    ∃ l₁ d l₂, claimCandidates draw.clock db = l₁ ++ d :: l₂ ∧ Selected c d ∧
      Lock.delivery d.id .update ∈ c.held ∧ Lock.endpoint d.endpointId .update ∈ c.held ∧
      (∀ d ∈ l₁, Taken s c.id d) ∧ ∀ i, Lock.delivery i .update ∈ c.held →
        i = d.id ∨ Kept Z c.id l₁ (.delivery i .update) := by
  obtain ⟨w', draw', o, hreq', hleft⟩ := hc
  obtain ⟨rfl, rfl⟩ := Request.claimOne.inj (hreq'.symm.trans hreq)
  -- It has nothing more to do, or goes on with a delivery.
  have hover : c.prog = .done (.claimed none) ∨ ∃ i, Chosen i c.prog := by
    cases o with
    | none =>
      rcases hleft.cases_head with hp | ⟨q, hq, -⟩
      · exact .inl hp.symm
      · cases hq
    | some d => exact .inr ⟨d.id, chosen_afterSelection.leaves hleft⟩
  cases h with
  | opened hp hw hh =>
    rcases hover with hp' | ⟨i, hi⟩
    · cases hp.symm.trans hp'
    · rw [hp] at hi
      exact absurd (hi.answers (.read _ _ Db.empty)) not_chosen_selecting
  | selecting l₁ l₂ hl hp hw hpast hh =>
    cases l₂ with
    | nil =>
      rw [List.append_nil] at hl
      exact .inl ⟨hp, hl ▸ hpast, hl ▸ hh⟩
    | cons d l₂ =>
      rcases hover with hp' | ⟨i, hi⟩
      · rw [hp, selecting_cons] at hp'
        cases hp'
      · exact absurd (hp ▸ hi) not_chosen_selecting
  | testing l₁ d l₂ hl hp hw hpast hd hh =>
    rcases hover with hp' | ⟨i, hi⟩
    · rw [hp, testing_eq] at hp'
      cases hp'
    · exact absurd (hp ▸ hi) not_chosen_testing
  | rereading l₁ d l₂ hl hp hw hpast hd he hh =>
    rcases hover with hp' | ⟨i, hi⟩
    · rw [hp, rereading_eq] at hp'
      cases hp'
    · exact absurd (hp ▸ hi) not_chosen_rereading
  | chosen l₁ d l₂ hl hp hpast hd he hh =>
    refine .inr ⟨l₁, d, l₂, hl, ⟨w', draw', hreq, hp, hd⟩, hd, he, hpast, fun i hi => ?_⟩
    rcases hh _ hi with hlater | heq | heq | hk
    · exact absurd rfl (hlater.delivery i _ rfl).2
    · cases heq
    · cases heq
      exact .inl rfl
    · exact .inr hk

/-- When every selection is over, the endpoint of each delivery that a claim
passed over is held by a claim. -/
theorem Claims.endpoint_held (hs : Claims t db Z s) (hover : ∀ c ∈ s.sessions, HasChosen c)
    {n : ℕ} {d : Delivery} (hd : d ∈ db.deliveries) (h : Taken s n d) :
    ∃ c ∈ s.sessions, Lock.endpoint d.endpointId .update ∈ c.held := by
  obtain ⟨c, hc, -, hrow | hep⟩ := h
  · -- `c` holds the row of `d`: it selected `d`, or found the endpoint taken.
    have hpast : ∀ {l : List Delivery}, l ⊆ db.deliveries.rows → (∀ d ∈ l, Taken s c.id d) →
        Kept Z c.id l (.delivery d.id .update) →
        ∃ c ∈ s.sessions, Lock.endpoint d.endpointId .update ∈ c.held := by
      rintro l hl htaken ⟨d', hd', heq, -⟩
      obtain rfl : d = d' := Table.eq_of_key hd (hl hd') (Lock.delivery.inj heq).1
      obtain ⟨c', hc', hne, hrow' | hep⟩ := htaken d hd'
      · exact absurd (congrArg Session.id (hs.apart.eq hc' hc hrow' hrow (by simp [Engine.conflict, Lock.conflict, RowLock.conflict]))) hne
      · exact ⟨c', hc', hep⟩
    obtain ⟨w, draw, hreq, -, hst⟩ := hs.stage c hc
    have hsub : claimCandidates draw.clock db ⊆ db.deliveries.rows :=
      fun d hd => (mem_claimCandidates.mp hd).1
    rcases selection_over hst hreq (hover c hc) with ⟨-, htaken, hheld⟩ |
      ⟨l₁, d₀, l₂, hl, -, -, hep, htaken, hheld⟩
    · exact hpast hsub htaken (hheld _ hrow)
    · rcases hheld _ hrow with hid | hk
      · have hmem : d₀ ∈ claimCandidates draw.clock db := by simp [hl]
        obtain rfl : d = d₀ := Table.eq_of_key hd (hsub hmem) hid
        exact ⟨c, hc, hep⟩
      · refine hpast (fun x hx => hsub ?_) htaken hk
        rw [hl]
        exact List.mem_append_left _ hx
  · exact ⟨c, hc, hep⟩

/-- Claims that each selected a delivery, with clocks that stand still, are no
more than the endpoints with work. -/
theorem Claims.le_dueEndpoints (hs : Claims t db Z s)
    (hclock : ∀ c ∈ s.sessions, ∀ w draw, c.req = .claimOne w draw → ∀ i, draw.clock i = t)
    (hover : ∀ c ∈ s.sessions, HasChosen c)
    (hall : ∀ c ∈ s.sessions, ∀ w draw, c.prog ≠ selecting w draw []) :
    s.sessions.rows.length ≤ (dueEndpoints t db).card := by
  refine hs.apart.length_le (Lock.endpoint · .update)
    (fun i => by simp [Engine.conflict, Lock.conflict, RowLock.conflict]) _ fun c hc => ?_
  obtain ⟨w, draw, hreq, -, hst⟩ := hs.stage c hc
  rcases selection_over hst hreq (hover c hc) with ⟨hp, -⟩ | ⟨l₁, d, l₂, hl, -, -, hep, -⟩
  · exact absurd hp (hall c hc w draw)
  · have hmem : d ∈ claimCandidates draw.clock db := by simp [hl]
    obtain ⟨hd, hel⟩ := mem_claimCandidates.mp hmem
    rw [hclock c hc w draw hreq] at hel
    exact ⟨d.endpointId, mem_dueEndpoints.mpr ⟨d, hd, hel, rfl⟩, hep⟩

/-- A claim that selected nothing found every eligible delivery taken. -/
theorem selected_nothing (h : Stage db Z s w draw c) (hreq : c.req = .claimOne w draw)
    (hp : c.prog = selecting w draw []) :
    (∀ d ∈ claimCandidates draw.clock db, Taken s c.id d) ∧ ∀ i, Lock.endpoint i .update ∉ c.held := by
  have hc : HasChosen c := ⟨w, draw, none, hreq, hp ▸ .refl⟩
  rcases selection_over h hreq hc with ⟨-, htaken, hheld⟩ | ⟨l₁, d, l₂, hl, hsel, -⟩
  · refine ⟨htaken, fun i hi => ?_⟩
    obtain ⟨d, -, hx, -⟩ := hheld _ hi
    cases hx
  · obtain ⟨w', draw', -, hleft, -⟩ := hsel
    exact absurd (hp ▸ chosen_afterSelection.leaves hleft) not_chosen_selecting

/-- A claim that selected nothing leaves fewer endpoints with work than claims. -/
theorem Claims.dueEndpoints_lt (hs : Claims t db Z s) (hover : ∀ c ∈ s.sessions, HasChosen c)
    (hc : c ∈ s.sessions) (hreq : c.req = .claimOne w draw) (hp : c.prog = selecting w draw []) :
    (dueEndpoints t db).card < s.sessions.rows.length := by
  obtain ⟨w', draw', hreq', hclock, hst⟩ := hs.stage c hc
  obtain ⟨rfl, rfl⟩ := Request.claimOne.inj (hreq'.symm.trans hreq)
  obtain ⟨htaken, hnone⟩ := selected_nothing hst hreq hp
  refine Sys.card_lt_of_held (Lock.endpoint · .update) _ hc (fun i hi => ?_)
    fun e he i _ j _ hi hj => ?_
  · obtain ⟨d, hd, hel, rfl⟩ := mem_dueEndpoints.mp hi
    have hmem := mem_claimCandidates.mpr ⟨hd, eligible_mono (hclock d.id) hel⟩
    obtain ⟨e, he, hep⟩ := hs.endpoint_held hover hd (htaken d hmem)
    refine ⟨e, he, fun hid => ?_, hep⟩
    obtain rfl := Table.eq_of_key he hc hid
    exact hnone _ hep
  · obtain ⟨w, draw, -, -, hst⟩ := hs.stage e he
    obtain ⟨-, -, -, -, -, -, -, honly⟩ := hst.endpoint_lock hj
    exact honly _ hi i rfl

/-- What a claim passed over was taken. -/
theorem PassedOver.taken (hs : Claims t db Z s) (hc : c ∈ s.sessions) {d : Delivery}
    (h : PassedOver db c d) : Taken s c.id d ∧ ∃ w draw, c.req = .claimOne w draw ∧
      (∀ i, t ≤ draw.clock i) ∧ d ∈ claimCandidates draw.clock db := by
  obtain ⟨w', draw', l₁, l₂, hreq', hl, hd, hp⟩ := h
  obtain ⟨w, draw, hreq, hclock, hst⟩ := hs.stage c hc
  obtain ⟨rfl, rfl⟩ := Request.claimOne.inj (hreq'.symm.trans hreq)
  refine ⟨?_, w', draw', hreq, hclock, hl ▸ List.mem_append_left l₂ hd⟩
  cases hst with
  | opened hp' hw hh =>
    rw [hp'] at hp
    cases l₂ with
    | nil => cases hp
    | cons d₂ l₂ =>
      rw [selecting_cons] at hp
      cases hp
  | selecting l₁' l₂' hl' hp' hw hpast hh =>
    -- Both lists are what is left of the candidates from one delivery on.
    suffices hsame : l₁ = l₁' from hpast d (hsame ▸ hd)
    have heq : l₁ ++ l₂ = l₁' ++ l₂' := hl.symm.trans hl'
    have hprog := hp.symm.trans hp'
    cases l₂ with
    | nil =>
      cases l₂' with
      | nil => simpa using heq
      | cons d' l₂' =>
        rw [selecting_cons] at hprog
        cases hprog
    | cons d₂ l₂ =>
      cases l₂' with
      | nil =>
        rw [selecting_cons] at hprog
        cases hprog
      | cons d' l₂' =>
        rw [selecting_cons, selecting_cons] at hprog
        have hid : d₂.id = d'.id := (Lock.delivery.inj (Txn.tryLock.inj hprog).1).1
        have hnodup : ((claimCandidates draw'.clock db).map Delivery.id).Nodup :=
          nodup_claimCandidates
        have hmap : l₁.map Delivery.id ++ d₂.id :: l₂.map Delivery.id =
            l₁'.map Delivery.id ++ d₂.id :: l₂'.map Delivery.id := by
          have := congrArg (List.map Delivery.id) heq
          rwa [List.map_append, List.map_append, List.map_cons, List.map_cons, ← hid] at this
        have hlen : l₁.length = l₁'.length := by
          rw [hl, List.map_append, List.map_cons] at hnodup
          have hnodup' := hmap ▸ hnodup
          have h₁ := (List.append_cons_inj_of_notMem
            (fun h => (List.nodup_append.mp hnodup').2.2 _ h _ List.mem_cons_self rfl)
            (List.nodup_cons.mp (List.nodup_append.mp hnodup').2.1).1).mp hmap.symm
          simpa using (congrArg List.length h₁.1).symm
        exact (List.append_inj heq hlen).1
  | testing l₁' d' l₂' hl' hp' hw hpast hd' hh =>
    rw [hp', testing_eq] at hp
    cases l₂ with
    | nil => cases hp
    | cons d₂ l₂ =>
      rw [selecting_cons] at hp
      cases (Txn.tryLock.inj hp).1
  | rereading l₁' d' l₂' hl' hp' hw hpast hd' he hh =>
    rw [hp', rereading_eq] at hp
    cases l₂ with
    | nil => cases hp
    | cons d₂ l₂ =>
      rw [selecting_cons] at hp
      cases hp
  | chosen l₁' d' l₂' hl' hp' hpast hd' he hh =>
    exact absurd (hp ▸ chosen_afterSelection.leaves hp') not_chosen_selecting

end Stage

/-! ## Every claim can end its selection -/

/-- The transaction `c` of `s` has become `c'` in `s'`; the others stayed. -/
structure Replaced (s : System) (c : OpenTx) (s' : System) (c' : OpenTx) : Prop where
  id : c'.id = c.id
  req : c'.req = c.req
  mem : ∀ e, e ∈ s'.sessions ↔ (e ∈ s.sessions ∧ e.id ≠ c.id) ∨ e = c'
  length : s'.sessions.rows.length = s.sessions.rows.length

section Progress

variable {lib : Lib} {t : Time} {db : Db} {s s' : System} {w : DeliveryWorker} {draw : ClaimDraw}
  {c c' : OpenTx} {ls : List Shown}

theorem Replaced.put (hc : c ∈ s.sessions) (hid : c'.id = c.id) (hreq : c'.req = c.req) :
    Replaced s c (s.put c') c' where
  id := hid
  req := hreq
  mem e := by
    rw [Sys.mem_put hc hid]
    refine or_congr_left (and_congr_right fun he => not_congr ⟨?_, Table.eq_of_key he hc⟩)
    rintro rfl
    rfl
  length := by simp [Sys.put, Table.set]

theorem Replaced.trans {s'' : System} {c'' : OpenTx} (h : Replaced s c s' c')
    (h' : Replaced s' c' s'' c'') : Replaced s c s'' c'' where
  id := h'.id.trans h.id
  req := h'.req.trans h.req
  mem e := by
    rw [h'.mem, h.mem, h.id]
    constructor
    · rintro (⟨⟨he, -⟩ | rfl, hne⟩ | rfl)
      · exact .inl ⟨he, hne⟩
      · exact absurd h.id hne
      · exact .inr rfl
    · rintro (⟨he, hne⟩ | rfl)
      · exact .inl ⟨.inl ⟨he, hne⟩, hne⟩
      · exact .inr rfl
  length := h'.length.trans h.length

/-- One statement of `c` in a run of claims. -/
theorem Claiming.next (hc : c ∈ s.sessions) (hn : s.next c = some (.tau c.id, s.put c')) :
    Sys.Run (Request.code lib) (Claiming t) ls s (ls ++ [.tau c.id]) (s.put c') := by
  refine Sys.Run.snoc .nil (x := .next c.id) ?_ trivial
  show (s.sessions.get? c.id).bind s.next = _
  rw [Table.get?_key hc]
  exact hn

theorem Replaced.refl (hc : c ∈ s.sessions) : Replaced s c s c where
  id := rfl
  req := rfl
  mem e := by
    constructor
    · intro he
      by_cases hid : e.id = c.id
      · exact .inr (Table.eq_of_key he hc hid)
      · exact .inl ⟨he, hid⟩
    · rintro (⟨he, -⟩ | rfl)
      · exact he
      · exact hc
  length := rfl

/-- A run in which only the transaction `c` of `s` has moved, to `c'`. -/
def Proceeds (lib : Lib) (t : Time) (ls : List Shown) (s : System) (c c' : OpenTx) : Prop :=
  ∃ ls' s', Sys.Run (Request.code lib) (Claiming t) ls s ls' s' ∧ Replaced s c s' c'

theorem Proceeds.tryLock (h : Proceeds lib t ls s c c') {i : Lock} {k : Bool → Tx Response}
    (hp : c'.prog = .tryLock i k) : ∃ b c'', Proceeds lib t ls s c c'' ∧ c''.prog = k b := by
  obtain ⟨ls', s', hr, hrep⟩ := h
  have hc' : c' ∈ s'.sessions := (hrep.mem c').mpr (.inr rfl)
  have hn := Sys.next_tryLock (s := s') hp
  split at hn
  · exact ⟨true, _, ⟨_, _, hr.trans (Claiming.next hc' hn), hrep.trans (.put hc' rfl rfl)⟩, rfl⟩
  · exact ⟨false, _, ⟨_, _, hr.trans (Claiming.next hc' hn), hrep.trans (.put hc' rfl rfl)⟩, rfl⟩

theorem Proceeds.read (h : Proceeds lib t ls s c c') {n : Db → Option (List UUID)} {k : Db → Tx Response}
    (hp : c'.prog = .read n k) : ∃ d c'', Proceeds lib t ls s c c'' ∧ c''.prog = k d := by
  obtain ⟨ls', s', hr, hrep⟩ := h
  have hc' : c' ∈ s'.sessions := (hrep.mem c').mpr (.inr rfl)
  have hn := Sys.next_read (s := s') hp
  exact ⟨_, _, ⟨_, _, hr.trans (Claiming.next hc' hn), hrep.trans (.put hc' rfl rfl)⟩, rfl⟩

theorem Proceeds.selection (h : Proceeds lib t ls s c c') (hreq : c.req = .claimOne w draw)
    {l : List Delivery} (hp : c'.prog = selecting w draw l) :
    ∃ c'', Proceeds lib t ls s c c'' ∧ HasChosen c'' := by
  have hover : ∀ {c₁ o}, Proceeds lib t ls s c c₁ → c₁.prog = afterSelection w draw o →
      ∃ c'', Proceeds lib t ls s c c'' ∧ HasChosen c'' := by
    rintro c₁ o ⟨ls₁, s₁, hr, hrep⟩ hp₁
    exact ⟨c₁, ⟨ls₁, s₁, hr, hrep⟩, w, draw, o, hrep.req.trans hreq, hp₁ ▸ .refl⟩
  induction l generalizing c' with
  | nil => exact hover h (o := none) hp
  | cons d l ih =>
    obtain ⟨b, c₁, h₁, hp₁⟩ := h.tryLock (hp.trans selecting_cons)
    cases b with
    | false => exact ih h₁ hp₁
    | true =>
      obtain ⟨b, c₂, h₂, hp₂⟩ := h₁.tryLock (hp₁.trans testing_eq)
      cases b with
      | false => exact ih h₂ hp₂
      | true =>
        obtain ⟨x, c₃, h₃, hp₃⟩ := h₂.read (hp₂.trans rereading_eq)
        split at hp₃
        · exact ih h₃ hp₃
        · split at hp₃
          · exact hover h₃ hp₃
          · exact ih h₃ hp₃

/-- A claim whose clock stands still. -/
def frozen (t : Time) : ClaimDraw where
  now := t
  clock := fun _ => t
  reclock := fun _ => t
  leaseToken := 0
  attemptId := 0
  transactionNow := t

variable (lib t db w) in
/-- Any number of claims can be open together with their selections over. -/
theorem exists_together (k : ℕ) : ∃ ls s, Together lib t db ls s ∧ s.sessions.rows.length = k ∧
    ∀ c ∈ s.sessions, c.id < k ∧ HasChosen c ∧ c.req = .claimOne w (frozen t) := by
  induction k with
  | zero => exact ⟨[], .idle db, .nil, rfl, fun c hc => absurd hc (Table.not_mem_empty c)⟩
  | succ k ih =>
    obtain ⟨ls, s, hr, hlen, hall⟩ := ih
    let r : Request := .claimOne w (frozen t)
    let c : OpenTx := Sys.opened (Request.code lib) s k r
    have hfresh : s.sessions.Fresh k := fun e he => (hall e he).1.ne
    have hact : s.act (Request.code lib) (.start k r) =
        some (.start k r, { s with sessions := s.sessions.insert c }) := by
      rw [Sys.act, Table.get?_eq_none.mpr hfresh]
    have hr₁ : Together lib t db (ls ++ [.start k r]) { s with sessions := s.sessions.insert c } :=
      .snoc hr hact fun _ => le_refl t
    have hmem : ∀ e, e ∈ s.sessions.insert c ↔ e ∈ s.sessions ∨ e = c := fun e =>
      Table.mem_insert hfresh
    have hmoves : Proceeds lib t (ls ++ [.start k r]) { s with sessions := s.sessions.insert c } c c :=
      ⟨_, _, .nil, .refl ((hmem c).mpr (.inr rfl))⟩
    obtain ⟨x, c₁, h₁, hp₁⟩ := hmoves.read (code_claimOne lib)
    obtain ⟨c₂, ⟨ls', s', hr', hrep⟩, hch⟩ := h₁.selection rfl hp₁
    refine ⟨ls', s', hr₁.trans hr', ?_, fun e he => ?_⟩
    · rw [hrep.length]
      exact (Table.length_insert hfresh).trans (congrArg (· + 1) hlen)
    · rcases (hrep.mem e).mp he with ⟨he, hne⟩ | rfl
      · rcases (hmem e).mp he with he | rfl
        · exact ⟨(hall e he).1.trans (Nat.lt_succ_self k), (hall e he).2⟩
        · exact absurd rfl hne
      · exact ⟨hrep.id ▸ Nat.lt_succ_self k, hch, hrep.req⟩

end Progress

/-! ## How many claims find work -/

section Result

variable {lib : Lib} {t : Time} {db : Db} {s : System} {ls : List Shown}

theorem together_stages (hr : Together lib t db ls s) : Claims t db (fun _ _ => True) s :=
  together_claims hr fun _ _ _ _ _ _ _ _ => trivial

theorem selected_unique (hr : Together lib t db ls s) {c c' : OpenTx} (hc : c ∈ s.sessions)
    (hc' : c' ∈ s.sessions) {d : Delivery} (h : Selected c d) (h' : Selected c' d) : c = c' := by
  obtain ⟨-, -, -, -, hd⟩ := h
  obtain ⟨-, -, -, -, hd'⟩ := h'
  exact (together_stages hr).apart.eq hc hc' hd hd'
    (by simp [Engine.conflict, Lock.conflict, RowLock.conflict])

theorem Selected.not_selecting {c : OpenTx} {d : Delivery} (h : Selected c d) {w : DeliveryWorker}
    {draw : ClaimDraw} {l : List Delivery} : c.prog ≠ selecting w draw l := by
  obtain ⟨w', draw', -, hleft, -⟩ := h
  exact fun hp => not_chosen_selecting (hp ▸ chosen_afterSelection.leaves hleft)

theorem SelectsApart.le (w : DeliveryWorker) {k : ℕ} (h : SelectsApart lib t db k) :
    k ≤ (dueEndpoints t db).card := by
  obtain ⟨ls, s, hr, hlen, hall⟩ := exists_together lib t db w k
  obtain ⟨hsel, -⟩ := h ls s hr hlen fun c hc => (hall c hc).2.1
  rw [← hlen]
  refine (together_stages hr).le_dueEndpoints (fun c hc w' draw' hreq i => ?_)
    (fun c hc => (hall c hc).2.1) fun c hc w' draw' hp => ?_
  · obtain ⟨rfl, rfl⟩ := Request.claimOne.inj (hreq.symm.trans (hall c hc).2.2)
    rfl
  · obtain ⟨d, -, hd, -⟩ := hsel c hc
    exact hd.not_selecting hp

theorem selectsApart_of_le {k : ℕ} (hk : k ≤ (dueEndpoints t db).card) :
    SelectsApart lib t db k := by
  intro ls s hr hlen hover
  have hs := together_stages hr
  refine ⟨fun c hc => ?_, fun c hc c' hc' d h h' => selected_unique hr hc hc' h h'⟩
  obtain ⟨w, draw, hreq, hclock, hst⟩ := hs.stage c hc
  rcases selection_over hst hreq (hover c hc) with ⟨hp, -⟩ | ⟨l₁, d, l₂, hl, hsel, -⟩
  · have := hs.dueEndpoints_lt hover hc hreq hp
    omega
  · have hmem : d ∈ claimCandidates draw.clock db := by simp [hl]
    obtain ⟨hd, hel⟩ := mem_claimCandidates.mp hmem
    exact ⟨d, hd, hsel, w, draw, hreq, hel⟩

theorem passesOnlyLocked_of_apart (h : EndpointsApart t db) : PassesOnlyLocked lib t db := by
  intro ls s hr c hc d hd
  have hs := together_stages hr
  obtain ⟨⟨e, he, hne, hrow | hep⟩, w, draw, -, hclock, hmem⟩ := hd.taken hs hc
  · exact ⟨e, he, hne, hrow⟩
  · -- The holder of the endpoint took it with a delivery, which can only be `d`.
    obtain ⟨w', draw', -, hclock', hst⟩ := hs.stage e he
    obtain ⟨l₁, d₀, l₂, hl, hend, -, hrow, -⟩ := hst.endpoint_lock hep
    have hmem₀ : d₀ ∈ claimCandidates draw'.clock db := by simp [hl]
    obtain ⟨hd, hel⟩ := mem_claimCandidates.mp hmem
    obtain ⟨hd₀, hel₀⟩ := mem_claimCandidates.mp hmem₀
    obtain rfl := h d₀ hd₀ d hd (max (draw'.clock d₀.id) (draw.clock d.id))
      ((hclock d.id).trans (le_max_right _ _)) (eligible_mono (le_max_left _ _) hel₀)
      (eligible_mono (le_max_right _ _) hel) hend
    exact ⟨e, he, hne, hrow⟩

/-- The deliveries that are eligible at an instant. -/
def eligibleAt (now : Time) (db : Db) : Finset Delivery :=
  (db.deliveries.rows.filter (eligible now db)).toFinset

theorem mem_eligibleAt {now : Time} {d : Delivery} :
    d ∈ eligibleAt now db ↔ d ∈ db.deliveries ∧ eligible now db d = true := by
  rw [eligibleAt, List.mem_toFinset, List.mem_filter]
  rfl

theorem dueEndpoints_eq (now : Time) :
    dueEndpoints now db = (eligibleAt now db).image Delivery.endpointId := by
  ext i
  simp only [mem_dueEndpoints, Finset.mem_image, mem_eligibleAt, and_assoc]

theorem PassesOnlyLocked.apart (w : DeliveryWorker) (h : PassesOnlyLocked lib t db) :
    EndpointsApart t db := by
  intro d hd d' hd' now hnow hel hel' hend
  by_contra hne
  obtain ⟨ls, s, hr, hlen, hall⟩ := exists_together lib now db w (eligibleAt now db).card
  have hfrom : ∀ {ls s}, Together lib now db ls s → Together lib t db ls s := by
    intro ls s hr
    refine hr.mono fun {ls s m s'} hm => ?_
    cases m with
    | start n r =>
      cases r with
      | claimOne w draw => exact fun i => hnow.trans (hm i)
      | _ => exact hm
    | _ => exact hm
  -- A claim keeps no row lock of a delivery that it passed over.
  have hs : Claims now db (fun _ _ => False) s := by
    refine together_claims hr fun ls s hr c hc d hpast hrow => ?_
    obtain ⟨c', hc', hne, hrow'⟩ := h ls s (hfrom hr) c hc d hpast
    exact hne (congrArg Session.id ((together_stages hr).apart.eq hc' hc hrow' hrow
      (by simp [Engine.conflict, Lock.conflict, RowLock.conflict])))
  have hover : ∀ c ∈ s.sessions, HasChosen c := fun c hc => (hall c hc).2.1
  by_cases hnone : ∃ c ∈ s.sessions, c.prog = selecting w (frozen now) []
  · obtain ⟨c, hc, hp⟩ := hnone
    have hlt : (eligibleAt now db).card < s.sessions.rows.length := by
      refine Sys.card_lt_of_held (fun d => Lock.delivery d.id .update) _ hc (fun x hx => ?_)
        fun e he x hx y hy hex hey => ?_
      · refine h ls s (hfrom hr) c hc x ⟨w, frozen now, _, [], (hall c hc).2.2,
          (List.append_nil _).symm, ?_, hp⟩
        exact mem_claimCandidates.mpr (mem_eligibleAt.mp hx)
      · obtain ⟨w', draw', hreq, -, hst⟩ := hs.stage e he
        refine Table.eq_of_key (mem_eligibleAt.mp hx).1 (mem_eligibleAt.mp hy).1 ?_
        rcases selection_over hst hreq (hover e he) with ⟨-, -, hheld⟩ |
          ⟨l₁, d₀, l₂, -, -, -, -, -, hheld⟩
        · obtain ⟨-, -, -, hfalse⟩ := hheld _ hex
          exact hfalse.elim
        · have honly : ∀ {z : Delivery}, Lock.delivery z.id .update ∈ e.held → z.id = d₀.id := by
            intro z hz
            rcases hheld z.id hz with hid | ⟨-, -, -, hfalse⟩
            · exact hid
            · exact hfalse.elim
          exact (honly hex).trans (honly hey).symm
    omega
  · have hle := hs.le_dueEndpoints (fun c hc w' draw' hreq i => ?_) hover fun c hc w' draw' hp => ?_
    · have himage := Finset.card_image_le (s := eligibleAt now db) (f := Delivery.endpointId)
      rw [dueEndpoints_eq, hlen] at hle
      have hinj := Finset.card_image_iff.mp (le_antisymm himage hle)
      exact hne (hinj (mem_eligibleAt.mpr ⟨hd, hel⟩) (mem_eligibleAt.mpr ⟨hd', hel'⟩) hend)
    · obtain ⟨rfl, rfl⟩ := Request.claimOne.inj (hreq.symm.trans (hall c hc).2.2)
      rfl
    · exact hnone ⟨c, hc, hp⟩

end Result

/-- Claims that are open together each select a delivery of their own exactly
when the work that is due lies on as many endpoints as there are claims, and a
claim passes over due work only for the lock on its own row exactly when no two
deliveries that are due share an endpoint. -/
theorem claims_select_apart_iff (lib : Lib) (t : Time) (db : Db) :
    (∀ k, SelectsApart lib t db k ↔ k ≤ (dueEndpoints t db).card) ∧
    (PassesOnlyLocked lib t db ↔ EndpointsApart t db) := by
  let w : DeliveryWorker := ⟨Sample.settings, ""⟩
  exact ⟨fun k => ⟨SelectsApart.le w, selectsApart_of_le⟩, PassesOnlyLocked.apart w,
    passesOnlyLocked_of_apart⟩

namespace Sample

/-- The body of the event with id 12. -/
def secondBytes : Bytes := bytesOf (.obj [
  (PyStr.ofString "id", .str (PyStr.ofChars (UUID.chars 12))),
  (PyStr.ofString "type", .str (PyStr.ofString "order.created")),
  (PyStr.ofString "created_at", .str (PyStr.ofString "2026-01-01T00:00:00Z")),
  (PyStr.ofString "data", .obj order.data)])

def twoEvents : Lib :=
  { lib with sha256Hex := fun bytes =>
      if bytes = secondBytes then
        "28127de100ee8be39606536c94ecb50eb7e0a39f0857efbf4a4bee05c8bd61c1"
      else sha256Hex bytes }

/-- Two events for one endpoint. -/
def sharedEndpoint : List (Action ℕ Request) :=
  Sys.alone 0 register 2 ++ Sys.alone 1 (publish 2 3) 9 ++
  Sys.alone 2 (.publish order "order-43"
    { eventId := 12, deliveryId := 13, createdAt := epoch, transactionNow := epoch }) 9

end Sample

/-- Two deliveries are due on one endpoint, and of two claims only one finds work. -/
theorem claims_share_endpoint : ∃ ls s, Reaches Sample.twoEvents ls s ∧ s.sessions.rows = [] ∧
    2 ≤ (eligibleAt (Sample.epoch + 1) s.db).card ∧
    ¬SelectsApart Sample.twoEvents (Sample.epoch + 1) s.db 2 ∧
    ¬PassesOnlyLocked Sample.twoEvents (Sample.epoch + 1) s.db := by
  have hplay : (Sys.play (Request.code Sample.twoEvents) Ordinary [] (.idle Db.empty)
      Sample.sharedEndpoint).any (fun p => p.2.sessions.rows.isEmpty &&
        ((eligibleAt (Sample.epoch + 1) p.2.db).card = 2 &&
          (dueEndpoints (Sample.epoch + 1) p.2.db).card = 1)) = true := by decide +kernel
  obtain ⟨ls, s, hr, h⟩ := Sys.exists_run hplay
  obtain ⟨hempty, h⟩ := Bool.and_eq_true_iff.mp h
  obtain ⟨htwo, hone⟩ := Bool.and_eq_true_iff.mp h
  have htwo : (eligibleAt (Sample.epoch + 1) s.db).card = 2 := of_decide_eq_true htwo
  have hone : (dueEndpoints (Sample.epoch + 1) s.db).card = 1 := of_decide_eq_true hone
  refine ⟨ls, s, hr, List.isEmpty_iff.mp hempty, htwo.ge, fun hsel => ?_, fun hpass => ?_⟩
  · have := hsel.le (Sample.worker "a")
    omega
  · have hapart := hpass.apart (Sample.worker "a")
    have hinj : Set.InjOn Delivery.endpointId (eligibleAt (Sample.epoch + 1) s.db : Set Delivery) := by
      intro d hd d' hd' hend
      obtain ⟨hd, hel⟩ := mem_eligibleAt.mp hd
      obtain ⟨hd', hel'⟩ := mem_eligibleAt.mp hd'
      exact hapart d hd d' hd' _ le_rfl hel hel' hend
    have hcard := Finset.card_image_of_injOn hinj
    rw [← dueEndpoints_eq] at hcard
    omega

end EventHarbor
