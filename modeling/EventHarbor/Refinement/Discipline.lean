import EventHarbor.Relational.Guarded
import EventHarbor.Relational.Deadlock
import EventHarbor.Atomic.Constraints
import EventHarbor.Requests

/-!
# The order in which transactions take locks

Every transaction but a cleanup takes the locks that it waits for in the order of
their ranks. A cleanup holds the maintenance lock and takes deliveries and events
batch after batch.
-/

namespace EventHarbor

open Relational Txn EventService ReplayService DeliveryWorker Maintenance

/-! ## Ranks -/

def UniqueKey.rank : UniqueKey → ℕ
  | endpointId _ | eventId _ | eventIdempotency _ _ => 0
  | deliveryId _ | deliveryGeneration _ _ _ | deliveryReplay _ _ | deliveryActive _ _ => 3
  | attemptId _ | attemptNumber _ _ | attemptLeaseToken _ _ | attemptInProgress _ => 6

def Lock.rank : Lock → ℕ
  | event _ _ => 1
  | delivery _ _ => 2
  | endpoint _ _ => 4
  | attempt _ _ => 5
  | unique k => k.rank
  | advisory _ => 7

theorem Lock.rank_eq_of_conflict {i j : Lock} (h : i.conflict j = true) : i.rank = j.rank := by
  cases i with
  | unique k =>
    cases j with
    | unique k' => rw [of_decide_eq_true h]
    | _ => cases h
  | _ => cases j <;> first | rfl | cases h

/-- Whatever conflicts with `i` conflicts with `j`. -/
def Lock.Covers (j i : Lock) : Prop := ∀ x, i.conflict x = true → j.conflict x = true

theorem RowLock.conflict_update (m : RowLock) : RowLock.update.conflict m = true := by
  cases m <;> rfl

theorem covers_event (e : UUID) (m : RowLock) : (Lock.event e .update).Covers (.event e m) := by
  intro x hx
  cases x <;> simp_all [Lock.conflict, RowLock.conflict_update]

theorem covers_delivery (d : UUID) (m : RowLock) :
    (Lock.delivery d .update).Covers (.delivery d m) := by
  intro x hx
  cases x <;> simp_all [Lock.conflict, RowLock.conflict_update]

theorem covers_attempt (a : UUID) (m : RowLock) :
    (Lock.attempt a .update).Covers (.attempt a m) := by
  intro x hx
  cases x <;> simp_all [Lock.conflict, RowLock.conflict_update]

/-! ## Disciplines -/

def Request.isReplay : Request → Bool
  | .replay _ _ _ => true
  | _ => false

def Request.isPurge : Request → Bool
  | .purge _ _ _ => true
  | _ => false

abbrev maintenanceLock : Lock := .advisory maintenanceLockId

/-- The locks that a transaction other than a cleanup may wait for, when it has
seen the events `K` and holds `L`. -/
inductive Granted (replay : Bool) (K : Set UUID) (L : List Lock) : Lock → Prop
  /-- A lock that it holds is at least as strong. -/
  | covered {i j : Lock} (hj : j ∈ L) (h : j.Covers i) : Granted replay K L i
  /-- The event is its own: nobody else has seen it. -/
  | own {e : UUID} (h : .unique (.eventId e) ∈ L) : Granted replay K L (.event e .keyShare)
  | above {i : Lock} (hrank : ∀ j ∈ L, j.rank < i.rank)
      (hevent : ∀ e m, i = .event e m → replay = true ∧ e ∈ K)
      (hdelivery : ∀ d m, i = .delivery d m → replay = true ∨ L = [])
      (hadvisory : ∀ n, i ≠ .advisory n) : Granted replay K L i

/-- Every transaction but a cleanup. Only a replay locks events that it has seen. -/
def operation (replay : Bool) : Discipline Db Write Lock UUID where
  learns _ db := {e | replay = true ∧ ¬db.events.Fresh e}
  locks K L i := Granted replay K L i ∧ ∀ k, i ≠ .unique k
  tries _ i := (∃ d m, i = .delivery d m) ∨ ∃ e m, i = .endpoint e m
  writes K L w := (∀ i ∈ w.keys, Granted replay K L i) ∧ (∀ ids, w ≠ .deleteEvents ids) ∧
    (replay = true → ∀ e, w ≠ .insertEvent e)

/-- A cleanup: whatever it waits for, it holds the maintenance lock. -/
def cleaning : Discipline Db Write Lock UUID where
  learns L db := {e | maintenanceLock ∈ L ∧ ¬db.events.Fresh e}
  locks K L i := maintenanceLock ∈ L ∧
    ((∃ d m, i = .delivery d m) ∨ ∃ e m, i = .event e m ∧ e ∈ K)
  tries _ i := i = maintenanceLock
  writes _ L w := maintenanceLock ∈ L ∧
    ((∃ ids, w = .deleteDeliveries ids) ∨
      ∃ ids, w = .deleteEvents ids ∧ ∀ e ∈ ids, .event e .update ∈ L)

def discipline : Request → Discipline Db Write Lock UUID
  | .purge _ _ _ => cleaning
  | r => operation r.isReplay

theorem discipline_cases (r : Request) :
    (r.isPurge = true ∧ discipline r = cleaning) ∨
    (r.isPurge = false ∧ discipline r = operation r.isReplay) := by
  cases r with
  | purge cutoff batchSize maxEvents => exact .inl ⟨rfl, rfl⟩
  | _ => exact .inr ⟨rfl, rfl⟩

/-- Manual replay and retention cleanup are kept apart. -/
def Request.Compatible (r r' : Request) : Prop :=
  ¬(r.isReplay = true ∧ r'.isPurge = true) ∧ ¬(r.isPurge = true ∧ r'.isReplay = true)

instance (r r' : Request) : Decidable (r.Compatible r') := by
  unfold Request.Compatible
  infer_instance

/-! ## What open transactions know -/

/-- Only its insertion makes an event appear. -/
theorem fresh_view {ws : List Write} {db : Db} {i : UUID}
    (hws : ∀ e, .insertEvent e ∈ ws → e.id ≠ i) (h : db.events.Fresh i) :
    (view ws db).events.Fresh i := by
  induction ws generalizing db with
  | nil => exact h
  | cons w ws ih =>
    refine ih (fun e he => hws e (List.mem_cons_of_mem _ he)) ?_
    cases w with
    | insertEvent e =>
      intro e' he'
      rcases Table.mem_of_mem_insert he' with he' | rfl
      · exact h e' he'
      · exact hws e' List.mem_cons_self
    | deleteEvents ids => exact fun e he => h e (Table.mem_filter.mp he).1
    | _ => exact h

/-- Only its deletion makes an event disappear. -/
theorem present_view {ws : List Write} {db : Db} {i : UUID}
    (hws : ∀ ids, .deleteEvents ids ∈ ws → i ∉ ids) (h : ¬db.events.Fresh i) :
    ¬(view ws db).events.Fresh i := by
  induction ws generalizing db with
  | nil => exact h
  | cons w ws ih =>
    refine ih (fun ids hids => hws ids (List.mem_cons_of_mem _ hids)) fun hfresh => h ?_
    cases w with
    | insertEvent e => exact fun e' he' => hfresh e' (Table.mem_insert_of_mem he')
    | deleteEvents ids =>
      rintro e he rfl
      refine hfresh e (Table.mem_filter.mpr ⟨he, ?_⟩) rfl
      simpa using hws ids List.mem_cons_self
    | _ => exact hfresh

/-- The locks that a cleanup takes. -/
def Lock.Sweeps (i : Lock) : Prop :=
  i = maintenanceLock ∨ (∃ d m, i = .delivery d m) ∨ ∃ e m, i = .event e m

/-- What a transaction that keeps its discipline knows of the committed events,
and what its writes and locks tell of it. -/
structure Aware (db : Db) (r : Request) (K : Set UUID) (ws : List Write) (L : List Lock) :
    Prop where
  known : ∀ e ∈ K, ¬db.events.Fresh e
  steady : ∀ e ∈ K, r.isReplay = true ∨ (r.isPurge = true ∧ maintenanceLock ∈ L)
  keys : ∀ w ∈ ws, w.keys ⊆ L
  inserts : ∀ e, .insertEvent e ∈ ws → r.isReplay = false ∧ r.isPurge = false
  deletes : ∀ ids, .deleteEvents ids ∈ ws →
    r.isPurge = true ∧ maintenanceLock ∈ L ∧ ∀ e ∈ ids, .event e .update ∈ L
  events : ∀ e m, .event e m ∈ L → .unique (.eventId e) ∈ L ∨ ¬db.events.Fresh e
  own : ∀ e, .unique (.eventId e) ∈ L → db.events.Fresh e
  sweeps : r.isPurge = true → ∀ i ∈ L, i.Sweeps

section Aware

variable {db : Db} {r r' : Request} {K K' : Set UUID} {ws ws' : List Write} {L L' : List Lock}

/-- What more locks have to satisfy. -/
theorem Aware.hold (h : Aware db r K ws L) (hL : L ⊆ L')
    (hevents : ∀ e m, .event e m ∈ L' → .event e m ∈ L ∨ .unique (.eventId e) ∈ L' ∨
      ¬db.events.Fresh e)
    (hown : ∀ e, .unique (.eventId e) ∈ L' → .unique (.eventId e) ∈ L ∨ db.events.Fresh e)
    (hsweeps : r.isPurge = true → ∀ i ∈ L', i ∈ L ∨ i.Sweeps) : Aware db r K ws L' where
  known := h.known
  steady e he := (h.steady e he).imp id fun hp => ⟨hp.1, hL hp.2⟩
  keys w hw := List.Subset.trans (h.keys w hw) hL
  inserts := h.inserts
  deletes ids hids := by
    obtain ⟨hr, hm, he⟩ := h.deletes ids hids
    exact ⟨hr, hL hm, fun e hmem => hL (he e hmem)⟩
  events e m hm := by
    rcases hevents e m hm with hm | hm
    · exact (h.events e m hm).imp_left (hL ·)
    · exact hm
  own e he := (hown e he).elim (h.own e) id
  sweeps hp i hi := (hsweeps hp i hi).elim (h.sweeps hp i) id

/-- A lock on an event that a stronger lock covers. -/
theorem event_of_covers {j : Lock} {e : UUID} {m : RowLock} (h : j.Covers (.event e m)) :
    ∃ n, j = .event e n := by
  have hj : j.conflict (.event e .update) = true :=
    h _ (by cases m <;> simp [Lock.conflict, RowLock.conflict])
  cases j with
  | event e' n =>
    simp only [Lock.conflict, Bool.and_eq_true, decide_eq_true_eq] at hj
    exact ⟨n, by rw [hj.1]⟩
  | _ => cases hj

/-- Events that may be locked are there, or one's own. -/
theorem Granted.event {replay : Bool} {e : UUID} {m : RowLock}
    (hg : Granted replay K L (.event e m)) (h : Aware db r K ws L) :
    .unique (.eventId e) ∈ L ∨ ¬db.events.Fresh e := by
  generalize hi : Lock.event e m = i at hg
  cases hg with
  | covered hj hcovers =>
    obtain ⟨n, rfl⟩ := event_of_covers (hi ▸ hcovers)
    exact h.events e n hj
  | own hown =>
    obtain ⟨rfl, -⟩ := Lock.event.inj hi
    exact .inl hown
  | above _ hevent _ _ => exact .inr (h.known e (hevent e m hi.symm).2)

/-- What a write has to satisfy whose keys are held. -/
theorem Aware.wrote (h : Aware db r K ws L) {w : Write} (hkeys : w.keys ⊆ L)
    (hinserts : ∀ e, w = .insertEvent e → r.isReplay = false ∧ r.isPurge = false)
    (hdeletes : ∀ ids, w = .deleteEvents ids →
      r.isPurge = true ∧ maintenanceLock ∈ L ∧ ∀ e ∈ ids, .event e .update ∈ L) :
    Aware db r K (ws ++ [w]) L := by
  have hcases : ∀ {w'}, w' ∈ ws ++ [w] → w' ∈ ws ∨ w = w' := fun hw' =>
    (List.mem_append.mp hw').imp_right fun hw' => (List.mem_singleton.mp hw').symm
  exact { h with
    keys := fun w' hw' => (hcases hw').elim (h.keys w') fun hw' => hw' ▸ hkeys
    inserts := fun e he => (hcases he).elim (h.inserts e) (hinserts e)
    deletes := fun ids hids => (hcases hids).elim (h.deletes ids) (hdeletes ids) }

/-- The key of an event is reserved by its insertion. -/
theorem insertEvent_of_mem_keys {w : Write} {i : UUID} (h : .unique (.eventId i) ∈ w.keys) :
    ∃ e, w = .insertEvent e ∧ e.id = i := by
  cases w with
  | insertEvent e => exact ⟨e, rfl, by simpa [Write.keys, eq_comm] using h⟩
  | insertEndpoint e => simp [Write.keys] at h
  | insertDelivery d =>
    simp only [Write.keys, List.mem_cons, List.mem_append, Lock.unique.injEq, reduceCtorEq,
      false_or] at h
    rcases h with h | h
    · split at h <;> simp at h
    · split at h <;> simp at h
  | insertAttempt a =>
    simp only [Write.keys, List.mem_cons, Lock.unique.injEq, reduceCtorEq, false_or] at h
    split at h <;> simp at h
  | _ => cases h

/-- An event is inserted where it is fresh. -/
theorem fresh_of_check {e : Event} {db : Db}
    (h : Engine.check (Write.insertEvent e) db = none) : db.events.Fresh e.id := by
  have hnone : violation (Write.checks (.insertEvent e) db) = none := Option.map_eq_none_iff.mp h
  rw [violation_eq_none] at hnone
  exact of_decide_eq_true (hnone (decide (db.events.Fresh e.id), .pkEvents) (by simp [Write.checks]))

theorem upholds : Upholds discipline Request.Compatible Aware where
  start db r := ⟨fun _ h => h.elim, fun _ h => h.elim, fun _ h => absurd h List.not_mem_nil,
    fun _ h => absurd h List.not_mem_nil, fun _ h => absurd h List.not_mem_nil,
    fun _ _ h => absurd h List.not_mem_nil, fun _ h => absurd h List.not_mem_nil,
    fun _ _ h => absurd h List.not_mem_nil⟩
  read {db r K ws L} h := by
    have hnew : ∀ e ∈ (discipline r).learns L (view ws db), ¬db.events.Fresh e ∧
        (r.isReplay = true ∨ (r.isPurge = true ∧ maintenanceLock ∈ L)) := by
      intro e he
      have hsteady : ¬(view ws db).events.Fresh e ∧
          (r.isReplay = true ∨ (r.isPurge = true ∧ maintenanceLock ∈ L)) := by
        rcases discipline_cases r with ⟨hp, hd⟩ | ⟨-, hd⟩
        · rw [hd] at he
          exact ⟨he.2, .inr ⟨hp, he.1⟩⟩
        · rw [hd] at he
          exact ⟨he.2, .inl he.1⟩
      refine ⟨fun hfresh => hsteady.1 (fresh_view (fun e' he' => ?_) hfresh), hsteady.2⟩
      obtain ⟨hr, hp⟩ := h.inserts e' he'
      rcases hsteady.2 with hr' | ⟨hp', -⟩
      · rw [hr] at hr'
        cases hr'
      · rw [hp] at hp'
        cases hp'
    exact { h with
      known := fun e he => he.elim (h.known e) fun he => (hnew e he).1
      steady := fun e he => he.elim (h.steady e) fun he => (hnew e he).2 }
  lock {db r K ws L i} h hl := by
    rcases discipline_cases r with ⟨hp, hd⟩ | ⟨hp, hd⟩
    · rw [hd] at hl
      obtain ⟨hm, hi⟩ := hl
      refine h.hold (List.subset_cons_self _ _) (fun e m he => ?_) (fun e he => ?_)
        fun _ j hj => ?_
      · rcases List.mem_cons.mp he with he | he
        · rcases hi with ⟨d, m', rfl⟩ | ⟨e', m', rfl, hk⟩
          · cases he
          · obtain ⟨rfl, -⟩ := Lock.event.inj he
            exact .inr (.inr (h.known e hk))
        · exact .inl he
      · rcases List.mem_cons.mp he with he | he
        · rcases hi with ⟨d, m', rfl⟩ | ⟨e', m', rfl, -⟩ <;> cases he
        · exact .inl he
      · rcases List.mem_cons.mp hj with rfl | hj
        · exact .inr (.inr (hi.imp_right fun ⟨e, m, he, _⟩ => ⟨e, m, he⟩))
        · exact .inl hj
    · rw [hd] at hl
      refine h.hold (List.subset_cons_self _ _) (fun e m he => ?_) (fun e he => ?_)
        fun hp' => by rw [hp] at hp'; cases hp'
      · rcases List.mem_cons.mp he with rfl | he
        · exact .inr ((hl.1.event h).imp_left (List.mem_cons_of_mem _))
        · exact .inl he
      · rcases List.mem_cons.mp he with rfl | he
        · exact absurd rfl (hl.2 _)
        · exact .inl he
  tryLock {db r K ws L i} h ht := by
    have hi : (∃ d m, i = .delivery d m) ∨ (∃ e m, i = .endpoint e m) ∨ i = maintenanceLock := by
      rcases discipline_cases r with ⟨-, hd⟩ | ⟨-, hd⟩
      · rw [hd] at ht
        exact .inr (.inr ht)
      · rw [hd] at ht
        exact ht.imp_right .inl
    refine h.hold (List.subset_cons_self _ _) (fun e m he => ?_) (fun e he => ?_)
      fun hp j hj => ?_
    · rcases List.mem_cons.mp he with rfl | he
      · rcases hi with ⟨d, m, hi⟩ | ⟨d, m, hi⟩ | hi <;> cases hi
      · exact .inl he
    · rcases List.mem_cons.mp he with rfl | he
      · rcases hi with ⟨d, m, hi⟩ | ⟨d, m, hi⟩ | hi <;> cases hi
      · exact .inl he
    · rcases List.mem_cons.mp hj with rfl | hj
      · rcases discipline_cases r with ⟨-, hd⟩ | ⟨hp', -⟩
        · rw [hd] at ht
          exact .inr (.inl ht)
        · rw [hp] at hp'
          cases hp'
      · exact .inl hj
  write {db r K ws L w} h hw hcheck := by
    rcases discipline_cases r with ⟨hp, hd⟩ | ⟨hp, hd⟩
    · rw [hd] at hw
      obtain ⟨hm, ⟨ids, rfl⟩ | ⟨ids, rfl, hids⟩⟩ := hw
      · exact h.wrote (List.nil_subset _) (fun e he => by cases he) fun ids he => by cases he
      · refine h.wrote (List.nil_subset _) (fun e he => by cases he) fun ids he => ?_
        obtain rfl := Write.deleteEvents.inj he
        exact ⟨hp, hm, hids⟩
    · rw [hd] at hw
      obtain ⟨-, hdelete, hinsert⟩ := hw
      have hheld : Aware db r K ws (Engine.keys Db w ++ L) := by
        refine h.hold (List.subset_append_right _ _) (fun e m he => ?_) (fun i hi => ?_)
          fun hp' => by rw [hp] at hp'; cases hp'
        · rcases List.mem_append.mp he with he | he
          · obtain ⟨k, hk⟩ := Write.mem_keys he
            cases hk
          · exact .inl he
        · rcases List.mem_append.mp hi with hi | hi
          · obtain ⟨e, rfl, rfl⟩ := insertEvent_of_mem_keys hi
            -- It has deleted nothing, so what it does not see is not there.
            refine .inr (not_not.mp fun hthere => present_view (fun ids hids => ?_) hthere
              (fresh_of_check hcheck))
            have := (h.deletes ids hids).1
            rw [hp] at this
            cases this
          · exact .inl hi
      refine hheld.wrote (List.subset_append_left _ _) (fun e he => ⟨?_, hp⟩)
        fun ids he => absurd he (hdelete ids)
      cases hr : r.isReplay with
      | false => rfl
      | true => exact absurd he (hinsert hr e)
  commit {db r K ws L r' K' ws' L'} h h' hb hapart := by
    -- What the other transaction deletes or inserts is locked by it.
    have hlocked : ∀ {i j : Lock}, i ∈ L → j ∈ L' → i.conflict j = true → False :=
      fun hi hj hij => Bool.false_ne_true ((hapart _ hi _ hj).symm.trans hij)
    exact { h with
      known := fun e he => by
        refine present_view (fun ids hids hmem => ?_) (h.known e he)
        obtain ⟨hp', hm', -⟩ := h'.deletes ids hids
        rcases h.steady e he with hr | ⟨-, hm⟩
        · exact hb.1 ⟨hr, hp'⟩
        · exact hlocked hm hm' (by simp [Lock.conflict])
      events := fun e m hm => by
        refine (h.events e m hm).imp_right (present_view fun ids hids hmem => ?_)
        obtain ⟨-, -, hall⟩ := h'.deletes ids hids
        refine hlocked hm (hall e hmem) ?_
        rw [lock_conflict_symm]
        simp [Lock.conflict, RowLock.conflict_update]
      own := fun i hi => by
        refine fresh_view (fun e he hid => ?_) (h.own i hi)
        refine hlocked hi (h'.keys _ he (?_ : Lock.unique (.eventId i) ∈ _)) (by simp [Lock.conflict])
        simp [Write.keys, hid] }

end Aware

/-! ## Who waits for whom -/

/-- The lock that a transaction waits for is one that its discipline lets it wait for. -/
theorem wanted_granted {r : Request} {α : Type} {p : Tx α} {Q : α → Set UUID → List Lock → Prop}
    {K : Set UUID} {L : List Lock} {i : Lock} (hg : p.Guarded (discipline r) Q K L)
    (hi : i ∈ p.wanted) :
    (r.isPurge = true ∧ cleaning.locks K L i) ∨
    (r.isPurge = false ∧ Granted r.isReplay K L i) := by
  cases p with
  | lock j k =>
    obtain rfl := List.mem_singleton.mp hi
    rcases discipline_cases r with ⟨hp, hd⟩ | ⟨hp, hd⟩
    · exact .inl ⟨hp, hd ▸ hg.1⟩
    · exact .inr ⟨hp, (hd ▸ hg.1 : (operation r.isReplay).locks K L i).1⟩
  | write w k =>
    rcases discipline_cases r with ⟨hp, hd⟩ | ⟨hp, hd⟩
    · obtain ⟨-, ⟨ids, rfl⟩ | ⟨ids, rfl, -⟩⟩ : cleaning.writes K L w := hd ▸ hg.1 <;> cases hi
    · exact .inr ⟨hp, (hd ▸ hg.1 : (operation r.isReplay).writes K L w).1 i hi⟩
  | _ => cases hi

section Climbs

variable {s : System} {i k : Lock} {b c d : Session ℕ Request Db Write Lock (List UUID) Error Response}

/-- A transaction of an operation that waits has only locks of lower ranks. -/
theorem above_of_waits (hs : s.Orderly discipline Request.Compatible Aware)
    (hcd : s.WaitsOn k c d) {K : Set UUID} (hk : Aware s.db c.req K c.writes c.held)
    (hg : Granted c.req.isReplay K c.held k) :
    (∀ j ∈ c.held, j.rank < k.rank) ∧ (∀ e m, k = .event e m → c.req.isReplay = true) ∧
    (∀ d m, k = .delivery d m → c.req.isReplay = true ∨ c.held = []) ∧
    ∀ n, k ≠ .advisory n := by
  obtain ⟨hc, hd, hne, -, j, hj, hconflict⟩ := hcd
  have hlocked : ∀ {i j}, i ∈ c.held → j ∈ d.held → i.conflict j = true → False :=
    fun hi hj hij => hne (congrArg Session.id (hs.apart.eq hc hd hi hj hij)).symm
  cases hg with
  | covered hi hcovers => exact (hlocked hi hj (hcovers j hconflict)).elim
  | @own e hown =>
    exfalso
    obtain ⟨K', -, hk'⟩ := hs.keeps d hd
    have hevent : ∃ m, j = .event e m := by
      cases j with
      | event e' m => exact ⟨m, by rw [of_decide_eq_true (Bool.and_eq_true_iff.mp hconflict).1]⟩
      | _ => cases hconflict
    obtain ⟨m, rfl⟩ := hevent
    rcases hk'.events e m hj with hkey | hthere
    · exact hlocked hown hkey (decide_eq_true rfl)
    · exact hthere (hk.own e hown)
  | above hrank hevent hdelivery hadvisory =>
    exact ⟨hrank, fun e m h => (hevent e m h).1, hdelivery, hadvisory⟩

/-- Whoever is waited for waits for a lock of a higher rank. -/
theorem climbs (hs : s.Orderly discipline Request.Compatible Aware) (hbc : s.WaitsOn i b c)
    (hb : b.held ≠ []) (hcd : s.WaitsOn k c d) : i.rank < k.rank := by
  obtain ⟨hmem, hmem', hne, hi, j, hj, hconflict⟩ := id hbc
  obtain ⟨K, hg, hk⟩ := hs.keeps c hmem'
  rcases wanted_granted hg hcd.2.2.2.1 with ⟨hpurge, hm, -⟩ | ⟨-, hg⟩
  · -- Nobody that holds a lock waits for a cleanup.
    exfalso
    obtain ⟨K', hg', hk'⟩ := hs.keeps b hmem
    have hnot : b.req.isReplay = true → False := fun hr =>
      (hs.beside b hmem c hmem' (Ne.symm hne)).1 ⟨hr, hpurge⟩
    rcases wanted_granted hg' hi with ⟨-, hm', -⟩ | ⟨-, hg'⟩
    · exact hne (congrArg Session.id (hs.apart.eq hmem hmem' hm' hm rfl)).symm
    · obtain ⟨-, hevent, hdelivery, hadvisory⟩ := above_of_waits hs hbc hk' hg'
      rcases hk.sweeps hpurge j hj with rfl | ⟨d', m, rfl⟩ | ⟨e, m, rfl⟩
      · cases i with
        | advisory n => exact hadvisory n rfl
        | _ => cases hconflict
      · cases i with
        | delivery d'' m' => exact (hdelivery d'' m' rfl).elim hnot hb
        | _ => cases hconflict
      · cases i with
        | event e' m' => exact hnot (hevent e' m' rfl)
        | _ => cases hconflict
  · rw [Lock.rank_eq_of_conflict hconflict]
    exact (above_of_waits hs hcd hk hg).1 j hj

end Climbs

end EventHarbor
