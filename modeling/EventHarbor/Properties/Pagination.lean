import EventHarbor.Properties.Claims
import EventHarbor.Properties.Cursors
import EventHarbor.Properties.Overview

/-!
# Pages read while the store goes on

The Control Room follows `next_cursor` from page to page while transactions
commit between the reads. The sort keys of listed rows are unique at every read
and never change, so nothing is repeated and nothing that stays is lost.
-/

namespace EventHarbor

open Relational DeliveryWorker ControlRoom Datetime

/-! ## Clocks -/

/-- The instants that a request writes into a sort key are datetimes. -/
def Request.Timed : Request → Prop
  | createEndpoint _ _ draw => IsDatetime draw.createdAt
  | publish _ _ draw => IsDatetime draw.createdAt
  | claimOne _ draw => IsDatetime draw.now
  | finalize _ _ _ draw => IsDatetime draw.databaseNow
  | _ => True

instance (t : Time) : Decidable (IsDatetime t) :=
  decidable_of_iff (microseconds t < maxOrdinal * microsPerDay ∧ t = instant (microseconds t)) <| by
    constructor
    · rintro ⟨hlt, heq⟩
      exact ⟨microseconds t, hlt, heq⟩
    · rintro ⟨us, hlt, rfl⟩
      rw [microseconds_instant]
      exact ⟨hlt, rfl⟩

instance : (r : Request) → Decidable r.Timed
  | .createEndpoint _ _ draw => inferInstanceAs (Decidable (IsDatetime draw.createdAt))
  | .publish _ _ draw => inferInstanceAs (Decidable (IsDatetime draw.createdAt))
  | .claimOne _ draw => inferInstanceAs (Decidable (IsDatetime draw.now))
  | .finalize _ _ _ draw => inferInstanceAs (Decidable (IsDatetime draw.databaseNow))
  | .setEnabled _ _ _ | .replay _ _ _ | .purge _ _ _ => .isTrue trivial

/-- Ordinary operation with clocks that read datetimes. -/
def Clocked (ls : List Shown) (s : System) (m : Shown) (s' : System) : Prop :=
  Ordinary ls s m s' ∧ match m with
    | .start _ r => r.Timed
    | _ => True

instance (ls : List Shown) (s : System) : (m : Shown) → (s' : System) →
    Decidable (Clocked ls s m s')
  | .start _ r, _ => inferInstanceAs (Decidable (_ ∧ r.Timed))
  | .tau _, _ | .wrote _ _, _ | .commit _ _ _, _ | .fail _ _ _, _ | .abort _, _ =>
    inferInstanceAs (Decidable (_ ∧ True))

/-- Every sort key of the store is a datetime. -/
structure Dated (db : Db) : Prop where
  events : ∀ e ∈ db.events, IsDatetime e.createdAt
  endpoints : ∀ e ∈ db.endpoints, IsDatetime e.createdAt
  deadLetters : ∀ d ∈ db.deliveries, d.status = .deadLettered → IsDatetime d.updatedAt

/-- What was there still is, under the same sort keys. -/
structure Follows (db db' : Db) : Prop where
  persist : Persist db db'
  created : ∀ e ∈ db.endpoints, ∃ e' ∈ db'.endpoints, e'.id = e.id ∧ e'.createdAt = e.createdAt

theorem Follows.refl (db : Db) : Follows db db := ⟨.refl db, fun e he => ⟨e, he, rfl, rfl⟩⟩

theorem Follows.trans {db db' db'' : Db} (h : Follows db db') (h' : Follows db' db'') :
    Follows db db'' where
  persist := h.persist.trans h'.persist
  created := by
    intro e he
    obtain ⟨e', he', hid, hat⟩ := h.created e he
    obtain ⟨e'', he'', hid', hat'⟩ := h'.created e' he'
    exact ⟨e'', he'', hid'.trans hid, hat'.trans hat⟩

section Step

variable {lib : Lib} {L : List Lock} {db db' : Db} {r : Request} {a : Response}

theorem Step.follows (h : Step lib False L db r a db') : Follows db db' where
  persist := h.effect.persist not_false.elim
  created := by
    intro e he
    cases h with
    | register hfresh => exact ⟨e, Table.mem_insert_of_mem he, rfl, rfl⟩
    | @enable i b now row hrow hid =>
      by_cases heq : e = row
      · exact ⟨_, (Table.mem_set_of_mem hrow (by rfl)).mpr (.inr rfl), heq ▸ rfl, heq ▸ rfl⟩
      · exact ⟨e, (Table.mem_set_of_mem hrow (by rfl)).mpr (.inl ⟨he, heq⟩), rfl, rfl⟩
    | _ => exact ⟨e, he, rfl, rfl⟩

/-- A delivery that a claim ends was ended at the claim's instant. -/
theorem Claimed.dated {w : DeliveryWorker} {draw : ClaimDraw} {ep : Endpoint} {d d' : Delivery}
    {c : Claim} {closed opened : Option DeliveryAttempt}
    (h : Claimed False w draw db ep d c d' closed opened) (hs : d'.status = .deadLettered) :
    d'.updatedAt = draw.now := by
  cases h with
  | lease => cases hs
  | relet => cases hs
  | expire => rfl
  | drop => rfl

theorem Step.dated (h : Step lib False L db r a db') (hr : r.Timed) (hd : Dated db) :
    Dated db' := by
  cases h with
  | register hfresh hL hat =>
    refine { hd with endpoints := fun e he => ?_ }
    rcases Table.mem_of_mem_insert he with he | rfl
    · exact hd.endpoints e he
    · exact hat ▸ hr
  | @enable i b now row hrow hid =>
    refine { hd with endpoints := fun e he => ?_ }
    rcases (Table.mem_set_of_mem hrow (by rfl)).mp he with ⟨he, -⟩ | rfl
    · exact hd.endpoints e he
    · exact hd.endpoints row hrow
  | accept =>
    refine { hd with events := fun e he => ?_, deadLetters := fun d hmem hs => ?_ }
    · rcases Table.mem_of_mem_insert he with he | rfl
      · exact hd.events e he
      · exact hr
    · rcases Table.mem_of_mem_insert hmem with hmem | rfl
      · exact hd.deadLetters d hmem hs
      · cases hs
  | supersede =>
    refine { hd with deadLetters := fun d hmem hs => ?_ }
    rcases Table.mem_of_mem_insert hmem with hmem | rfl
    · exact hd.deadLetters d hmem hs
    · cases hs
  | claim hmem hL hdue hep hepid hc =>
    refine { hd with deadLetters := fun d hd' hs => ?_ }
    rcases (mem_move_deliveries (hc.moves hmem)).mp hd' with ⟨hd', -⟩ | rfl
    · exact hd.deadLetters d hd' hs
    · exact hc.dated hs ▸ hr
  | settle htarget howned hcount ha =>
    refine { hd with deadLetters := fun d hd' hs => ?_ }
    rcases (mem_move_deliveries (settle_moves howned ha _ _ _ _)).mp hd' with ⟨hd', -⟩ | rfl
    · exact hd.deadLetters d hd' hs
    · exact hr
  | purge hc => exact hc.elim
  | _ => exact hd

end Step

section Run

variable {lib : Lib} {ls ls' : List Shown} {s s' : System}

theorem Clocked.continues (hr : Sys.Run (Request.code lib) Clocked ls s ls' s') :
    Continues lib ls s ls' s' := hr.mono fun h => h.1

theorem clocked_follows (hr : Reaches lib ls s)
    (hc : Sys.Run (Request.code lib) Clocked ls s ls' s') : Follows s.db s'.db := by
  have ht := continues_trace hr (Clocked.continues hc)
  generalize history ls = h₀, s.db = db₀, history ls' = h, s'.db = db at ht
  induction ht with
  | nil => exact .refl _
  | snoc _ _ _ hstep ih => exact ih.trans hstep.follows

theorem clocked_dated (hr : Sys.Run (Request.code lib) Clocked [] (.idle Db.empty) ls s) :
    Dated s.db := by
  have hreqs := (hr.requests (Q := Request.Timed) (fun h => h.2)
    (fun c hc => absurd hc (Table.not_mem_empty c)) (by simp)).2
  have ht : (contract lib False).Trace [] Db.empty (history ls) s.db :=
    (reaches_sound (Clocked.continues hr)).trace
  generalize history ls = h, s.db = db at ht hreqs
  induction ht with
  | nil =>
    exact ⟨fun e he => absurd he (Table.not_mem_empty e),
      fun e he => absurd he (Table.not_mem_empty e),
      fun d hd => absurd hd (Table.not_mem_empty d)⟩
  | snoc _ _ _ hstep ih =>
    have hlast := hreqs _ (List.mem_append_right _ (List.mem_singleton_self _))
    exact hstep.dated hlast (ih fun x hx => hreqs x (List.mem_append_left _ hx))

end Run

/-! ## Listings -/

/-- A collection as its query sees it: the rows before the cursor, their sort
keys, and which event, endpoint or delivery each of them shows. -/
structure Listing (α : Type) where
  rows : Db → List α
  key : α → PageCursor
  id : α → UUID

def eventListing (eventType : Option String) (endpointId : Option UUID)
    (deliveryStatus : Option DeliveryStatus) : Listing EventListRecord where
  rows := eventRows eventType endpointId deliveryStatus
  key := eventKey
  id := (·.event.id)

def endpointListing : Listing Endpoint where
  rows := fun db => db.endpoints.rows
  key := endpointKey
  id := Endpoint.id

def deadLetterListing (endpointId : Option UUID) : Listing DeadLetterRecord where
  rows := deadLetterRows endpointId
  key := deadLetterKey
  id := (·.delivery.id)

/-- What makes a listing safe to page through. `marks db i k` says that `i` has
the sort key `k` in `db`. -/
structure Listing.Stable {α : Type} (lib : Lib) (l : Listing α) (marks : Db → UUID → PageCursor → Prop) :
    Prop where
  unique : ∀ {db}, Inv lib db → ((l.rows db).map l.key).Nodup
  dated : ∀ {db}, Dated db → ∀ r ∈ l.rows db, IsDatetime (l.key r).timestamp
  rowId : ∀ r, (l.key r).rowId = l.id r
  marked : ∀ {db}, ∀ r ∈ l.rows db, marks db (l.id r) (l.key r)
  kept : ∀ {db db' i k}, Follows db db' → marks db i k → marks db' i k
  functional : ∀ {db i k k'}, marks db i k → marks db i k' → k = k'

/-- Rows that come at most one from each member of a list have its keys. -/
theorem sublist_flatMap {α β κ : Type} {f : α → κ} {g : α → List β} {k : β → κ} {l : List α}
    (h : ∀ x ∈ l, ((g x).map k).Sublist [f x]) : ((l.flatMap g).map k).Sublist (l.map f) := by
  induction l with
  | nil => exact .slnil
  | cons x l ih =>
    rw [List.flatMap_cons, List.map_append, List.map_cons]
    have hx := h x List.mem_cons_self
    have hl := ih fun y hy => h y (List.mem_cons_of_mem _ hy)
    exact hx.append hl

/-- A list without repetition whose members are all equal has at most one. -/
theorem sublist_const {α β : Type} {l : List α} (hn : l.Nodup) (h : ∀ x ∈ l, ∀ y ∈ l, x = y)
    (b : β) : (l.map fun _ => b).Sublist [b] := by
  match l with
  | [] => exact List.nil_sublist _
  | [x] => exact .refl _
  | x :: y :: l =>
    have hxy : x = y := h x (by simp) y (by simp)
    simp [hxy] at hn

/-- At most one row of a table has a given key. -/
theorem sublist_filter_key {α κ β : Type} [DecidableEq κ] {key : α → κ} (t : Table key) (k : κ)
    (b : β) : ((t.rows.filter fun r => decide (key r = k)).map fun _ => b).Sublist [b] := by
  refine sublist_const ((List.Nodup.of_map _ t.nodup).filter _) (fun x hx y hy => ?_) b
  obtain ⟨hx, hkx⟩ := List.mem_filter.mp hx
  obtain ⟨hy, hky⟩ := List.mem_filter.mp hy
  exact Table.eq_of_key hx hy ((of_decide_eq_true hkx).trans (of_decide_eq_true hky).symm)

section Stable

variable {lib : Lib}

theorem endpointListing_stable : endpointListing.Stable lib
    (fun db i k => ∃ e ∈ db.endpoints, e.id = i ∧ endpointKey e = k) where
  unique := by
    intro db _
    refine List.Nodup.of_map PageCursor.rowId ?_
    rw [List.map_map]
    exact db.endpoints.nodup
  dated := fun hd e he => hd.endpoints e he
  rowId := fun _ => rfl
  marked := fun e he => ⟨e, he, rfl, rfl⟩
  kept := by
    rintro db db' i k hf ⟨e, he, rfl, rfl⟩
    obtain ⟨e', he', hid, hat⟩ := hf.created e he
    exact ⟨e', he', hid, by rw [endpointKey, endpointKey, hid, hat]⟩
  functional := by
    rintro db i k k' ⟨e, he, hid, rfl⟩ ⟨e', he', hid', rfl⟩
    rw [Table.eq_of_key he he' (hid.trans hid'.symm)]

theorem deadLetterListing_stable (endpointId : Option UUID) :
    (deadLetterListing endpointId).Stable lib (fun db i k => ∃ d ∈ db.deliveries,
      d.status = .deadLettered ∧ d.id = i ∧ (⟨d.updatedAt, d.id⟩ : PageCursor) = k) where
  unique := by
    intro db _
    -- One row for each delivery, whose id is part of the key.
    refine List.Nodup.sublist (sublist_flatMap
      (f := fun d : Delivery => (⟨d.updatedAt, d.id⟩ : PageCursor)) fun d _ => ?_) ?_
    · refine (sublist_flatMap (f := fun _ => (⟨d.updatedAt, d.id⟩ : PageCursor))
        fun e _ => ?_).trans (sublist_filter_key db.events d.eventId _)
      rw [List.map_map]
      exact sublist_filter_key db.endpoints d.endpointId (⟨d.updatedAt, d.id⟩ : PageCursor)
    · refine List.Nodup.of_map PageCursor.rowId ?_
      rw [List.map_map]
      exact Table.nodup_filter_map _ db.deliveries.nodup
  dated := by
    intro db hd r hr
    obtain ⟨hmem, hs, -⟩ := mem_deadLetterRows hr
    exact hd.deadLetters r.delivery hmem hs
  rowId := fun _ => rfl
  marked := by
    intro db r hr
    obtain ⟨hmem, hs, -⟩ := mem_deadLetterRows hr
    exact ⟨r.delivery, hmem, hs, rfl, rfl⟩
  kept := by
    rintro db db' i k hf ⟨d, hd, hs, rfl, rfl⟩
    obtain ⟨d', hd', -, hend, -⟩ := hf.persist.deliveries d hd
    obtain rfl := hend (by rw [hs]; rfl)
    exact ⟨d', hd', hs, rfl, rfl⟩
  functional := by
    rintro db i k k' ⟨d, hd, -, hid, rfl⟩ ⟨d', hd', -, hid', rfl⟩
    rw [Table.eq_of_key hd hd' (hid.trans hid'.symm)]

variable {db : Db} {eventType : Option String} {endpointId : Option UUID}
  {deliveryStatus : Option DeliveryStatus}

/-- An event has one latest delivery. -/
theorem Inv.latest_unique (h : Inv lib db) {d d' : Delivery} (hd : d ∈ db.deliveries)
    (hd' : d' ∈ db.deliveries) (hl : latestGenerationCondition db d = true)
    (hl' : latestGenerationCondition db d' = true) (he : d.eventId = d'.eventId) : d = d' := by
  have hn := h.newest_of_latest hd hl
  have hn' := h.newest_of_latest hd' hl'
  exact (h.chain_of hd).eq_of_generation (Db.mem_deliveriesAt.mpr ⟨hd, rfl⟩)
    (Db.mem_deliveriesAt.mpr ⟨hd', he.symm⟩) (le_antisymm (hn' d hd he) (hn d' hd' he.symm))

theorem Inv.nodup_eventRows (h : Inv lib db) :
    ((eventRows eventType endpointId deliveryStatus db).map eventKey).Nodup := by
  refine List.Nodup.sublist (sublist_flatMap
    (f := fun e : Event => (⟨e.createdAt, e.id⟩ : PageCursor)) fun e _ => ?_) ?_
  · refine (sublist_flatMap (f := fun _ => (⟨e.createdAt, e.id⟩ : PageCursor))
      fun d _ => ?_).trans ?_
    · rw [List.map_map]
      exact sublist_filter_key db.endpoints d.endpointId (⟨e.createdAt, e.id⟩ : PageCursor)
    · -- The deliveries that are left are all the latest one.
      refine sublist_const ((List.Nodup.of_map _ db.deliveries.nodup).filter _)
        (fun d hd d' hd' => ?_) _
      obtain ⟨hd, hcond⟩ := List.mem_filter.mp hd
      obtain ⟨hd', hcond'⟩ := List.mem_filter.mp hd'
      simp only [Bool.and_eq_true, decide_eq_true_eq, and_assoc] at hcond hcond'
      exact h.latest_unique hd hd' hcond.2.1 hcond'.2.1 (hcond.1.trans hcond'.1.symm)
  · refine List.Nodup.of_map PageCursor.rowId ?_
    rw [List.map_map]
    exact db.events.nodup

theorem mem_eventRows {r : EventListRecord}
    (h : r ∈ eventRows eventType endpointId deliveryStatus db) : r.event ∈ db.events := by
  obtain ⟨e, he, h⟩ := List.mem_flatMap.mp h
  obtain ⟨d, -, h⟩ := List.mem_flatMap.mp h
  obtain ⟨ep, -, rfl⟩ := List.mem_map.mp h
  exact he

variable (eventType endpointId deliveryStatus) in
theorem eventListing_stable : (eventListing eventType endpointId deliveryStatus).Stable lib
    (fun db i k => ∃ e ∈ db.events, e.id = i ∧ (⟨e.createdAt, e.id⟩ : PageCursor) = k) where
  unique := fun h => h.nodup_eventRows
  dated := fun hd r hr => hd.events r.event (mem_eventRows hr)
  rowId := fun _ => rfl
  marked := fun r hr => ⟨r.event, mem_eventRows hr, rfl, rfl⟩
  kept := by
    rintro db db' i k hf ⟨e, he, hk⟩
    exact ⟨e, hf.persist.events e he, hk⟩
  functional := by
    rintro db i k k' ⟨e, he, hid, rfl⟩ ⟨e', he', hid', rfl⟩
    rw [Table.eq_of_key he he' (hid.trans hid'.symm)]

end Stable

/-! ## Following the cursors -/

/-- Pages read one after the other, each from the store as it is then: the
stores, the pages, and the cursor that the last of them came with. -/
inductive Browses (lib : Lib) {α : Type} (fetch : Option PyStr → Db → Except Error (Page α)) :
    List Shown → System → List Db → List (List α) → Option PyStr → Prop
  | first {ls s page} (hr : Sys.Run (Request.code lib) Clocked [] (.idle Db.empty) ls s)
      (hf : fetch none s.db = .ok page) :
      Browses lib fetch ls s [s.db] [page.items] page.nextCursor
  | more {ls s dbs pages cursor ls' s' page} (h : Browses lib fetch ls s dbs pages (some cursor))
      (hc : Sys.Run (Request.code lib) Clocked ls s ls' s')
      (hf : fetch (some cursor) s'.db = .ok page) :
      Browses lib fetch ls' s' (dbs ++ [s'.db]) (pages ++ [page.items]) page.nextCursor

/-- Following `next_cursor` repeats nothing, keeps the order, and returns exactly
once everything that the query selects at every read; a cursor that was handed
out is accepted; and on a store that rests the pages end and are the whole
ordered result. -/
structure Paginates (lib : Lib) {α : Type} (fetch : Option PyStr → Db → Except Error (Page α))
    (l : Listing α) : Prop where
  exact : ∀ {ls s dbs pages next}, Browses lib fetch ls s dbs pages next →
    (pages.flatten.map l.id).Nodup ∧
    pages.flatten.Pairwise (fun a b => l.key b < l.key a) ∧
    (∀ r ∈ pages.flatten, ∃ db ∈ dbs, r ∈ l.rows db) ∧
    (next = none → ∀ i, (∀ db ∈ dbs, i ∈ (l.rows db).map l.id) →
      (pages.flatten.map l.id).count i = 1) ∧
    (next = none → ∀ db, (∀ db' ∈ dbs, db' = db) →
      pages.flatten = Keyset.ordered l.key (l.rows db)) ∧
    (∀ cursor, next = some cursor → ∀ ls' s', Sys.Run (Request.code lib) Clocked ls s ls' s' →
      ∃ page, fetch (some cursor) s'.db = .ok page)
  ends : ∀ {ls s}, Sys.Run (Request.code lib) Clocked [] (.idle Db.empty) ls s →
    ∃ dbs pages, Browses lib fetch ls s dbs pages none ∧ ∀ db ∈ dbs, db = s.db

section Browse

variable {lib : Lib} {α : Type} {fetch : Option PyStr → Db → Except Error (Page α)}
  {l : Listing α} {marks : Db → UUID → PageCursor → Prop} {limit : ℕ}
  {floatOf : List Char → PyFloat} {ls : List Shown} {s : System} {dbs : List Db}
  {pages : List (List α)} {next : Option PyStr}

theorem Browses.run (h : Browses lib fetch ls s dbs pages next) :
    Sys.Run (Request.code lib) Clocked [] (.idle Db.empty) ls s := by
  induction h with
  | first hr hf => exact hr
  | more h hc hf ih => exact ih.trans hc

/-- The stores that were read are reachable, and the last one follows them. -/
theorem Browses.reads (h : Browses lib fetch ls s dbs pages next) :
    ∀ db ∈ dbs, Inv lib db ∧ Dated db ∧ Follows db s.db := by
  have hread : ∀ {ls s}, Sys.Run (Request.code lib) Clocked [] (.idle Db.empty) ls s →
      Inv lib s.db ∧ Dated s.db ∧ Follows s.db s.db := fun hr =>
    ⟨reaches_inv (Clocked.continues hr), clocked_dated hr, .refl _⟩
  induction h with
  | first hr hf =>
    intro db hdb
    obtain rfl := List.mem_singleton.mp hdb
    exact hread hr
  | more h hc hf ih =>
    intro db hdb
    rcases List.mem_append.mp hdb with hdb | hdb
    · obtain ⟨hinv, hdated, hfollows⟩ := ih db hdb
      exact ⟨hinv, hdated, hfollows.trans (clocked_follows (Clocked.continues h.run) hc)⟩
    · obtain rfl := List.mem_singleton.mp hdb
      exact hread (h.run.trans hc)

theorem Browses.mem (h : Browses lib fetch ls s dbs pages next) : s.db ∈ dbs := by
  cases h with
  | first hr hf => exact List.mem_singleton_self _
  | more h hc hf => exact List.mem_append_right _ (List.mem_singleton_self _)

/-- The key a next page starts below is the key of a row. -/
theorem slice_next_mem {rows : List α} {after : Option PageCursor} {k : PageCursor}
    (h : (Keyset.slice l.key limit after rows).next = some k) : ∃ r ∈ rows, l.key r = k := by
  simp only [Keyset.slice] at h
  split at h
  · obtain ⟨r, hr, rfl⟩ := Option.map_eq_some_iff.mp h
    exact ⟨r, (Keyset.mem_rest.mp (List.mem_of_mem_take (List.mem_of_mem_take
      (List.mem_of_getLast? hr)))).1, rfl⟩
  · cases h

variable (hl : l.Stable lib marks)
  (hfetch : ∀ {cursor c}, decodeCursor floatOf cursor = .ok c → ∀ db,
    fetch cursor db = .ok (Page.of l.key limit c (l.rows db)))

include hl hfetch

/-- Through its cursors, browsing is a traversal by keys. -/
theorem Browses.traversal (h : Browses lib fetch ls s dbs pages next) :
    ∃ left, Keyset.Traversal l.key limit (dbs.map l.rows) pages left ∧
      next = left.map encodeCursor ∧ ∀ k, left = some k → IsDatetime k.timestamp := by
  have hdated : ∀ {db after k}, Dated db →
      (Keyset.slice l.key limit after (l.rows db)).next = some k → IsDatetime k.timestamp := by
    intro db after k hd hk
    obtain ⟨r, hr, rfl⟩ := slice_next_mem hk
    exact hl.dated hd r hr
  induction h with
  | first hr hf =>
    rw [hfetch rfl] at hf
    obtain rfl := Except.ok.inj hf
    exact ⟨_, .first, rfl, fun k hk => hdated (clocked_dated hr) hk⟩
  | more h hc hf ih =>
    obtain ⟨left, ht, hnext, hk⟩ := ih
    obtain ⟨k, rfl, rfl⟩ := Option.map_eq_some_iff.mp hnext.symm
    rw [hfetch (decodeCursor_encodeCursor floatOf (hk k rfl))] at hf
    obtain rfl := Except.ok.inj hf
    rw [List.map_append, List.map_singleton]
    exact ⟨_, .more ht, rfl, fun k' hk' => hdated (clocked_dated (h.run.trans hc)) hk'⟩

/-- On a store that rests, the pages that are left can be read. -/
theorem Browses.rest (hlimit : 1 ≤ limit) (h : Browses lib fetch ls s dbs pages next)
    (hsame : ∀ db ∈ dbs, db = s.db) :
    ∃ dbs' pages', Browses lib fetch ls s dbs' pages' none ∧ ∀ db ∈ dbs', db = s.db := by
  have hkey := hl.unique (reaches_inv (Clocked.continues h.run))
  obtain ⟨left, ht, rfl, hdated⟩ := h.traversal hl hfetch
  -- Every page makes what is left shorter.
  generalize hn : (Keyset.left l.key left (l.rows s.db)).length = n
  induction n using Nat.strongRecOn generalizing dbs pages left with
  | ind n ih =>
    subst hn
    cases left with
    | none => exact ⟨dbs, pages, h, hsame⟩
    | some k =>
      have hf := hfetch (decodeCursor_encodeCursor floatOf (hdated k rfl)) s.db
      have hmore := Browses.more h .nil hf
      have hsame' : ∀ db ∈ dbs ++ [s.db], db = s.db := by
        intro db hdb
        rcases List.mem_append.mp hdb with hdb | hdb
        · exact hsame db hdb
        · exact List.mem_singleton.mp hdb
      cases hk : (Keyset.slice l.key limit (some k) (l.rows s.db)).next with
      | none =>
        have hend : (Page.of l.key limit (some k) (l.rows s.db)).nextCursor = none := by
          simp only [Page.of, hk, Option.map_none]
        exact ⟨_, _, hend ▸ hmore, hsame'⟩
      | some k' =>
        have hnext : (Page.of l.key limit (some k) (l.rows s.db)).nextCursor =
            (some k').map encodeCursor := by
          simp only [Page.of, hk]
        refine ih _ (Keyset.left_length_lt (some k) hlimit hkey hk) hsame' (some k')
          ?_ (fun k₁ hk₁ => ?_) (hnext ▸ hmore) rfl
        · rw [List.map_append, List.map_singleton, ← hk]
          exact .more ht
        · obtain rfl := Option.some.inj hk₁
          obtain ⟨r, hr, rfl⟩ := slice_next_mem hk
          exact hl.dated (clocked_dated h.run) r hr

theorem Listing.Stable.paginates (hlimit : 1 ≤ limit) : Paginates lib fetch l where
  exact := by
    intro ls s dbs pages next h
    obtain ⟨left, ht, hnext, hdated⟩ := h.traversal hl hfetch
    have hkeys : ∀ rows ∈ dbs.map l.rows, (rows.map l.key).Nodup := by
      intro rows hrows
      obtain ⟨db, hdb, rfl⟩ := List.mem_map.mp hrows
      exact hl.unique (h.reads db hdb).1
    have hdesc := (ht.descending hlimit hkeys).1
    have hsub : ∀ r ∈ pages.flatten, ∃ db ∈ dbs, r ∈ l.rows db := by
      intro r hr
      obtain ⟨rows, hrows, hr⟩ := ht.subset r hr
      obtain ⟨db, hdb, rfl⟩ := List.mem_map.mp hrows
      exact ⟨db, hdb, hr⟩
    -- By the last read every row that was ever listed still has its key.
    have hmark : ∀ {db r}, db ∈ dbs → r ∈ l.rows db → marks s.db (l.id r) (l.key r) :=
      fun hdb hr => hl.kept (h.reads _ hdb).2.2 (hl.marked _ hr)
    have hnodup : (pages.flatten.map l.id).Nodup := by
      refine List.pairwise_map.mpr (hdesc.imp_of_mem fun {a b} ha hb hlt hid => ?_)
      obtain ⟨dba, hdba, ha⟩ := hsub a ha
      obtain ⟨dbb, hdbb, hb⟩ := hsub b hb
      have hma := hmark hdba ha
      rw [hid] at hma
      exact hlt.ne (hl.functional (hmark hdbb hb) hma)
    refine ⟨hnodup, hdesc, hsub, fun hnone i hi => ?_, fun hnone db hsame => ?_,
      fun cursor hcursor ls' s' hc => ?_⟩
    · obtain rfl : left = none := by simpa [hnext] using hnone
      refine List.count_eq_one_of_mem hnodup ?_
      -- All the rows that show `i` have one key, and it names `i`.
      obtain ⟨r₀, hr₀, rfl⟩ := List.mem_map.mp (hi s.db h.mem)
      have hk : ∀ rows ∈ dbs.map l.rows, ∃ r ∈ rows, l.key r = l.key r₀ := by
        intro rows hrows
        obtain ⟨db, hdb, rfl⟩ := List.mem_map.mp hrows
        obtain ⟨r, hr, hid⟩ := List.mem_map.mp (hi db hdb)
        have hm := hmark hdb hr
        rw [hid] at hm
        exact ⟨r, hr, hl.functional hm (hmark h.mem hr₀)⟩
      rcases ht.complete hlimit hkeys hk with hmem | ⟨k', hk', -⟩
      · obtain ⟨r, hr, hkey⟩ := List.mem_map.mp hmem
        refine List.mem_map.mpr ⟨r, hr, ?_⟩
        rw [← hl.rowId, ← hl.rowId, hkey]
      · cases hk'
    · obtain rfl : left = none := by simpa [hnext] using hnone
      obtain rfl := hsame s.db h.mem
      have hstatic := ht.static hlimit (hl.unique (h.reads s.db h.mem).1) fun rows hrows => by
        obtain ⟨db, hdb, rfl⟩ := List.mem_map.mp hrows
        rw [hsame db hdb]
      have hall : ∀ r ∈ l.rows s.db, Keyset.isBelow l.key none r = true := fun _ _ => rfl
      rw [Keyset.left, List.append_nil, Keyset.rest, List.filter_eq_self.mpr hall] at hstatic
      exact hstatic
    · subst hcursor
      obtain ⟨k, rfl, rfl⟩ := Option.map_eq_some_iff.mp hnext.symm
      exact ⟨_, hfetch (decodeCursor_encodeCursor floatOf (hdated k rfl)) s'.db⟩
  ends := by
    intro ls s hr
    have hfirst : fetch none s.db = .ok (Page.of l.key limit none (l.rows s.db)) := hfetch rfl s.db
    exact (Browses.first hr hfirst).rest hl hfetch hlimit fun db hdb => List.mem_singleton.mp hdb

end Browse

/-- Events with any filters, endpoints and dead letters can be paged through
with any limit while the store goes on. -/
theorem pagination_exact (lib : Lib) (floatOf : List Char → PyFloat) {limit : ℕ}
    (hlimit : 1 ≤ limit) :
    (∀ eventType endpointId deliveryStatus, Paginates lib
      (ControlRoomQueryService.events floatOf limit eventType endpointId deliveryStatus)
      (eventListing eventType endpointId deliveryStatus)) ∧
    Paginates lib (ControlRoomQueryService.endpoints floatOf limit) endpointListing ∧
    (∀ endpointId, Paginates lib (ControlRoomQueryService.deadLetters floatOf limit endpointId)
      (deadLetterListing endpointId)) := by
  refine ⟨fun eventType endpointId deliveryStatus => ?_, ?_, fun endpointId => ?_⟩
  · refine (eventListing_stable eventType endpointId deliveryStatus).paginates
      (fun {cursor c} (hc : decodeCursor floatOf cursor = .ok c) db => ?_) hlimit
    rw [ControlRoomQueryService.events, hc]
    rfl
  · refine endpointListing_stable.paginates
      (fun {cursor c} (hc : decodeCursor floatOf cursor = .ok c) db => ?_) hlimit
    rw [ControlRoomQueryService.endpoints, hc]
    rfl
  · refine (deadLetterListing_stable endpointId).paginates
      (fun {cursor c} (hc : decodeCursor floatOf cursor = .ok c) db => ?_) hlimit
    rw [ControlRoomQueryService.deadLetters, hc]
    rfl

/-- Two events of one instant, one on each page. -/
theorem pagination_exact_of_two : ∃ ls s dbs pages, Browses Sample.twoEvents
    (ControlRoomQueryService.events (fun _ => ⟨0⟩) 1 none none none) ls s dbs pages none ∧
    pages.flatten.map (·.event.id) = [12, 2] := by
  have hplay : (Sys.play (Request.code Sample.twoEvents) Clocked [] (.idle Db.empty)
      Sample.sharedEndpoint).any (fun p =>
        (Keyset.ordered eventKey (eventRows none none none p.2.db)).map (·.event.id) = [12, 2]) =
      true := by decide +kernel
  obtain ⟨ls, s, hr, h⟩ := Sys.exists_run hplay
  have hpages := (pagination_exact Sample.twoEvents (fun _ => ⟨0⟩) (le_refl 1)).1 none none none
  obtain ⟨dbs, pages, hb, hsame⟩ := hpages.ends hr
  obtain ⟨-, -, -, -, hstatic, -⟩ := hpages.exact hb
  refine ⟨ls, s, dbs, pages, hb, ?_⟩
  rw [hstatic rfl s.db hsame]
  exact of_decide_eq_true h

end EventHarbor
