import EventHarbor.Refinement.Claim
import EventHarbor.Refinement.Finalize
import EventHarbor.Refinement.Publish
import EventHarbor.Refinement.Replay
import EventHarbor.Refinement.Cleanup
import EventHarbor.Atomic.Lease

/-!
# Every interleaving refines the atomic machine
-/

namespace EventHarbor

open Relational Txn Contract

variable {lib : Lib} {cleanup : Prop} {db₀ db : Db} {h₀ h : List (Request × Response)}

/-- Along a trace without cleanup rows persist. -/
theorem trace_persist (hno : ¬cleanup) (ht : (contract lib cleanup).Trace h₀ db₀ h db) :
    Persist db₀ db := by
  induction ht with
  | nil => exact .refl db₀
  | snoc _ _ _ hc ih => exact ih.trans (hc.effect.persist fun hcl => absurd hcl hno)

/-- A webhook that a claim returned has its attempt. -/
theorem trace_issued (hno : ¬cleanup) (ht : (contract lib cleanup).Trace [] Db.empty h db)
    {webhook : OutboundWebhook} (hw : webhook ∈ issued h) : Issued webhook db := by
  induction ht with
  | nil => cases hw
  | @snoc h db r a L db' ht ha hinv hc ih =>
    rw [issued_append, List.mem_append] at hw
    rcases hw with hw | hw
    · exact (ih hw).persist (hc.effect.persist fun hcl => absurd hcl hno)
    · exact Step.issued (mem_issued_singleton.mp hw ▸ hc) rfl

/-- The code keeps the contract. -/
theorem kept (lib : Lib) (cleanup : Prop) :
    (contract lib cleanup).Kept (Request.code lib) Db.empty where
  symm := lock_conflict_symm
  start := fun _ => .empty lib
  inv := fun hinv hc hno => hc.inv hno (hinv hno)
  admits := by
    intro h r x ha
    cases r with
    | finalize w webhook result draw =>
      refine ha.imp id fun hw => ?_
      rw [issued_append]
      exact List.mem_append_left _ hw
    | _ => exact ha
  safe := by
    intro r h db ht ha hinv
    cases r with
    | createEndpoint url request draw => exact Safe.map createEndpoint_safe
    | setEnabled i b now => exact Safe.map setEnabled_safe
    | publish request key draw => exact Safe.map (publish_safe hinv)
    | replay i key draw => exact Safe.map (replay_safe hinv)
    | claimOne w draw => exact Safe.map (claimOne_safe hinv)
    | finalize w webhook result draw =>
      refine Safe.map (finalize_safe hinv fun hno => trace_issued hno ht ?_)
      exact ha.resolve_left hno
    | purge cutoff batchSize maxEvents => exact Safe.map (purge_safe ha)

/-! ## Runs without cleanup -/

section Ordinary

variable {ls ls' : List Shown} {s s' : System} {m : Shown}

theorem Ordinary.admissible (hm : Ordinary ls s m s') :
    (contract lib False).Admissible (history ls) s m s' := by
  cases m with
  | start t r =>
    cases r with
    | finalize w webhook result draw => exact .inr hm
    | purge cutoff batchSize maxEvents => exact hm
    | _ => trivial
  | commit t r a => exact fun c _ _ hcl => hcl.elim
  | _ => trivial

theorem reaches_sound (hr : Reaches lib ls s) : s.Sound (contract lib False) Db.empty (history ls) :=
  hr.sound Ordinary.admissible (kept lib False) (Sys.idle_sound (kept lib False))

theorem reaches_inv (hr : Reaches lib ls s) : Inv lib s.db := (reaches_sound hr).inv not_false

theorem continues_trace (hr : Reaches lib ls s) (hc : Continues lib ls s ls' s') :
    (contract lib False).Trace (history ls) s.db (history ls') s'.db :=
  hc.trace Ordinary.admissible (kept lib False) (reaches_sound hr)

/-- Every step of a run does what the contract says. -/
theorem reaches_meets (hr : Reaches lib ls s) {x : Action ℕ Request}
    (hx : s.act (Request.code lib) x = some (m, s')) (hm : Ordinary ls s m s') :
    (contract lib False).Meets s m s' :=
  (Sys.act_sound (reaches_sound hr) (kept lib False) hx hm.admissible).2

variable {c : Session ℕ Request Db Write Lock (List UUID) Error Response} {x : Action ℕ Request}

/-- The commit of an open transaction is a step. -/
theorem reaches_commit (hr : Reaches lib ls s) (hc : c ∈ s.sessions) {r : Request} {a : Response}
    (hx : s.act (Request.code lib) x = some (.commit c.id r a, s')) :
    r = c.req ∧ Step lib False c.held s.db c.req a s'.db := by
  obtain ⟨c', hc', hid, rfl, hstep⟩ := reaches_meets hr hx trivial
  obtain rfl := Table.eq_of_key hc' hc hid
  exact ⟨rfl, hstep⟩

/-- A failed transaction leaves the database as it was. -/
theorem reaches_fail (hr : Reaches lib ls s) (hc : c ∈ s.sessions) {r : Request} {e : Error}
    (hx : s.act (Request.code lib) x = some (.fail c.id r e, s')) :
    r = c.req ∧ s'.db = s.db ∧ Raises lib c.req c.born e s.db := by
  obtain ⟨hdb, c', hc', hid, rfl, hfail⟩ := reaches_meets hr hx trivial
  obtain rfl := Table.eq_of_key hc' hc hid
  exact ⟨rfl, hdb, hfail not_false⟩

/-- What a transaction started on persists. -/
theorem reaches_past (hr : Reaches lib ls s) (hc : c ∈ s.sessions) : Persist c.born s.db := by
  obtain ⟨h₀, ht⟩ := (reaches_sound hr).past c hc
  exact trace_persist not_false ht

/-- An error that left a transaction of the run. -/
theorem reaches_raises (hr : Reaches lib ls s) {t : ℕ} {r : Request} {e : Error}
    (hm : Label.fail t r e ∈ ls) : ∃ b db, Raises lib r b e db := by
  obtain ⟨ls₁, s₁, x, s₂, hr₁, hx, hp⟩ := hr.step_of_mem hm (by simp)
  obtain ⟨-, c, -, -, -, hfail⟩ := reaches_meets hr₁ hx hp
  exact ⟨c.born, s₁.db, hfail not_false⟩

end Ordinary

end EventHarbor
