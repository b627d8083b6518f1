import EventHarbor.Refinement.System

/-!
# Operation from a database on

Ordinary operation keeps the invariant from any database that has it, for
example from one that a cleanup has left.
-/

namespace EventHarbor

open Relational Txn Contract

/-- Operation without retention cleanup from `db₀` on. A worker finalizes the
webhooks that claims have returned, before or since, while their evidence is
stored. -/
def Resumed (db₀ : Db) (ls : List Shown) (_ : System) : Shown → System → Prop
  | .start _ (.finalize _ webhook _ _), _ => webhook ∈ issued (history ls) ∨ Issued webhook db₀
  | .start _ (.purge _ _ _), _ => False
  | _, _ => True

/-- The contract of ordinary operation from `db₀` on. -/
def resumption (lib : Lib) (db₀ : Db) : Contract Request Db Write Lock (List UUID) Error Response :=
  (contract lib False).admitting fun h r => match r with
    | .finalize _ webhook _ _ => webhook ∈ issued h ∨ Issued webhook db₀
    | .purge _ _ _ => False
    | _ => True

section Resumption

variable {lib : Lib} {db₀ db : Db} {h : List (Request × Response)} {ls : List Shown}
  {s s' : System} {m : Shown}

/-- A webhook that was ever returned has its attempt. -/
theorem resumption_issued (ht : (resumption lib db₀).Trace [] db₀ h db)
    {webhook : OutboundWebhook} (hw : webhook ∈ issued h ∨ Issued webhook db₀) :
    Issued webhook db := by
  induction ht with
  | nil => exact hw.resolve_left (by simp)
  | @snoc h db r a L db' ht ha hinv hc ih =>
    have hstep : Step lib False L db r a db' := hc
    rw [issued_append, List.mem_append, or_right_comm] at hw
    rcases hw with hw | hw
    · exact (ih hw).persist (hstep.effect.persist False.elim)
    · exact Step.issued (mem_issued_singleton.mp hw ▸ hstep) rfl

/-- The code keeps the contract from any database with the invariant on. -/
theorem resumption_kept (hinv : Inv lib db₀) :
    (resumption lib db₀).Kept (Request.code lib) db₀ where
  symm := lock_conflict_symm
  start := fun _ => hinv
  inv := by
    intro r a L db db' hinv hc hno
    have hstep : Step lib False L db r a db' := hc
    exact hstep.inv hno (hinv hno)
  admits := by
    intro h r x ha
    cases r with
    | finalize w webhook result draw =>
      refine ha.imp (fun hw => ?_) id
      rw [issued_append]
      exact List.mem_append_left _ hw
    | _ => exact ha
  safe := by
    intro r h db ht ha hinv
    cases r with
    | createEndpoint url request draw => exact (Safe.map createEndpoint_safe).admitting
    | setEnabled i b now => exact (Safe.map setEnabled_safe).admitting
    | publish request key draw => exact (Safe.map (publish_safe hinv)).admitting
    | replay i key draw => exact (Safe.map (replay_safe hinv)).admitting
    | claimOne w draw => exact (Safe.map (claimOne_safe hinv)).admitting
    | finalize w webhook result draw =>
      exact (Safe.map (finalize_safe hinv fun _ => resumption_issued ht ha)).admitting
    | purge cutoff batchSize maxEvents => exact ha.elim

theorem Resumed.admissible (hm : Resumed db₀ ls s m s') :
    (resumption lib db₀).Admissible (history ls) s m s' := by
  cases m with
  | start t r =>
    cases r with
    | finalize w webhook result draw => exact hm
    | purge cutoff batchSize maxEvents => exact hm
    | _ => trivial
  | commit t r a => exact fun c _ _ hcl => hcl.elim
  | _ => trivial

theorem Ordinary.resumed (hm : Ordinary ls s m s') : Resumed db₀ ls s m s' := by
  cases m with
  | start t r =>
    cases r with
    | finalize w webhook result draw => exact .inl hm
    | _ => exact hm
  | _ => trivial

/-- Every database of the run has the invariant. -/
theorem resumed_inv (hinv : Inv lib db₀)
    (hr : Sys.Run (Request.code lib) (Resumed db₀) [] (.idle db₀) ls s) : Inv lib s.db :=
  (hr.sound Resumed.admissible (resumption_kept hinv)
    (Sys.idle_sound (resumption_kept hinv))).inv not_false

end Resumption

end EventHarbor
