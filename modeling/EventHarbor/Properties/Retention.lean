import EventHarbor.Properties.Chains

/-!
# Retention cleanup and live work

The candidate query of a cleanup takes no lock, so a delivery may be added to a
selected event before the `DELETE` collects the event's deliveries. This is the
only way a cleanup removes live work.
-/

namespace EventHarbor

open Relational Txn

/-- A step deletes no delivery that is still to be worked on: not when the
`DELETE` runs and not when it is committed. -/
def Spares (s : System) : Shown → System → Prop
  | .wrote t (.deleteDeliveries ids), _ => ∀ c ∈ s.sessions, c.id = t →
      ∀ d ∈ (view c.writes s.db).deliveries, d.id ∈ ids → d.status.active = false
  | .commit _ (.purge _ _ _) _, s' => ∀ d ∈ s.db.deliveries, d ∉ s'.db.deliveries →
      d.status.active = false
  | _, _ => True

/-- No commit adds a delivery to an event that an open cleanup has selected and
not yet begun to delete. -/
def Careful (_ : List Shown) (s : System) : Shown → System → Prop
  | .commit t _ _, s' => ∀ c ∈ s.sessions, c.id ≠ t → Undisturbed c.note s.db s'.db
  | _, _ => True

instance (g : List UUID) (db db' : Db) : Decidable (Undisturbed g db db') :=
  inferInstanceAs (Decidable (∀ d ∈ db'.deliveries.rows, d.eventId ∈ g →
    ∃ d₀ ∈ db.deliveries.rows, d₀.id = d.id))

instance (ls : List Shown) (s : System) : (m : Shown) → (s' : System) →
    Decidable (Careful ls s m s')
  | .commit t _ _, s' => inferInstanceAs (Decidable (∀ c ∈ s.sessions.rows, c.id ≠ t →
      Undisturbed c.note s.db s'.db))
  | .start _ _, _ | .tau _, _ | .wrote _ _, _ | .fail _ _ _, _ | .abort _, _ => .isTrue trivial

section Retention

variable {lib : Lib} {ls : List Shown} {s s' : System} {m : Shown}

theorem Careful.admissible (hm : Careful ls s m s') :
    (contract lib True).Admissible (history ls) s m s' := by
  cases m with
  | start t r =>
    cases r with
    | finalize w webhook result draw => exact .inl trivial
    | _ => trivial
  | commit t r a => exact fun c hc hne _ => hm c hc hne
  | _ => trivial

theorem Step.purge_spares {cleanup : Prop} {L : List Lock} {db db' : Db} {cutoff : Time}
    {batchSize maxEvents : ℕ} {a : Response}
    (hs : Step lib cleanup L db (.purge cutoff batchSize maxEvents) a db') {d : Delivery}
    (hd : d ∈ db.deliveries) (hgone : d ∉ db'.deliveries) : d.status.active = false := by
  cases hs with
  | purge hc hL hids hend =>
    by_contra hactive
    refine hgone (Table.mem_filter.mpr ⟨hd, ?_⟩)
    exact decide_eq_true fun hmem => hactive (hend d hd hmem)
  | locked => exact absurd hd hgone

/-- While nobody disturbs a cleanup, it spares live work. -/
theorem careful_run_spares
    (hr : Sys.Run (Request.code lib) Careful [] (.idle Db.empty) ls s) {x : Action ℕ Request}
    (hx : s.act (Request.code lib) x = some (m, s')) (hm : Careful ls s m s') : Spares s m s' := by
  have hsound := hr.sound (C := contract lib True) Careful.admissible (kept lib True)
    (Sys.idle_sound (kept lib True))
  have hmeets := (Sys.act_sound hsound (kept lib True) hx hm.admissible).2
  cases m with
  | wrote t w =>
    cases w with
    | deleteDeliveries ids =>
      intro c hc hid
      obtain ⟨-, c', hc', hid', hw⟩ := hmeets
      obtain rfl := Table.eq_of_key hc' hc (hid'.trans hid.symm)
      exact hw
    | _ => trivial
  | commit t r a =>
    cases r with
    | purge cutoff batchSize maxEvents =>
      intro d hd hgone
      obtain ⟨c, -, -, -, hstep⟩ := hmeets
      have hstep : Step lib True c.held s.db (.purge cutoff batchSize maxEvents) a s'.db := hstep
      exact hstep.purge_spares hd hgone
    | _ => trivial
  | _ => trivial

end Retention

namespace Sample

/-- A cleanup of everything older than the cutoff. -/
def cleanup : Request := .purge (epoch + 100) 10 10

/-- The cleanup has selected the dead-lettered event. -/
def selected : List (Action ℕ Request) := deadLetter ++ Sys.alone 5 cleanup 2

/-- The `DELETE` has locked the `n` deliveries it found. -/
def collected (n : ℕ) : List (Action ℕ Request) := List.replicate (n + 2) (.next 5)

/-- The next statement of the cleanup deletes the first delivery. -/
def deletesFirst (p : List Shown × System) : Bool :=
  match p.2.act (Request.code lib) (.next 5) with
  | some (.wrote 5 (.deleteDeliveries ids), _) => ids = [3]
  | _ => false

/-- The next statement of the cleanup deletes the pending delivery of a replay. -/
def deletesReplay (p : List Shown × System) : Bool :=
  match (history p.1).getLast?, p.2.act (Request.code lib) (.next 5) with
  | some (_, .replayed v), some (.wrote 5 (.deleteDeliveries ids), _) =>
    v.delivery.status = .pending && v.delivery.id ∈ ids &&
    p.2.sessions.rows.any fun c => c.id = 5 &&
      (view c.writes p.2.db).deliveries.rows.any fun d => d.id ∈ ids && d.status.active
  | _, _ => false

end Sample

/-- An undisturbed cleanup deletes the dead-lettered delivery. -/
theorem careful_run_spares_of_cleanup : ∃ ls s ids s',
    Sys.Run (Request.code Sample.lib) Careful [] (.idle Db.empty) ls s ∧
    s.act (Request.code Sample.lib) (.next 5) = some (.wrote 5 (.deleteDeliveries ids), s') ∧
    ids = [3] ∧ Spares s (.wrote 5 (.deleteDeliveries ids)) s' := by
  have hplay : (Sys.play (Request.code Sample.lib) Careful [] (.idle Db.empty)
      (Sample.selected ++ Sample.collected 1)).any Sample.deletesFirst = true := by decide +kernel
  obtain ⟨ls, s, hr, h⟩ := Sys.exists_run hplay
  unfold Sample.deletesFirst at h
  split at h
  · rename_i ids s' hact
    exact ⟨ls, s, ids, s', hr, hact, of_decide_eq_true h, careful_run_spares hr hact trivial⟩
  · cases h

/-- A replay that commits between the candidate query and the `DELETE` is
deleted while its delivery is pending. -/
theorem cleanup_deletes_acknowledged_replay : ∃ ls s ids s' r v,
    Sys.Run (Request.code Sample.lib) (fun _ _ _ _ => True) [] (.idle Db.empty) ls s ∧
    (r, Response.replayed v) ∈ history ls ∧ v.delivery.status = .pending ∧ v.delivery.id ∈ ids ∧
    s.act (Request.code Sample.lib) (.next 5) = some (.wrote 5 (.deleteDeliveries ids), s') ∧
    ¬Spares s (.wrote 5 (.deleteDeliveries ids)) s' := by
  have hplay : (Sys.play (Request.code Sample.lib) (fun _ _ _ _ => True) [] (.idle Db.empty)
      (Sample.selected ++ Sys.alone 6 (Sample.replay "again" 6 (Sample.epoch + 4)) 20 ++
        Sample.collected 2)).any Sample.deletesReplay = true := by decide +kernel
  obtain ⟨ls, s, hr, h⟩ := Sys.exists_run hplay
  unfold Sample.deletesReplay at h
  split at h
  · rename_i r v ids s' hlast hact
    simp only [Bool.and_eq_true, decide_eq_true_eq] at h
    obtain ⟨⟨hpending, hid⟩, hactive⟩ := h
    refine ⟨ls, s, ids, s', r, v, hr, List.mem_of_getLast? hlast, hpending, hid, hact,
      fun hspares => ?_⟩
    obtain ⟨c, hc, hd⟩ := List.any_eq_true.mp hactive
    simp only [Bool.and_eq_true, decide_eq_true_eq, List.any_eq_true] at hd
    obtain ⟨hcid, d, hd, hdid, ha⟩ := hd
    rw [hspares c hc hcid d hd hdid] at ha
    cases ha
  · cases h

end EventHarbor
