import EventHarbor.Refinement.LockOrder
import EventHarbor.Properties.Chains
import EventHarbor.Properties.Retention

/-!
# Deadlocks

While no manual replay and no retention cleanup are open together, transactions of
every kind, interleaved in any way, never wait for each other in a cycle. Beside a
cleanup a replay can: they lock the event and its deliveries in opposite orders.
-/

namespace EventHarbor

open Relational

/-- Any operation, with manual replay and retention cleanup kept apart. -/
abbrev Separated (_ : List Shown) (_ : System) (_ : Shown) (s : System) : Prop :=
  s.Beside Request.Compatible

section Deadlock

variable {lib : Lib} {db : Db} {ls : List Shown} {s : System}

theorem separated_orderly (hr : Sys.Run (Request.code lib) Separated [] (.idle db) ls s) :
    s.Orderly discipline Request.Compatible Aware :=
  hr.orderly upholds (guarded_code lib) lock_conflict_symm

theorem orderly_acyclic (hs : s.Orderly discipline Request.Compatible Aware)
    (c : Session ℕ Request Db Write Lock (List UUID) Error Response) :
    ¬Relation.TransGen s.WaitsFor c c :=
  Sys.not_waitsFor_self Lock.rank (climbs hs) c

theorem next_orderly {t : ℕ} {m : Shown} {s' : System}
    (hs : s.Orderly discipline Request.Compatible Aware)
    (hx : s.act (Request.code lib) (.next t) = some (m, s')) :
    s'.Orderly discipline Request.Compatible Aware := by
  obtain ⟨c, hc, hn⟩ := Option.bind_eq_some_iff.mp hx
  exact Sys.act_orderly upholds (guarded_code lib) lock_conflict_symm hx
    (Sys.next_beside (Table.get?_eq_some.mp hc).1 hn hs.beside) hs

/-- No transaction waits, directly or through others, for itself. -/
theorem no_deadlock (hr : Sys.Run (Request.code lib) Separated [] (.idle db) ls s)
    (c : Session ℕ Request Db Write Lock (List UUID) Error Response) :
    ¬Relation.TransGen s.WaitsFor c c :=
  orderly_acyclic (separated_orderly hr) c

end Deadlock

namespace Sample

/-- Two replays of one dead letter, of which the first has locked its event. -/
def contention : List (Action ℕ Request) :=
  deadLetter ++ [.start 5 (replay "again" 6 (epoch + 4)), .next 5, .next 5, .next 5] ++
    [.start 6 (replay "once more" 7 (epoch + 5)), .next 6, .next 6]

/-- The transaction `t` has to wait. -/
def waits (t : ℕ) (s : System) : Bool :=
  (s.sessions.get? t).any fun c => (s.next c).isNone

theorem exists_waits {s : System} {t : ℕ} (h : waits t s = true) :
    ∃ c d, c.id = t ∧ s.WaitsFor c d := by
  obtain ⟨c, hc, hn⟩ := (Option.any_eq_true _ _).mp h
  obtain ⟨hc, hid⟩ := Table.get?_eq_some.mp hc
  obtain ⟨d, hd⟩ := Sys.exists_waitsFor hc (Option.isNone_iff_eq_none.mp hn)
  exact ⟨c, d, hid, hd⟩

end Sample

theorem no_deadlock_of_contention : ∃ ls s c d,
    Sys.Run (Request.code Sample.lib) Separated [] (.idle Db.empty) ls s ∧
      s.WaitsFor c d ∧ ¬Relation.TransGen s.WaitsFor c c := by
  have hplay : (Sys.play (Request.code Sample.lib) Separated [] (.idle Db.empty)
      Sample.contention).any (fun p => Sample.waits 6 p.2) = true := by decide +kernel
  obtain ⟨ls, s, hr, h⟩ := Sys.exists_run hplay
  obtain ⟨c, d, -, hd⟩ := Sample.exists_waits h
  exact ⟨ls, s, c, d, hr, hd, no_deadlock hr c⟩

namespace Sample

/-- A cleanup has locked the dead letter, and a replay its event. -/
def opposed : List (Action ℕ Request) :=
  selected ++ [.next 5, .next 5] ++ .start 6 (replay "again" 6 (epoch + 4)) ::
    List.replicate 5 (.next 6) ++ List.replicate 3 (.next 5)

/-- Whether a transaction cleans up, and whether it replays; and whether it waits. -/
def standing (s : System) : List ((Bool × Bool) × Bool) :=
  s.sessions.rows.map fun c => ((c.req.isPurge, c.req.isReplay), (s.next c).isNone)

/-- A transaction that waits while only one other is open waits for that one. -/
theorem waits_of_pair {s : System} {c d : _} (hc : c ∈ s.sessions)
    (hpair : ∀ e ∈ s.sessions, e = c ∨ e = d) (hn : (s.next c).isNone = true) :
    s.WaitsFor c d := by
  obtain ⟨e, i, he⟩ := Sys.exists_waitsFor hc (Option.isNone_iff_eq_none.mp hn)
  rcases hpair e he.2.1 with rfl | rfl
  · exact absurd rfl he.2.2.1
  · exact ⟨i, he⟩

end Sample

/-- A replay and a cleanup of the same event wait for each other. -/
theorem replay_and_cleanup_deadlock : ∃ (ls : List Shown) (s : System) (c d : _),
    Sys.Run (Request.code Sample.lib) (fun _ _ _ _ => True) [] (.idle Db.empty) ls s ∧
      c.req.isReplay = true ∧ d.req.isPurge = true ∧ s.WaitsFor c d ∧ s.WaitsFor d c := by
  have hplay : (Sys.play (Request.code Sample.lib) (fun _ _ _ _ => True) [] (.idle Db.empty)
      Sample.opposed).any (fun p => Sample.standing p.2 =
        [((true, false), true), ((false, true), true)]) = true := by decide +kernel
  obtain ⟨ls, s, hr, h⟩ := Sys.exists_run hplay
  have h : Sample.standing s = [((true, false), true), ((false, true), true)] :=
    of_decide_eq_true h
  obtain ⟨d, rest, hrows, hd, hrest⟩ := List.map_eq_cons_iff.mp h
  obtain ⟨c, rest, rfl, hc, hrest⟩ := List.map_eq_cons_iff.mp hrest
  obtain rfl := List.map_eq_nil_iff.mp hrest
  simp only [Prod.mk.injEq] at hc hd
  have hpair : ∀ e ∈ s.sessions, e = d ∨ e = c := fun e he => by
    simpa [hrows] using Table.mem_def.mp he
  have hmem : d ∈ s.sessions ∧ c ∈ s.sessions := by
    simp [Table.mem_def, hrows]
  exact ⟨ls, s, c, d, hr, hc.1.2, hd.1.1,
    Sample.waits_of_pair hmem.2 (fun e he => (hpair e he).symm) hc.2,
    Sample.waits_of_pair hmem.1 hpair hd.2⟩

/-- Every open transaction can come to its end, with none aborted and none started. -/
theorem open_transactions_finish {lib : Lib} {db : Db} {ls : List Shown} {s : System}
    (hr : Sys.Run (Request.code lib) Separated [] (.idle db) ls s) :
    ∃ ls' s', Sys.Run (Request.code lib) (fun _ _ m s' => m.Own ∧ s'.Beside Request.Compatible)
      ls s ls' s' ∧ s'.sessions.rows = [] := by
  obtain ⟨ls', s', hr', hempty⟩ := Sys.exists_drained orderly_acyclic
    (@next_orderly lib) s (separated_orderly hr) ls
  exact ⟨ls', s', hr'.mono fun h => ⟨h.1, h.2.beside⟩, hempty⟩

/-- Both replays end, the one that waits included. -/
theorem open_transactions_finish_of_contention : ∃ ls s ls' s',
    Sys.Run (Request.code Sample.lib) Separated [] (.idle Db.empty) ls s ∧
      s.sessions.rows.length = 2 ∧ Sample.waits 6 s = true ∧
      Sys.Run (Request.code Sample.lib) (fun _ _ m s' => m.Own ∧ s'.Beside Request.Compatible)
        ls s ls' s' ∧ s'.sessions.rows = [] := by
  have hplay : (Sys.play (Request.code Sample.lib) Separated [] (.idle Db.empty)
      Sample.contention).any (fun p => p.2.sessions.rows.length = 2 && Sample.waits 6 p.2) =
        true := by decide +kernel
  obtain ⟨ls, s, hr, h⟩ := Sys.exists_run hplay
  obtain ⟨hlength, hwaits⟩ := Bool.and_eq_true_iff.mp h
  obtain ⟨ls', s', hr', hempty⟩ := open_transactions_finish hr
  exact ⟨ls, s, ls', s', hr, of_decide_eq_true hlength, hwaits, hr', hempty⟩

end EventHarbor
