import EventHarbor.Relational.Locks
import Mathlib.Data.Fintype.Card
import Mathlib.Logic.Hydra

/-!
# Waiting and deadlock

Which transaction waits for which, why an order on the locks rules out cycles, and
that transactions that never wait in a cycle can all be brought to their end.
-/

namespace Relational

open Txn Relation

variable {ι ρ δ ω l γ ε α : Type}

namespace Txn

/-- The locks that the next statement of a program waits for. -/
def wanted [Engine δ ω l ε] : Txn δ ω l γ ε α → List l
  | lock i _ => [i]
  | write w _ => Engine.keys δ w
  | _ => []

theorem answers_wellFounded :
    WellFounded fun q p : Txn δ ω l γ ε α => Answers p q := by
  refine ⟨fun p => ?_⟩
  induction p with
  | done a => exact ⟨_, fun q h => by cases h⟩
  | fail e => exact ⟨_, fun q h => by cases h⟩
  | read n k ih => exact ⟨_, fun q h => by cases h; exact ih _⟩
  | lock i k ih => exact ⟨_, fun q h => by cases h; exact ih⟩
  | tryLock i k ih => exact ⟨_, fun q h => by cases h; exact ih _⟩
  | write w k ih => exact ⟨_, fun q h => by cases h; exact ih _⟩

end Txn

/-- A step that the transaction takes by itself. -/
def Label.Own : Label ι ρ ω ε α → Prop
  | .start _ _ | .abort _ => False
  | .tau _ | .wrote _ _ | .commit _ _ _ | .fail _ _ _ => True

theorem Label.Statement.own {t : ι} {m : Label ι ρ ω ε α} (h : m.Statement t) : m.Own := by
  cases m <;> trivial

namespace Sys

variable {s s' : Sys ι ρ δ ω l γ ε α} {c c' d : Session ι ρ δ ω l γ ε α}

/-! ### The transactions by their programs -/

/-- What is left of the open transactions. -/
def progs (s : Sys ι ρ δ ω l γ ε α) : Multiset (Txn δ ω l γ ε α) :=
  (s.sessions.rows.map Session.prog : List (Txn δ ω l γ ε α))

theorem nodup_sessions (s : Sys ι ρ δ ω l γ ε α) : s.sessions.rows.Nodup :=
  .of_map _ s.sessions.nodup

variable [DecidableEq ι]

theorem perm_close (hc : c ∈ s.sessions) :
    s.sessions.rows.Perm (c :: (s.close c.id).sessions.rows) := by
  have hnot : c ∉ (s.close c.id).sessions.rows := fun h => (mem_close.mp h).2 rfl
  refine (List.perm_ext_iff_of_nodup (nodup_sessions s)
    (List.nodup_cons.mpr ⟨hnot, nodup_sessions _⟩)).mpr fun d => ?_
  refine ⟨fun hd => ?_, fun hd => ?_⟩
  · by_cases hid : d.id = c.id
    · exact List.mem_cons.mpr (.inl (Table.eq_of_key hd hc hid))
    · exact List.mem_cons_of_mem _ (mem_close.mpr ⟨hd, hid⟩)
  · rcases List.mem_cons.mp hd with rfl | hd
    · exact hc
    · exact (mem_close.mp hd).1

theorem perm_put (hc : c ∈ s.sessions) (hid : c'.id = c.id) :
    (s.put c').sessions.rows.Perm (c' :: (s.close c.id).sessions.rows) := by
  have hnot : c' ∉ (s.close c.id).sessions.rows := fun h => (mem_close.mp h).2 hid
  refine (List.perm_ext_iff_of_nodup (nodup_sessions _)
    (List.nodup_cons.mpr ⟨hnot, nodup_sessions _⟩)).mpr fun d => ?_
  refine (mem_put hc hid).trans ⟨fun hd => ?_, fun hd => ?_⟩
  · rcases hd with ⟨hd, hne⟩ | rfl
    · exact List.mem_cons_of_mem _ (mem_close.mpr ⟨hd, fun h => hne (Table.eq_of_key hd hc h)⟩)
    · exact List.mem_cons_self
  · rcases List.mem_cons.mp hd with rfl | hd
    · exact .inr rfl
    · obtain ⟨hd, hne⟩ := mem_close.mp hd
      exact .inl ⟨hd, fun h => hne (h ▸ rfl)⟩

theorem progs_close (hc : c ∈ s.sessions) : (s.close c.id).progs + {c.prog} = s.progs := by
  rw [progs, progs, Multiset.coe_eq_coe.mpr ((perm_close hc).map _), List.map_cons, add_comm]
  rfl

theorem progs_put (hc : c ∈ s.sessions) (hid : c'.id = c.id) :
    (s.put c').progs + {c.prog} = s.progs + {c'.prog} := by
  rw [← progs_close hc, progs, Multiset.coe_eq_coe.mpr ((perm_put hc hid).map _), List.map_cons]
  show c'.prog ::ₘ (s.close c.id).progs + {c.prog} = _
  rw [← Multiset.singleton_add, add_assoc, add_comm]

variable [Engine δ ω l ε]

/-- A step of a session leaves less of its program. -/
theorem next_progs {m : Label ι ρ ω ε α} (hc : c ∈ s.sessions) (hn : s.next c = some (m, s')) :
    m.Own ∧ CutExpand (fun q p => Answers p q) s'.progs s.progs := by
  have hclose : CutExpand (fun q p => Answers p q) (s.close c.id).progs s.progs :=
    ⟨0, c.prog, fun _ h => absurd h (Multiset.notMem_zero _), by rw [progs_close hc, add_zero]⟩
  rcases next_cases hn with ⟨a, -, rfl, rfl⟩ | ⟨e, -, rfl, rfl⟩ | ⟨hm, -⟩
  · exact ⟨trivial, hclose⟩
  · exact ⟨trivial, hclose⟩
  · obtain ⟨c', rfl, hadv⟩ := next_advances hn hm
    refine ⟨hm.own, {c'.prog}, c.prog, fun q hq => ?_, progs_put hc hadv.id⟩
    exact Multiset.mem_singleton.mp hq ▸ hadv.answers

/-! ### Waiting -/

/-- `c` waits for `i`, and `d` holds a lock that conflicts with it. -/
def WaitsOn (s : Sys ι ρ δ ω l γ ε α) (i : l) (c d : Session ι ρ δ ω l γ ε α) : Prop :=
  c ∈ s.sessions ∧ d ∈ s.sessions ∧ d.id ≠ c.id ∧ i ∈ c.prog.wanted ∧
    ∃ j ∈ d.held, Engine.conflict δ ω i j = true

def WaitsFor (s : Sys ι ρ δ ω l γ ε α) (c d : Session ι ρ δ ω l γ ε α) : Prop :=
  ∃ i, s.WaitsOn i c d

omit [DecidableEq ι] in
theorem WaitsOn.held {i : l} (h : s.WaitsOn i c d) : d.held ≠ [] := by
  obtain ⟨-, -, -, -, j, hj, -⟩ := h
  exact List.ne_nil_of_mem hj

omit [DecidableEq ι] in
/-- A lock that is not free is held by somebody else. -/
theorem exists_waitsOn {i : l} (hc : c ∈ s.sessions) (hi : i ∈ c.prog.wanted)
    (hfree : ¬s.Free c.id i) : ∃ d, s.WaitsOn i c d := by
  simp only [Free, not_forall] at hfree
  obtain ⟨d, hd, hne, j, hj, hij⟩ := hfree
  exact ⟨d, hc, hd, hne, hi, j, hj, by simpa using hij⟩

/-- A transaction that cannot take its next statement waits for another one. -/
theorem exists_waitsFor (hc : c ∈ s.sessions) (hn : s.next c = none) : ∃ d, s.WaitsFor c d := by
  unfold Sys.next at hn
  cases hp : c.prog with
  | lock i k =>
    simp only [hp] at hn
    split at hn
    · cases hn
    · rename_i hfree
      obtain ⟨d, hd⟩ := exists_waitsOn hc (hp ▸ List.mem_singleton_self i) hfree
      exact ⟨d, i, hd⟩
  | write w k =>
    simp only [hp] at hn
    split at hn
    · split at hn <;> cases hn
    · rename_i hfree
      simp only [not_forall] at hfree
      obtain ⟨i, hi, hfree⟩ := hfree
      obtain ⟨d, hd⟩ := exists_waitsOn hc (hp ▸ hi) hfree
      exact ⟨d, i, hd⟩
  | tryLock i k =>
    simp only [hp] at hn
    split at hn <;> cases hn
  | _ =>
    rw [hp] at hn
    cases hn

omit [DecidableEq ι] in
/-- While whoever is waited for waits only for locks of a higher rank, nobody waits
for himself. Only transactions that hold a lock matter: nobody waits for the others. -/
theorem not_waitsFor_self (rank : l → ℕ)
    (hclimb : ∀ {i k b c d}, s.WaitsOn i b c → b.held ≠ [] → s.WaitsOn k c d → rank i < rank k)
    (c : Session ι ρ δ ω l γ ε α) : ¬TransGen s.WaitsFor c c := by
  -- Along a path the last lock waited for outranks every lock waited for at its start.
  have hpath : ∀ {c d}, TransGen s.WaitsFor c d → c.held ≠ [] →
      ∃ e k, s.WaitsOn k e d ∧ e.held ≠ [] ∧
        ∀ {b i}, s.WaitsOn i b c → b.held ≠ [] → rank i < rank k := by
    intro c d hcd hheld
    induction hcd with
    | single hcd =>
      obtain ⟨k, hk⟩ := hcd
      exact ⟨c, k, hk, hheld, fun hi hb => hclimb hi hb hk⟩
    | @tail d d' _ hdd ih =>
      obtain ⟨e, k, hk, he, hrank⟩ := ih
      obtain ⟨k', hk'⟩ := hdd
      exact ⟨d, k', hk', hk.held, fun hi hb => (hrank hi hb).trans (hclimb hk he hk')⟩
  intro hcc
  have hheld : c.held ≠ [] := by
    obtain ⟨d, -, i, hd⟩ := TransGen.tail'_iff.mp hcc
    exact hd.held
  obtain ⟨e, k, hk, he, hrank⟩ := hpath hcc hheld
  exact lt_irrefl _ (hrank hk he)

/-- When nobody waits for himself, somebody does not wait. -/
theorem exists_next (hacyclic : ∀ c, ¬TransGen s.WaitsFor c c) (hc : c ∈ s.sessions) :
    ∃ d ∈ s.sessions, ∃ p, s.next d = some p := by
  let r : {d // d ∈ s.sessions.rows} → {d // d ∈ s.sessions.rows} → Prop :=
    fun x y => TransGen s.WaitsFor y.1 x.1
  have htrans : IsTrans _ r := ⟨fun _ _ _ hxy hyz => hyz.trans hxy⟩
  have hirrefl : Std.Irrefl r := ⟨fun x => hacyclic x.1⟩
  have hfinite : Finite {d // d ∈ s.sessions.rows} := List.finite_toSet s.sessions.rows
  have hwf : WellFounded r := Finite.wellFounded_of_trans_of_irrefl r
  obtain ⟨⟨d, hd⟩, -, hmin⟩ := hwf.has_min Set.univ ⟨⟨c, hc⟩, trivial⟩
  refine ⟨d, hd, Option.ne_none_iff_exists'.mp fun hnone => ?_⟩
  obtain ⟨e, i, he⟩ := exists_waitsFor hd hnone
  exact hmin ⟨e, he.2.1⟩ trivial (.single ⟨i, he⟩)

variable [Inhabited γ] {code : ρ → Txn δ ω l γ ε α}

/-- While nobody waits for himself, every open transaction can come to its end:
no transaction has to be aborted and none has to be started. -/
theorem exists_drained {J : Sys ι ρ δ ω l γ ε α → Prop}
    (hacyclic : ∀ {s}, J s → ∀ c, ¬TransGen s.WaitsFor c c)
    (hnext : ∀ {s t m s'}, J s → s.act code (.next t) = some (m, s') → J s')
    (s : Sys ι ρ δ ω l γ ε α) (hs : J s) (ls : List (Label ι ρ ω ε α)) :
    ∃ ls' s', Run code (fun _ _ m s' => m.Own ∧ J s') ls s ls' s' ∧ s'.sessions.rows = [] := by
  have hwf : WellFounded (InvImage (CutExpand fun q p : Txn δ ω l γ ε α => Answers p q)
      (progs : Sys ι ρ δ ω l γ ε α → _)) := InvImage.wf _ answers_wellFounded.cutExpand
  induction s using hwf.induction generalizing ls with
  | _ s ih =>
    cases hrows : s.sessions.rows with
    | nil => exact ⟨ls, s, .nil, hrows⟩
    | cons c rest =>
      have hc : c ∈ s.sessions := Table.mem_def.mpr (hrows ▸ List.mem_cons_self)
      obtain ⟨d, hd, ⟨m, s₁⟩, hn⟩ := exists_next (hacyclic hs) hc
      obtain ⟨hm, hless⟩ := next_progs hd hn
      have hact : s.act code (.next d.id) = some (m, s₁) := by
        simp only [act, Table.get?_key hd, Option.bind_some, hn]
      obtain ⟨ls', s', hr, hempty⟩ := ih s₁ hless (hnext hs hact) (ls ++ [m])
      exact ⟨ls', s', (Run.snoc .nil hact ⟨hm, hnext hs hact⟩).trans hr, hempty⟩

end Sys

end Relational
