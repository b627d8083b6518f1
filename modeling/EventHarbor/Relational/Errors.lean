import EventHarbor.Relational.Effects

/-!
# The errors that leave transactions

Which errors a program may raise, whatever the database answers to its
statements, and that a run of transactions shows no others.
-/

namespace Relational

open Txn

namespace Txn

variable {δ ω l γ ε α β : Type} [Engine δ ω l ε] {P : ε → Prop}

/-- Every error the program may raise is in `P`. -/
def Throws (P : ε → Prop) : Txn δ ω l γ ε α → Prop
  | done _ => True
  | fail e => P e
  | read _ k => ∀ d, (k d).Throws P
  | lock _ k => k.Throws P
  | tryLock _ k => ∀ b, (k b).Throws P
  | write w k => ∀ d : δ, (k (Engine.check w d)).Throws P

theorem Throws.mono {Q : ε → Prop} {p : Txn δ ω l γ ε α} (h : p.Throws P)
    (hPQ : ∀ e, P e → Q e) : p.Throws Q := by
  induction p with
  | done a => trivial
  | fail e => exact hPQ e h
  | read n k ih => exact fun d => ih d (h d)
  | lock i k ih => exact ih h
  | tryLock i k ih => exact fun b => ih b (h b)
  | write w k ih => exact fun d => ih _ (h d)

theorem Throws.of_forall (h : ∀ e, P e) (p : Txn δ ω l γ ε α) : p.Throws P := by
  induction p with
  | done a => trivial
  | fail e => exact h e
  | read n k ih => exact ih
  | lock i k ih => exact ih
  | tryLock i k ih => exact ih
  | write w k ih => exact fun d => ih _

theorem Throws.bind {p : Txn δ ω l γ ε α} {f : α → Txn δ ω l γ ε β} (h : p.Throws P)
    (hf : ∀ a, (f a).Throws P) : (p >>= f).Throws P := by
  show (p.bind f).Throws P
  induction p with
  | done a => exact hf a
  | fail e => exact h
  | read n k ih => exact fun d => ih d (h d)
  | lock i k ih => exact ih h
  | tryLock i k ih => exact fun b => ih b (h b)
  | write w k ih => exact fun d => ih _ (h d)

theorem Throws.exec (w : ω) (h : ∀ (d : δ) e, Engine.check w d = some e → P e) :
    (Txn.exec w : Txn δ ω l γ ε Unit).Throws P := by
  intro d
  cases he : Engine.check w d with
  | none => trivial
  | some e => exact h d e he

theorem Throws.run {p : Txn δ ω l γ ε α} (h : p.Throws P) {db : δ} {e : ε}
    (hrun : p.run db = .error e) : P e := by
  induction p generalizing db with
  | done a => cases hrun
  | fail e' => exact Except.error.inj hrun ▸ h
  | read n k ih => exact ih _ (h _) hrun
  | lock i k ih => exact ih h hrun
  | tryLock i k ih => exact ih _ (h _) hrun
  | write w k ih =>
    have hk := h db
    simp only [Txn.run] at hrun
    cases hc : Engine.check w db with
    | none =>
      rw [hc] at hrun hk
      exact ih none hk hrun
    | some e' =>
      rw [hc] at hrun hk
      exact ih (some e') hk hrun

end Txn

namespace Sys

variable {ι ρ δ ω l γ ε α : Type} [DecidableEq ι] [Engine δ ω l ε] {s s' : Sys ι ρ δ ω l γ ε α}
  {m : Label ι ρ ω ε α} {P : ρ → ε → Prop}

/-- What is left of every open transaction raises only errors of its request. -/
def Throws (P : ρ → ε → Prop) (s : Sys ι ρ δ ω l γ ε α) : Prop :=
  ∀ c ∈ s.sessions, c.prog.Throws (P c.req)

theorem stable_throws (P : ρ → ε → Prop) :
    Stable fun (r : ρ) (p : Txn δ ω l γ ε α) _ _ => p.Throws (P r) where
  read := fun h => h
  lock := fun h => h
  taken := fun h => h true
  skipped := fun h => h false
  refused := fun h d _ he => he ▸ h d
  written := fun h d he => he ▸ h d

variable [Inhabited γ] {code : ρ → Txn δ ω l γ ε α}

/-- A failure is raised by the program of an open session. -/
theorem act_fail {x : Action ι ρ} {t : ι} {r : ρ} {e : ε}
    (hx : s.act code x = some (.fail t r e, s')) :
    ∃ c ∈ s.sessions, c.id = t ∧ c.req = r ∧ c.prog = .fail e := by
  cases x with
  | start t' r' =>
    simp only [act] at hx
    split at hx <;> cases hx
  | next t' =>
    obtain ⟨c, hc, hn⟩ := Option.bind_eq_some_iff.mp hx
    obtain ⟨hc, -⟩ := Table.get?_eq_some.mp hc
    rcases next_cases hn with ⟨a, -, hm, -⟩ | ⟨e', hprog, hm, -⟩ | ⟨hm, -⟩
    · cases hm
    · obtain ⟨rfl, rfl, rfl⟩ := Label.fail.inj hm
      exact ⟨c, hc, rfl, rfl, hprog⟩
    · exact hm.elim
  | abort t' =>
    simp only [act] at hx
    split at hx <;> cases hx

theorem act_throws (hcode : ∀ r, (code r).Throws (P r)) {x : Action ι ρ}
    (hx : s.act code x = some (m, s')) (h : s.Throws P) :
    s'.Throws P ∧ ∀ t r e, m = .fail t r e → P r e := by
  refine ⟨act_each (stable_throws P) hcode hx h, ?_⟩
  rintro t r e rfl
  obtain ⟨c, hc, -, rfl, hprog⟩ := act_fail hx
  have hfail := h c hc
  rw [hprog] at hfail
  exact hfail

/-- The transactions of a run raise no other errors than their programs may. -/
theorem Run.throws {Q : List (Label ι ρ ω ε α) → Sys ι ρ δ ω l γ ε α → Label ι ρ ω ε α →
      Sys ι ρ δ ω l γ ε α → Prop} {db : δ} {ls : List (Label ι ρ ω ε α)}
    (hcode : ∀ r, (code r).Throws (P r)) (hr : Run code Q [] (idle db) ls s) : s.Throws P :=
  hr.each (stable_throws P) hcode

end Sys

end Relational
