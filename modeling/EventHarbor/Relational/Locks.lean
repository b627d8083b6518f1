import EventHarbor.Relational.System
import Mathlib.Logic.Relation
import Mathlib.Combinatorics.Enumerative.DoubleCounting

/-!
# The locks that open transactions hold

Which locks a program may still take, what may be left of a program once some
of its statements are answered, and that two open transactions never hold
conflicting locks.
-/

namespace Relational

open Txn

namespace Txn

variable {δ ω l γ ε α β : Type}

/-- `q` is left of `p` once the first statement of `p` is answered. -/
inductive Answers : Txn δ ω l γ ε α → Txn δ ω l γ ε α → Prop
  | read (n : δ → Option γ) (k : δ → Txn δ ω l γ ε α) (d : δ) : Answers (.read n k) (k d)
  | lock (i : l) (k : Txn δ ω l γ ε α) : Answers (.lock i k) k
  | tryLock (i : l) (k : Bool → Txn δ ω l γ ε α) (b : Bool) : Answers (.tryLock i k) (k b)
  | write (w : ω) (k : Option ε → Txn δ ω l γ ε α) (e : Option ε) : Answers (.write w k) (k e)

/-- `q` may be left of `p` after some of its statements. -/
abbrev Leaves : Txn δ ω l γ ε α → Txn δ ω l γ ε α → Prop := Relation.ReflTransGen Answers

theorem bind_assoc {τ : Type} (p : Txn δ ω l γ ε α) (f : α → Txn δ ω l γ ε β)
    (g : β → Txn δ ω l γ ε τ) : ((p >>= f) >>= g) = p >>= fun a => f a >>= g := by
  show (p.bind f).bind g = p.bind fun a => (f a).bind g
  induction p with
  | done a => rfl
  | fail e => rfl
  | read n k ih => exact congrArg _ (funext ih)
  | lock i k ih => exact congrArg _ ih
  | tryLock i k ih => exact congrArg _ (funext ih)
  | write w k ih => exact congrArg _ (funext ih)

variable [Engine δ ω l ε]

/-- Every lock the program may take is in `P`. -/
def Locks (P : l → Prop) : Txn δ ω l γ ε α → Prop
  | done _ => True
  | fail _ => True
  | read _ k => ∀ d, (k d).Locks P
  | lock i k => P i ∧ k.Locks P
  | tryLock i k => P i ∧ ∀ b, (k b).Locks P
  | write w k => (∀ i ∈ Engine.keys δ w, P i) ∧ ∀ e, (k e).Locks P

variable {P : l → Prop}

/-- Sequencing, where the second program may rely on what the first returns. -/
theorem Locks.bindReturns {Q : α → Prop} {p : Txn δ ω l γ ε α} {f : α → Txn δ ω l γ ε β}
    (h : p.Locks P) (hr : p.Returns Q) (hf : ∀ a, Q a → (f a).Locks P) : (p >>= f).Locks P := by
  show (p.bind f).Locks P
  induction p with
  | done a => exact hf a hr
  | fail e => trivial
  | read n k ih => exact fun d => ih d (h d) (hr d)
  | lock i k ih => exact ⟨h.1, ih h.2 hr⟩
  | tryLock i k ih => exact ⟨h.1, fun b => ih b (h.2 b) (hr b)⟩
  | write w k ih => exact ⟨h.1, fun e => ih e (h.2 e) (hr e)⟩

theorem Locks.bind {p : Txn δ ω l γ ε α} {f : α → Txn δ ω l γ ε β} (h : p.Locks P)
    (hf : ∀ a, (f a).Locks P) : (p >>= f).Locks P :=
  h.bindReturns (.of_forall (fun _ => trivial) p) fun a _ => hf a

theorem Locks.answers {p q : Txn δ ω l γ ε α} (h : p.Locks P) (ha : Answers p q) :
    q.Locks P := by
  cases ha with
  | read n k d => exact h d
  | lock i k => exact h.2
  | tryLock i k b => exact h.2 b
  | write w k e => exact h.2 e

end Txn

namespace Sys

variable {ι ρ δ ω l γ ε α : Type} [DecidableEq ι] [Engine δ ω l ε]
  {s s' : Sys ι ρ δ ω l γ ε α} {c c' : Session ι ρ δ ω l γ ε α} {m : Label ι ρ ω ε α}

theorem next_read {n : δ → Option γ} {k : δ → Txn δ ω l γ ε α} (hp : c.prog = .read n k) :
    s.next c = some (.tau c.id, s.put { c with
      prog := k (view c.writes s.db), note := (n (view c.writes s.db)).getD c.note }) := by
  rw [next, hp]

theorem next_tryLock {i : l} {k : Bool → Txn δ ω l γ ε α} (hp : c.prog = .tryLock i k) :
    s.next c = if s.Free c.id i then
      some (.tau c.id, s.put { c with prog := k true, held := i :: c.held })
    else some (.tau c.id, s.put { c with prog := k false }) := by
  rw [next, hp]

/-- What a statement does to the transaction that takes it. -/
structure Advances (s : Sys ι ρ δ ω l γ ε α) (c c' : Session ι ρ δ ω l γ ε α) : Prop where
  id : c'.id = c.id
  req : c'.req = c.req
  answers : Answers c.prog c'.prog
  held : c.held ⊆ c'.held
  free : ∀ i ∈ c'.held, i ∈ c.held ∨ s.Free c.id i
  locks : ∀ P, c.prog.Locks P → ∀ i ∈ c'.held, i ∈ c.held ∨ P i

theorem next_advances (hn : s.next c = some (m, s')) (hm : m.Statement c.id) :
    ∃ c', s' = s.put c' ∧ Advances s c c' := by
  unfold Sys.next at hn
  cases hp : c.prog with
  | done a =>
    simp only [hp, Option.some.injEq, Prod.mk.injEq] at hn
    exact absurd hm (hn.1 ▸ id)
  | fail e =>
    simp only [hp, Option.some.injEq, Prod.mk.injEq] at hn
    exact absurd hm (hn.1 ▸ id)
  | read n k =>
    simp only [hp, Option.some.injEq, Prod.mk.injEq] at hn
    exact ⟨_, hn.2.symm, rfl, rfl, hp ▸ .read n k _, fun _ h => h, fun _ h => .inl h,
      fun _ _ _ h => .inl h⟩
  | lock i k =>
    simp only [hp] at hn
    split at hn
    · rename_i hfree
      simp only [Option.some.injEq, Prod.mk.injEq] at hn
      refine ⟨_, hn.2.symm, rfl, rfl, hp ▸ .lock i k, List.subset_cons_self _ _,
        fun j hj => ?_, fun P hP j hj => ?_⟩
      · exact (List.mem_cons.mp hj).elim (fun h => .inr (h ▸ hfree)) .inl
      · rw [hp] at hP
        exact (List.mem_cons.mp hj).elim (fun h => .inr (h ▸ hP.1)) .inl
    · cases hn
  | tryLock i k =>
    simp only [hp] at hn
    split at hn
    · rename_i hfree
      simp only [Option.some.injEq, Prod.mk.injEq] at hn
      refine ⟨_, hn.2.symm, rfl, rfl, hp ▸ .tryLock i k true, List.subset_cons_self _ _,
        fun j hj => ?_, fun P hP j hj => ?_⟩
      · exact (List.mem_cons.mp hj).elim (fun h => .inr (h ▸ hfree)) .inl
      · rw [hp] at hP
        exact (List.mem_cons.mp hj).elim (fun h => .inr (h ▸ hP.1)) .inl
    · simp only [Option.some.injEq, Prod.mk.injEq] at hn
      exact ⟨_, hn.2.symm, rfl, rfl, hp ▸ .tryLock i k false, fun _ h => h, fun _ h => .inl h,
        fun _ _ _ h => .inl h⟩
  | write w k =>
    simp only [hp] at hn
    split at hn
    · rename_i hfree
      cases hcheck : Engine.check w (view c.writes s.db) with
      | some e =>
        simp only [hcheck, Option.some.injEq, Prod.mk.injEq] at hn
        exact ⟨_, hn.2.symm, rfl, rfl, hp ▸ .write w k (some e), fun _ h => h,
          fun _ h => .inl h, fun _ _ _ h => .inl h⟩
      | none =>
        simp only [hcheck, Option.some.injEq, Prod.mk.injEq] at hn
        refine ⟨_, hn.2.symm, rfl, rfl, hp ▸ .write w k none, List.subset_append_right _ _,
          fun j hj => ?_, fun P hP j hj => ?_⟩
        · exact (List.mem_append.mp hj).elim (fun h => .inr (hfree j h)) .inl
        · rw [hp] at hP
          exact (List.mem_append.mp hj).elim (fun h => .inr (hP.1 j h)) .inl
    · cases hn

/-- No two open transactions hold conflicting locks. -/
def Apart (s : Sys ι ρ δ ω l γ ε α) : Prop :=
  ∀ c ∈ s.sessions, ∀ c' ∈ s.sessions, c.id ≠ c'.id → ∀ i ∈ c.held, ∀ j ∈ c'.held,
    Engine.conflict δ ω i j = false

omit [DecidableEq ι] in
/-- Transactions that hold conflicting locks are one. -/
theorem Apart.eq (h : s.Apart) (hc : c ∈ s.sessions) (hc' : c' ∈ s.sessions) {i j : l}
    (hi : i ∈ c.held) (hj : j ∈ c'.held) (hij : Engine.conflict δ ω i j = true) : c = c' := by
  by_contra hne
  have hid : c.id ≠ c'.id := fun hid => hne (Table.eq_of_key hc hc' hid)
  have := h c hc c' hc' hid i hi j hj
  rw [hij] at this
  cases this

/-! ### Counting the holders of locks -/

/-- The names of the open transactions. -/
def ids (s : Sys ι ρ δ ω l γ ε α) : Finset ι := (s.sessions.rows.map Session.id).toFinset

omit [Engine δ ω l ε] in
theorem mem_ids {t : ι} : t ∈ s.ids ↔ ∃ c ∈ s.sessions, c.id = t := by
  simp only [ids, List.mem_toFinset, List.mem_map]
  rfl

omit [Engine δ ω l ε] in
theorem card_ids : s.ids.card = s.sessions.rows.length := by
  rw [ids, List.toFinset_card_of_nodup s.sessions.nodup, List.length_map]

/-- Transactions that each hold an exclusive lock on one of `S` are no more
than `S`. -/
theorem Apart.length_le {κ : Type} (h : s.Apart) (f : κ → l)
    (hf : ∀ k, Engine.conflict δ ω (f k) (f k) = true) (S : Finset κ)
    (hS : ∀ c ∈ s.sessions, ∃ k ∈ S, f k ∈ c.held) : s.sessions.rows.length ≤ S.card := by
  rw [← card_ids]
  refine Finset.card_le_card_of_forall_subsingleton
    (fun t k => ∃ c ∈ s.sessions, c.id = t ∧ f k ∈ c.held) ?_ ?_
  · intro t ht
    obtain ⟨c, hc, rfl⟩ := mem_ids.mp ht
    obtain ⟨k, hk, hheld⟩ := hS c hc
    exact ⟨k, hk, c, hc, rfl, hheld⟩
  · rintro k - t ⟨-, c, hc, rfl, hk⟩ t' ⟨-, c', hc', rfl, hk'⟩
    exact congrArg Session.id (h.eq hc hc' hk hk' (hf k))

omit [Engine δ ω l ε] in
/-- Locks on `S` that are spread over the transactions other than `c`, at most
one each, are fewer than the transactions. -/
theorem card_lt_of_held {κ : Type} (f : κ → l) (S : Finset κ) (hc : c ∈ s.sessions)
    (hS : ∀ k ∈ S, ∃ d ∈ s.sessions, d.id ≠ c.id ∧ f k ∈ d.held)
    (hone : ∀ d ∈ s.sessions, ∀ k ∈ S, ∀ k' ∈ S, f k ∈ d.held → f k' ∈ d.held → k = k') :
    S.card < s.sessions.rows.length := by
  have hle : S.card ≤ (s.ids.erase c.id).card := by
    refine Finset.card_le_card_of_forall_subsingleton
      (fun k t => ∃ d ∈ s.sessions, d.id = t ∧ f k ∈ d.held) ?_ ?_
    · intro k hk
      obtain ⟨d, hd, hne, hheld⟩ := hS k hk
      exact ⟨d.id, Finset.mem_erase.mpr ⟨hne, mem_ids.mpr ⟨d, hd, rfl⟩⟩, d, hd, rfl, hheld⟩
    · rintro t - k ⟨hk, d, hd, rfl, hheld⟩ k' ⟨hk', d', hd', hid, hheld'⟩
      obtain rfl := Table.eq_of_key hd' hd hid
      exact hone d' hd' k hk k' hk' hheld hheld'
  have hmem : c.id ∈ s.ids := mem_ids.mpr ⟨c, hc, rfl⟩
  rw [← card_ids]
  exact hle.trans_lt (Finset.card_erase_lt_of_mem hmem)

variable [Inhabited γ] {code : ρ → Txn δ ω l γ ε α}

theorem act_apart (hsymm : ∀ i j : l, Engine.conflict δ ω i j = Engine.conflict δ ω j i)
    {x : Action ι ρ} (hx : s.act code x = some (m, s')) (hs : s.Apart) : s'.Apart := by
  have hclose : ∀ t, (s.close t).Apart := fun t d hd e he =>
    hs d (mem_close.mp hd).1 e (mem_close.mp he).1
  cases x with
  | start t r =>
    simp only [act] at hx
    split at hx
    · cases hx
    · simp only [Option.some.injEq, Prod.mk.injEq] at hx
      obtain ⟨-, rfl⟩ := hx
      intro d hd e he hne i hi j hj
      rcases Table.mem_of_mem_insert hd with hd | rfl
      · rcases Table.mem_of_mem_insert he with he | rfl
        · exact hs d hd e he hne i hi j hj
        · cases hj
      · cases hi
  | next t =>
    obtain ⟨c, hc, hn⟩ := Option.bind_eq_some_iff.mp hx
    obtain ⟨hc, -⟩ := Table.get?_eq_some.mp hc
    rcases next_cases hn with ⟨a, -, -, rfl⟩ | ⟨e, -, -, rfl⟩ | ⟨hm, -⟩
    · exact hclose c.id
    · exact hclose c.id
    · obtain ⟨c', rfl, hadv⟩ := next_advances hn hm
      have hnew : ∀ d ∈ s.sessions, d.id ≠ c.id → ∀ i ∈ c'.held, ∀ j ∈ d.held,
          Engine.conflict δ ω i j = false := by
        intro d hd hne i hi j hj
        rcases hadv.free i hi with hi | hi
        · exact hs c hc d hd (Ne.symm hne) i hi j hj
        · exact hi d hd hne j hj
      intro d hd e he hne i hi j hj
      rcases (mem_put hc hadv.id).mp hd with ⟨hd₁, -⟩ | rfl <;>
        rcases (mem_put hc hadv.id).mp he with ⟨he₁, -⟩ | rfl
      · exact hs d hd₁ e he₁ hne i hi j hj
      · rw [hsymm]
        exact hnew d hd₁ (hadv.id ▸ hne) j hj i hi
      · exact hnew e he₁ (hadv.id ▸ Ne.symm hne) i hi j hj
      · exact absurd rfl hne
  | abort t =>
    simp only [act] at hx
    split at hx
    · simp only [Option.some.injEq, Prod.mk.injEq] at hx
      obtain ⟨-, rfl⟩ := hx
      exact hclose t
    · cases hx

omit [DecidableEq ι] [Inhabited γ] in
theorem idle_apart (db : δ) : (idle db : Sys ι ρ δ ω l γ ε α).Apart :=
  fun c hc => absurd hc (Table.not_mem_empty c)

end Sys

end Relational
