import EventHarbor.Relational.Locks
import Mathlib.Data.Set.Basic

/-!
# Locking disciplines

When a program may take a lock or make a write, from what it has read and what
it holds, and what the open transactions of a run know of the database while each
of them keeps its discipline.
-/

namespace Relational

open Txn

variable {ι ρ δ ω l γ ε α β κ : Type} [Engine δ ω l ε]

/-- What a transaction that holds `L` learns from a database it reads, and when it
may wait for a lock, try one or make a write, given what it has learnt. -/
structure Discipline (δ ω l κ : Type) where
  learns : List l → δ → Set κ
  locks : Set κ → List l → l → Prop
  tries : List l → l → Prop
  writes : Set κ → List l → ω → Prop

namespace Txn

variable {D : Discipline δ ω l κ} {Q Q' : α → Set κ → List l → Prop} {K : Set κ} {L : List l}

/-- The program keeps the discipline and returns in `Q`, whatever it reads. -/
def Guarded (D : Discipline δ ω l κ) (Q : α → Set κ → List l → Prop) :
    Txn δ ω l γ ε α → Set κ → List l → Prop
  | done a, K, L => Q a K L
  | fail _, _, _ => True
  | read _ k, K, L => ∀ d, (k d).Guarded D Q (K ∪ D.learns L d) L
  | lock i k, K, L => D.locks K L i ∧ k.Guarded D Q K (i :: L)
  | tryLock i k, K, L =>
    D.tries L i ∧ (k true).Guarded D Q K (i :: L) ∧ (k false).Guarded D Q K L
  | write w k, K, L => D.writes K L w ∧ (∀ e, (k (some e)).Guarded D Q K L) ∧
      (k none).Guarded D Q K (Engine.keys δ w ++ L)

theorem Guarded.bind {Q : β → Set κ → List l → Prop} {p : Txn δ ω l γ ε α}
    {f : α → Txn δ ω l γ ε β} (h : p.Guarded D (fun a => (f a).Guarded D Q) K L) :
    (p >>= f).Guarded D Q K L := by
  show (p.bind f).Guarded D Q K L
  induction p generalizing K L with
  | done a => exact h
  | fail e => trivial
  | read n k ih => exact fun d => ih d (h d)
  | lock i k ih => exact ⟨h.1, ih h.2⟩
  | tryLock i k ih => exact ⟨h.1, ih _ h.2.1, ih _ h.2.2⟩
  | write w k ih => exact ⟨h.1, fun e => ih _ (h.2.1 e), ih _ h.2.2⟩

/-- What is learnt and held only grows. -/
theorem Guarded.imp {p : Txn δ ω l γ ε α} (h : p.Guarded D Q K L)
    (hQ : ∀ a K' L', K ⊆ K' → L ⊆ L' → Q a K' L' → Q' a K' L') : p.Guarded D Q' K L := by
  induction p generalizing K L with
  | done a => exact hQ a K L subset_rfl (List.Subset.refl L) h
  | fail e => trivial
  | read n k ih =>
    exact fun d => ih d (h d) fun a K' L' hK => hQ a K' L' (Set.subset_union_left.trans hK)
  | lock i k ih =>
    exact ⟨h.1, ih h.2 fun a K' L' hK hL =>
      hQ a K' L' hK (List.Subset.trans (List.subset_cons_self _ _) hL)⟩
  | tryLock i k ih =>
    exact ⟨h.1, ih _ h.2.1 fun a K' L' hK hL =>
      hQ a K' L' hK (List.Subset.trans (List.subset_cons_self _ _) hL), ih _ h.2.2 hQ⟩
  | write w k ih =>
    exact ⟨h.1, fun e => ih _ (h.2.1 e) hQ, ih _ h.2.2 fun a K' L' hK hL =>
      hQ a K' L' hK (List.Subset.trans (List.subset_append_right _ _) hL)⟩

/-- A program that only reads keeps every discipline. -/
theorem guarded_query {q : δ → α} (h : ∀ d, Q (q d) (K ∪ D.learns L d) L) :
    (query q : Txn δ ω l γ ε α).Guarded D Q K L := h

theorem guarded_acquire {i : l} {Q : Unit → Set κ → List l → Prop} (hi : D.locks K L i)
    (h : Q () K (i :: L)) : (acquire i : Txn δ ω l γ ε Unit).Guarded D Q K L := ⟨hi, h⟩

theorem guarded_exec {w : ω} {Q : Unit → Set κ → List l → Prop} (hw : D.writes K L w)
    (h : Q () K (Engine.keys δ w ++ L)) : (exec w : Txn δ ω l γ ε Unit).Guarded D Q K L :=
  ⟨hw, fun _ => trivial, h⟩

omit [Engine δ ω l ε] in
theorem guarded_lift [Engine δ ω l ε] {x : Except ε α} (h : ∀ a, Q a K L) :
    (lift x : Txn δ ω l γ ε α).Guarded D Q K L := by
  cases x with
  | ok a => exact h a
  | error e => trivial

end Txn

/-! ## Runs of transactions that keep their discipline -/

/-- What the discipline lets every transaction know, while other transactions
commit beside it: from its request, what it has learnt, its writes and its locks. -/
structure Upholds (D : ρ → Discipline δ ω l κ) (B : ρ → ρ → Prop)
    (I : δ → ρ → Set κ → List ω → List l → Prop) : Prop where
  start : ∀ db r, I db r ∅ [] []
  read : ∀ {db r K ws L}, I db r K ws L → I db r (K ∪ (D r).learns L (view ws db)) ws L
  lock : ∀ {db r K ws L i}, I db r K ws L → (D r).locks K L i → I db r K ws (i :: L)
  tryLock : ∀ {db r K ws L i}, I db r K ws L → (D r).tries L i → I db r K ws (i :: L)
  write : ∀ {db r K ws L w}, I db r K ws L → (D r).writes K L w →
    Engine.check w (view ws db) = none → I db r K (ws ++ [w]) (Engine.keys δ w ++ L)
  commit : ∀ {db r K ws L r' K' ws' L'}, I db r K ws L → I db r' K' ws' L' → B r r' →
    (∀ i ∈ L, ∀ j ∈ L', Engine.conflict δ ω i j = false) → I (view ws' db) r K ws L

namespace Sys

variable [DecidableEq ι] {D : ρ → Discipline δ ω l κ} {B : ρ → ρ → Prop}
  {I : δ → ρ → Set κ → List ω → List l → Prop} {s s' : Sys ι ρ δ ω l γ ε α}
  {c : Session ι ρ δ ω l γ ε α} {m : Label ι ρ ω ε α}

/-- The requests of any two open transactions are related. -/
def Beside (B : ρ → ρ → Prop) (s : Sys ι ρ δ ω l γ ε α) : Prop :=
  ∀ c ∈ s.sessions, ∀ d ∈ s.sessions, c.id ≠ d.id → B c.req d.req

/-- What is left of a session keeps its discipline, and it knows `I`. -/
def Keeps (D : ρ → Discipline δ ω l κ) (I : δ → ρ → Set κ → List ω → List l → Prop) (db : δ)
    (c : Session ι ρ δ ω l γ ε α) : Prop :=
  ∃ K, c.prog.Guarded (D c.req) (fun _ _ _ => True) K c.held ∧ I db c.req K c.writes c.held

omit [Engine δ ω l ε] in
instance [∀ r r', Decidable (B r r')] : Decidable (s.Beside B) :=
  inferInstanceAs (Decidable (∀ c ∈ s.sessions.rows, ∀ d ∈ s.sessions.rows,
    c.id ≠ d.id → B c.req d.req))

/-- A step of an open transaction brings no new request. -/
theorem next_beside (hc : c ∈ s.sessions) (hn : s.next c = some (m, s')) (hb : s.Beside B) :
    s'.Beside B := by
  have hclose : (s.close c.id).Beside B := fun d hd e he =>
    hb d (mem_close.mp hd).1 e (mem_close.mp he).1
  rcases next_cases hn with ⟨a, -, -, rfl⟩ | ⟨e, -, -, rfl⟩ | ⟨-, c', rfl, hres⟩
  · exact hclose
  · exact hclose
  · have hold : ∀ d ∈ (s.put c').sessions, ∃ d₀ ∈ s.sessions, d₀.id = d.id ∧ d₀.req = d.req := by
      intro d hd
      rcases (mem_put hc hres.id).mp hd with ⟨hd, -⟩ | rfl
      · exact ⟨d, hd, rfl, rfl⟩
      · exact ⟨c, hc, hres.id.symm, hres.req.symm⟩
    intro d hd e he hne
    obtain ⟨d₀, hd₀, hdid, hdreq⟩ := hold d hd
    obtain ⟨e₀, he₀, heid, hereq⟩ := hold e he
    rw [← hdreq, ← hereq]
    exact hb d₀ hd₀ e₀ he₀ (hdid ▸ heid ▸ hne)

/-- The next statement of a session keeps its discipline. -/
theorem next_keeps (hI : Upholds D B I) (hn : s.next c = some (m, s')) (hm : m.Statement c.id)
    (hc : Keeps D I s.db c) :
    ∃ c', s' = s.put c' ∧ c'.id = c.id ∧ c'.req = c.req ∧ Keeps D I s.db c' := by
  obtain ⟨K, hg, hk⟩ := hc
  unfold Sys.next at hn
  cases hp : c.prog with
  | done a =>
    simp only [hp, Option.some.injEq, Prod.mk.injEq] at hn
    exact absurd hm (hn.1 ▸ id)
  | fail e =>
    simp only [hp, Option.some.injEq, Prod.mk.injEq] at hn
    exact absurd hm (hn.1 ▸ id)
  | read n k =>
    rw [hp] at hg
    simp only [hp, Option.some.injEq, Prod.mk.injEq] at hn
    exact ⟨_, hn.2.symm, rfl, rfl, _, hg _, hI.read hk⟩
  | lock i k =>
    rw [hp] at hg
    simp only [hp] at hn
    split at hn
    · simp only [Option.some.injEq, Prod.mk.injEq] at hn
      exact ⟨_, hn.2.symm, rfl, rfl, K, hg.2, hI.lock hk hg.1⟩
    · cases hn
  | tryLock i k =>
    rw [hp] at hg
    simp only [hp] at hn
    split at hn
    · simp only [Option.some.injEq, Prod.mk.injEq] at hn
      exact ⟨_, hn.2.symm, rfl, rfl, K, hg.2.1, hI.tryLock hk hg.1⟩
    · simp only [Option.some.injEq, Prod.mk.injEq] at hn
      exact ⟨_, hn.2.symm, rfl, rfl, K, hg.2.2, hk⟩
  | write w k =>
    rw [hp] at hg
    simp only [hp] at hn
    split at hn
    · cases hcheck : Engine.check w (view c.writes s.db) with
      | some e =>
        simp only [hcheck, Option.some.injEq, Prod.mk.injEq] at hn
        exact ⟨_, hn.2.symm, rfl, rfl, K, hg.2.1 e, hk⟩
      | none =>
        simp only [hcheck, Option.some.injEq, Prod.mk.injEq] at hn
        exact ⟨_, hn.2.symm, rfl, rfl, K, hg.2.2, hI.write hk hg.1 hcheck⟩
    · cases hn

variable [Inhabited γ] {code : ρ → Txn δ ω l γ ε α} {x : Action ι ρ}

theorem act_keeps (hI : Upholds D B I)
    (hcode : ∀ r, (code r).Guarded (D r) (fun _ _ _ => True) ∅ [])
    (hx : s.act code x = some (m, s')) (hs : s.Apart) (hb : s.Beside B)
    (h : ∀ c ∈ s.sessions, Keeps D I s.db c) : ∀ c ∈ s'.sessions, Keeps D I s'.db c := by
  cases x with
  | start t r =>
    simp only [act] at hx
    split at hx
    · cases hx
    · simp only [Option.some.injEq, Prod.mk.injEq] at hx
      obtain ⟨-, rfl⟩ := hx
      intro c hc
      rcases Table.mem_of_mem_insert hc with hc | rfl
      · exact h c hc
      · exact ⟨∅, hcode r, hI.start _ _⟩
  | next t =>
    obtain ⟨d, hd, hn⟩ := Option.bind_eq_some_iff.mp hx
    obtain ⟨hd, -⟩ := Table.get?_eq_some.mp hd
    rcases next_cases hn with ⟨a, -, -, rfl⟩ | ⟨e, -, -, rfl⟩ | ⟨hm, -⟩
    · intro c hc
      obtain ⟨hc, hne⟩ := mem_close.mp hc
      obtain ⟨K, hg, hk⟩ := h c hc
      obtain ⟨K', -, hk'⟩ := h d hd
      exact ⟨K, hg, hI.commit hk hk' (hb c hc d hd hne) (hs c hc d hd hne)⟩
    · exact fun c hc => h c (mem_close.mp hc).1
    · obtain ⟨d', rfl, hid, -, hd'⟩ := next_keeps hI hn hm (h d hd)
      intro c hc
      rcases (mem_put hd hid).mp hc with ⟨hc, -⟩ | rfl
      · exact h c hc
      · exact hd'
  | abort t =>
    simp only [act] at hx
    split at hx
    · simp only [Option.some.injEq, Prod.mk.injEq] at hx
      obtain ⟨-, rfl⟩ := hx
      exact fun c hc => h c (mem_close.mp hc).1
    · cases hx

/-- What holds of the open transactions of a run. -/
structure Orderly (D : ρ → Discipline δ ω l κ) (B : ρ → ρ → Prop)
    (I : δ → ρ → Set κ → List ω → List l → Prop) (s : Sys ι ρ δ ω l γ ε α) : Prop where
  apart : s.Apart
  beside : s.Beside B
  keeps : ∀ c ∈ s.sessions, Keeps D I s.db c

theorem act_orderly (hI : Upholds D B I)
    (hcode : ∀ r, (code r).Guarded (D r) (fun _ _ _ => True) ∅ [])
    (hsymm : ∀ i j : l, Engine.conflict δ ω i j = Engine.conflict δ ω j i)
    (hx : s.act code x = some (m, s')) (hb : s'.Beside B) (h : Orderly D B I s) :
    Orderly D B I s' :=
  ⟨act_apart hsymm hx h.apart, hb, act_keeps hI hcode hx h.apart h.beside h.keeps⟩

theorem Run.orderly (hI : Upholds D B I)
    (hcode : ∀ r, (code r).Guarded (D r) (fun _ _ _ => True) ∅ [])
    (hsymm : ∀ i j : l, Engine.conflict δ ω i j = Engine.conflict δ ω j i) {db : δ}
    {ls : List (Label ι ρ ω ε α)}
    (hr : Run code (fun _ _ _ s => s.Beside B) [] (idle db) ls s) : Orderly D B I s := by
  induction hr with
  | nil =>
    exact ⟨idle_apart db, fun c hc => absurd hc (Table.not_mem_empty c),
      fun c hc => absurd hc (Table.not_mem_empty c)⟩
  | snoc _ hx hb ih => exact act_orderly hI hcode hsymm hx hb ih

end Sys

end Relational
