import EventHarbor.Relational.System
import Mathlib.Logic.Relation

/-!
# Reasoning about one transaction at a time

A `Contract` says what every commit may do to the database, given the locks
the committing transaction holds. `Contract.Safe` follows one transaction
through its statements and lets, before each of them, any number of other
transactions commit whatever the contract and the held locks allow.
`Sys.act_sound` then composes: if every program is safe on its own, every step
of every interleaving meets the contract.
-/

namespace Relational

open Txn

/-- What the transactions of a system promise each other. -/
structure Contract (ρ δ ω l γ ε α : Type) where
  /-- The requests that may be started after a history. -/
  admits : List (ρ × α) → ρ → Prop
  /-- What holds of every committed database. -/
  inv : δ → Prop
  /-- A commit of `r` that answers `a` under the locks held. -/
  commits : (r : ρ) → (a : α) → (held : List l) → δ → δ → Prop
  /-- An error raised by `r`, started on `b`. -/
  fails : (r : ρ) → (b : δ) → (e : ε) → δ → Prop
  /-- A write, on the view it is made on. -/
  writes : ω → δ → Prop
  /-- A commit that a transaction with this note puts up with. -/
  tolerates : γ → δ → δ → Prop

namespace Contract

variable {ρ δ ω l γ ε α β : Type} [Engine δ ω l ε] (C : Contract ρ δ ω l γ ε α)

/-- No lock of `L` conflicts with one of `L'`. -/
def Compatible (δ ω : Type) {l ε : Type} [Engine δ ω l ε] (L L' : List l) : Prop :=
  ∀ i ∈ L, ∀ j ∈ L', Engine.conflict δ ω i j = false

/-- One commit by another transaction, past the locks `L`. -/
def Rely (g : γ) (L : List l) (db db' : δ) : Prop :=
  C.inv db ∧ C.tolerates g db db' ∧
    ∃ r a L', Compatible δ ω L L' ∧ C.commits r a L' db db'

/-- Any number of commits by other transactions, past the locks `L`. -/
abbrev Relies (g : γ) (L : List l) : δ → δ → Prop := Relation.ReflTransGen (C.Rely g L)

/-- From `db`, under any interference, the program only raises errors in `F`,
only returns in `Q`, and only makes the writes the contract permits. -/
def Safe (F : ε → δ → Prop) (Q : β → γ → List ω → List l → δ → Prop) :
    Txn δ ω l γ ε β → γ → List ω → List l → δ → Prop
  | .done a, g, ws, L, db => ∀ db', C.Relies g L db db' → Q a g ws L db'
  | .fail e, g, _, L, db => ∀ db', C.Relies g L db db' → F e db'
  | .read n k, g, ws, L, db => ∀ db', C.Relies g L db db' →
      Safe F Q (k (view ws db')) ((n (view ws db')).getD g) ws L db'
  | .lock i k, g, ws, L, db => ∀ db', C.Relies g L db db' → Safe F Q k g ws (i :: L) db'
  | .tryLock i k, g, ws, L, db => ∀ db', C.Relies g L db db' →
      Safe F Q (k true) g ws (i :: L) db' ∧ Safe F Q (k false) g ws L db'
  | .write w k, g, ws, L, db => ∀ db', C.Relies g L db db' →
      (∀ e, Engine.check w (view ws db') = some e → Safe F Q (k (some e)) g ws L db') ∧
      (Engine.check w (view ws db') = none → C.writes w (view ws db') ∧
        Safe F Q (k none) g (ws ++ [w]) (Engine.keys δ w ++ L) db')

variable {C} {F F' : ε → δ → Prop} {Q Q' : β → γ → List ω → List l → δ → Prop}
  {g : γ} {ws : List ω} {L : List l} {db db' : δ}

/-- Interference before the next statement is already accounted for. -/
theorem Safe.relies {p : Txn δ ω l γ ε β} (h : C.Safe F Q p g ws L db)
    (hr : C.Relies g L db db') : C.Safe F Q p g ws L db' := by
  cases p <;> exact fun db'' hr' => h db'' (hr.trans hr')

theorem Safe.mono {p : Txn δ ω l γ ε β} (h : C.Safe F Q p g ws L db)
    (hF : ∀ e db, F e db → F' e db) (hQ : ∀ a g ws L db, Q a g ws L db → Q' a g ws L db) :
    C.Safe F' Q' p g ws L db := by
  induction p generalizing g ws L db with
  | done a => exact fun db' hr => hQ _ _ _ _ _ (h db' hr)
  | fail e => exact fun db' hr => hF _ _ (h db' hr)
  | read n k ih => exact fun db' hr => ih _ (h db' hr)
  | lock i k ih => exact fun db' hr => ih (h db' hr)
  | tryLock i k ih => exact fun db' hr => ⟨ih _ (h db' hr).1, ih _ (h db' hr).2⟩
  | write w k ih =>
    exact fun db' hr => ⟨fun e he => ih _ ((h db' hr).1 e he),
      fun hn => ⟨((h db' hr).2 hn).1, ih _ ((h db' hr).2 hn).2⟩⟩

variable (C) in
/-- The contract with other requests admitted. -/
def admitting (A : List (ρ × α) → ρ → Prop) : Contract ρ δ ω l γ ε α := { C with admits := A }

/-- A program is safe whichever requests are admitted beside it. -/
theorem Safe.admitting {A : List (ρ × α) → ρ → Prop} {p : Txn δ ω l γ ε β}
    (h : C.Safe F Q p g ws L db) : (C.admitting A).Safe F Q p g ws L db := by
  induction p generalizing g ws L db with
  | done a => exact h
  | fail e => exact h
  | read n k ih => exact fun db' hr => ih _ (h db' hr)
  | lock i k ih => exact fun db' hr => ih (h db' hr)
  | tryLock i k ih => exact fun db' hr => ⟨ih _ (h db' hr).1, ih _ (h db' hr).2⟩
  | write w k ih =>
    exact fun db' hr => ⟨fun e he => ih _ ((h db' hr).1 e he),
      fun hn => ⟨((h db' hr).2 hn).1, ih _ ((h db' hr).2 hn).2⟩⟩

variable (C) in
/-- The contract with other errors. -/
def failing (E : ρ → δ → ε → δ → Prop) : Contract ρ δ ω l γ ε α := { C with fails := E }

/-- A program is safe whichever errors the others raise. -/
theorem Safe.failing {E : ρ → δ → ε → δ → Prop} {p : Txn δ ω l γ ε β}
    (h : C.Safe F Q p g ws L db) : (C.failing E).Safe F Q p g ws L db := by
  induction p generalizing g ws L db with
  | done a => exact h
  | fail e => exact h
  | read n k ih => exact fun db' hr => ih _ (h db' hr)
  | lock i k ih => exact fun db' hr => ih (h db' hr)
  | tryLock i k ih => exact fun db' hr => ⟨ih _ (h db' hr).1, ih _ (h db' hr).2⟩
  | write w k ih =>
    exact fun db' hr => ⟨fun e he => ih _ ((h db' hr).1 e he),
      fun hn => ⟨((h db' hr).2 hn).1, ih _ ((h db' hr).2 hn).2⟩⟩

/-- What is known of a program in two ways. -/
theorem Safe.and {p : Txn δ ω l γ ε β} (h : C.Safe F Q p g ws L db)
    (h' : C.Safe F' Q' p g ws L db) : C.Safe (fun e db => F e db ∧ F' e db)
      (fun a g ws L db => Q a g ws L db ∧ Q' a g ws L db) p g ws L db := by
  induction p generalizing g ws L db with
  | done a => exact fun db' hr => ⟨h db' hr, h' db' hr⟩
  | fail e => exact fun db' hr => ⟨h db' hr, h' db' hr⟩
  | read n k ih => exact fun db' hr => ih _ (h db' hr) (h' db' hr)
  | lock i k ih => exact fun db' hr => ih (h db' hr) (h' db' hr)
  | tryLock i k ih =>
    exact fun db' hr => ⟨ih _ (h db' hr).1 (h' db' hr).1, ih _ (h db' hr).2 (h' db' hr).2⟩
  | write w k ih =>
    exact fun db' hr => ⟨fun e he => ih _ ((h db' hr).1 e he) ((h' db' hr).1 e he),
      fun hn => ⟨((h db' hr).2 hn).1, ih _ ((h db' hr).2 hn).2 ((h' db' hr).2 hn).2⟩⟩

/-- Sequencing: the second program starts where the first one returned. -/
theorem Safe.bind {p : Txn δ ω l γ ε β} {τ : Type} {f : β → Txn δ ω l γ ε τ}
    {R : τ → γ → List ω → List l → δ → Prop}
    (h : C.Safe F (fun a => C.Safe F R (f a)) p g ws L db) :
    C.Safe F R (p.bind f) g ws L db := by
  induction p generalizing g ws L db with
  | done a => exact h db .refl
  | fail e => exact h
  | read n k ih => exact fun db' hr => ih _ (h db' hr)
  | lock i k ih => exact fun db' hr => ih (h db' hr)
  | tryLock i k ih => exact fun db' hr => ⟨ih _ (h db' hr).1, ih _ (h db' hr).2⟩
  | write w k ih =>
    exact fun db' hr => ⟨fun e he => ih _ ((h db' hr).1 e he),
      fun hn => ⟨((h db' hr).2 hn).1, ih _ ((h db' hr).2 hn).2⟩⟩

/-- A safe program that runs alone returns in `Q` or raises in `F`. -/
theorem Safe.run {p : Txn δ ω l γ ε β} (h : C.Safe F Q p g ws L db) :
    match p.run (view ws db) with
    | .ok (a, db') => ∃ g' ws' L', db' = view ws' db ∧ Q a g' ws' L' db
    | .error e => F e db := by
  induction p generalizing g ws L with
  | done a => exact ⟨g, ws, L, rfl, h db .refl⟩
  | fail e => exact h db .refl
  | read n k ih => exact ih _ (h db .refl)
  | lock i k ih => exact ih (h db .refl)
  | tryLock i k ih => exact ih _ (h db .refl).1
  | write w k ih =>
    obtain ⟨herr, hok⟩ := h db .refl
    cases hc : Engine.check w (view ws db) with
    | some e => simpa [Txn.run, hc] using ih _ (herr e hc)
    | none => simpa [Txn.run, hc] using ih _ (hok hc).2

/-- What a safe program returns stays true under interference. -/
theorem Safe.stable {p : Txn δ ω l γ ε β} (h : C.Safe F Q p g ws L db) :
    C.Safe F (fun a g ws L db => ∀ db', C.Relies g L db db' → Q a g ws L db') p g ws L db := by
  induction p generalizing g ws L db with
  | done a => exact fun db' hr db'' hr' => h db'' (hr.trans hr')
  | fail e => exact h
  | read n k ih => exact fun db' hr => ih _ (h db' hr)
  | lock i k ih => exact fun db' hr => ih (h db' hr)
  | tryLock i k ih => exact fun db' hr => ⟨ih _ (h db' hr).1, ih _ (h db' hr).2⟩
  | write w k ih =>
    exact fun db' hr => ⟨fun e he => ih _ ((h db' hr).1 e he),
      fun hn => ⟨((h db' hr).2 hn).1, ih _ ((h db' hr).2 hn).2⟩⟩

theorem Compatible.subset {L₁ L₂ L' : List l} (h : Compatible δ ω L₂ L')
    (hsub : L₁ ⊆ L₂) : Compatible δ ω L₁ L' :=
  fun i hi => h i (hsub hi)

/-- Fewer locks hold back fewer commits. -/
theorem Relies.subset {L' : List l} (h : C.Relies g L' db db') (hsub : L ⊆ L') :
    C.Relies g L db db' := by
  refine Relation.ReflTransGen.mono ?_ _ _ h
  rintro x y ⟨hinv, htol, r, a, L'', hc, hs⟩
  exact ⟨hinv, htol, r, a, L'', hc.subset hsub, hs⟩

/-! ## Rules for single statements -/

section Rules

variable {τ : Type} {R : τ → γ → List ω → List l → δ → Prop}

theorem Safe.map {p : Txn δ ω l γ ε β} {f : β → τ}
    (h : C.Safe F (fun a => R (f a)) p g ws L db) :
    C.Safe F R (p >>= fun a => pure (f a)) g ws L db :=
  Safe.bind h.stable

theorem Safe.query {q : δ → β} {f : β → Txn δ ω l γ ε τ}
    (h : ∀ db', C.Relies g L db db' → ∀ a, q (view ws db') = a → C.Safe F R (f a) g ws L db') :
    C.Safe F R (query q >>= f) g ws L db :=
  fun db' hr => h db' hr _ rfl

theorem Safe.queryNoting {n : β → γ} {q : δ → β} {f : β → Txn δ ω l γ ε τ}
    (h : ∀ db', C.Relies g L db db' → ∀ a, q (view ws db') = a →
      C.Safe F R (f a) (n a) ws L db') :
    C.Safe F R (queryNoting n q >>= f) g ws L db :=
  fun db' hr => h db' hr _ rfl

theorem Safe.acquire {i : l} {f : Unit → Txn δ ω l γ ε τ}
    (h : ∀ db', C.Relies g L db db' → C.Safe F R (f ()) g ws (i :: L) db') :
    C.Safe F R (acquire i >>= f) g ws L db :=
  fun db' hr => h db' hr

theorem Safe.tryAcquire {i : l} {f : Bool → Txn δ ω l γ ε τ}
    (h : ∀ db', C.Relies g L db db' →
      C.Safe F R (f true) g ws (i :: L) db' ∧ C.Safe F R (f false) g ws L db') :
    C.Safe F R (tryAcquire i >>= f) g ws L db :=
  fun db' hr => h db' hr

theorem Safe.exec {w : ω} {f : Unit → Txn δ ω l γ ε τ}
    (h : ∀ db', C.Relies g L db db' →
      (∀ e, Engine.check w (view ws db') = some e → ∀ db'', C.Relies g L db' db'' → F e db'') ∧
      (Engine.check w (view ws db') = none → C.writes w (view ws db') ∧
        C.Safe F R (f ()) g (ws ++ [w]) (Engine.keys δ w ++ L) db')) :
    C.Safe F R (exec w >>= f) g ws L db :=
  fun db' hr => h db' hr

end Rules

variable (C)

/-- The atomic machine of the contract: one commit after the other, from a
database and the history that led to it. -/
inductive Trace (h₀ : List (ρ × α)) (db₀ : δ) : List (ρ × α) → δ → Prop
  | nil : Trace h₀ db₀ h₀ db₀
  | snoc {h db r a L db'} (ht : Trace h₀ db₀ h db) (ha : C.admits h r) (hinv : C.inv db)
      (hc : C.commits r a L db db') : Trace h₀ db₀ (h ++ [(r, a)]) db'

omit [Engine δ ω l ε] in
variable {C} in
/-- The commit at a place of the history, with the trace before it. -/
theorem Trace.commit_at {db₀ db : δ} {h₁ h₂ : List (ρ × α)} {x : ρ × α}
    (ht : C.Trace [] db₀ (h₁ ++ x :: h₂) db) : ∃ db₁ L db₂, C.Trace [] db₀ h₁ db₁ ∧
      C.admits h₁ x.1 ∧ C.inv db₁ ∧ C.commits x.1 x.2 L db₁ db₂ := by
  generalize hh : h₁ ++ x :: h₂ = h at ht
  induction ht generalizing h₂ with
  | nil => simp at hh
  | @snoc h db r a L db' ht ha hinv hc ih =>
    rcases List.eq_nil_or_concat h₂ with rfl | ⟨h₃, y, rfl⟩
    · obtain ⟨rfl, hx⟩ := List.append_inj' hh rfl
      obtain rfl := List.singleton_inj.mp hx
      exact ⟨db, L, db', ht, ha, hinv, hc⟩
    · rw [List.concat_eq_append, ← List.cons_append, ← List.append_assoc] at hh
      exact ih (List.append_inj' hh rfl).1

omit [Engine δ ω l ε] in
variable {C} in
/-- Errors commit nothing. -/
theorem Trace.of_failing {E : ρ → δ → ε → δ → Prop} {h₀ h : List (ρ × α)} {db₀ db : δ}
    (ht : (C.failing E).Trace h₀ db₀ h db) : C.Trace h₀ db₀ h db := by
  induction ht with
  | nil => exact .nil
  | snoc _ ha hinv hc ih => exact .snoc ih ha hinv hc

/-- The promise of an open transaction. -/
def SafeSession {ι : Type} (c : Session ι ρ δ ω l γ ε α) (db : δ) : Prop :=
  C.Safe (C.fails c.req c.born) (fun a _ ws L db => C.commits c.req a L db (view ws db))
    c.prog c.note c.writes c.held db

/-- A program text that keeps the contract from `db₀` on. -/
structure Kept [Inhabited γ] (code : ρ → Txn δ ω l γ ε α) (db₀ : δ) : Prop where
  symm : ∀ i j : l, Engine.conflict δ ω i j = Engine.conflict δ ω j i
  start : C.inv db₀
  inv : ∀ {r a L db db'}, C.inv db → C.commits r a L db db' → C.inv db'
  admits : ∀ {h r x}, C.admits h r → C.admits (h ++ [x]) r
  safe : ∀ {r h db}, C.Trace [] db₀ h db → C.admits h r → C.inv db → C.Safe (C.fails r db)
    (fun a _ ws L db' => C.commits r a L db' (view ws db')) (code r) default [] [] db

variable {ι : Type} [DecidableEq ι]

/-- Only admitted requests start, and a commit is tolerated by every other
open transaction. -/
def Admissible (h : List (ρ × α)) (s : Sys ι ρ δ ω l γ ε α) :
    Label ι ρ ω ε α → Sys ι ρ δ ω l γ ε α → Prop
  | .start _ r, _ => C.admits h r
  | .commit t _ _, s' => ∀ c ∈ s.sessions, c.id ≠ t → C.tolerates c.note s.db s'.db
  | _, _ => True

/-- The step of an open transaction as the contract describes it. -/
def Meets (s : Sys ι ρ δ ω l γ ε α) : Label ι ρ ω ε α → Sys ι ρ δ ω l γ ε α → Prop
  | .commit t r a, s' => ∃ c ∈ s.sessions, c.id = t ∧ c.req = r ∧
      C.commits r a c.held s.db s'.db
  | .fail t r e, s' => s'.db = s.db ∧
      ∃ c ∈ s.sessions, c.id = t ∧ c.req = r ∧ C.fails r c.born e s.db
  | .wrote t w, s' => s'.db = s.db ∧
      ∃ c ∈ s.sessions, c.id = t ∧ C.writes w (view c.writes s.db)
  | _, s' => s'.db = s.db

omit [DecidableEq ι] in
/-- A step commits or leaves the database as it was. -/
theorem Meets.cases {C : Contract ρ δ ω l γ ε α} {s s' : Sys ι ρ δ ω l γ ε α}
    {m : Label ι ρ ω ε α} (h : C.Meets s m s') :
    (history [m] = [] ∧ s'.db = s.db) ∨ ∃ c ∈ s.sessions, ∃ a,
      m = .commit c.id c.req a ∧ C.commits c.req a c.held s.db s'.db := by
  cases m with
  | commit t r a =>
    obtain ⟨c, hc, rfl, rfl, hcommit⟩ := h
    exact .inr ⟨c, hc, a, rfl, hcommit⟩
  | fail t r e => exact .inl ⟨rfl, h.1⟩
  | wrote t w => exact .inl ⟨rfl, h.1⟩
  | start t r => exact .inl ⟨rfl, h⟩
  | tau t => exact .inl ⟨rfl, h⟩
  | abort t => exact .inl ⟨rfl, h⟩

end Contract

namespace Sys

variable {ι ρ δ ω l γ ε α : Type} [DecidableEq ι] [Engine δ ω l ε] [Inhabited γ]
  {C : Contract ρ δ ω l γ ε α} {code : ρ → Txn δ ω l γ ε α} {db₀ : δ} {h : List (ρ × α)}
  {s s' : Sys ι ρ δ ω l γ ε α} {c : Session ι ρ δ ω l γ ε α}

/-- The committed database is where the history leads, every open transaction
keeps its promise, and no two of them hold conflicting locks. -/
structure Sound (C : Contract ρ δ ω l γ ε α) (db₀ : δ) (h : List (ρ × α))
    (s : Sys ι ρ δ ω l γ ε α) : Prop where
  trace : C.Trace [] db₀ h s.db
  inv : C.inv s.db
  admitted : ∀ c ∈ s.sessions, C.admits h c.req
  safe : ∀ c ∈ s.sessions, C.SafeSession c s.db
  past : ∀ c ∈ s.sessions, ∃ h₀, C.Trace h₀ c.born h s.db
  disjoint : ∀ c ∈ s.sessions, ∀ c' ∈ s.sessions, c.id ≠ c'.id →
    Contract.Compatible δ ω c.held c'.held

omit [DecidableEq ι] in
theorem idle_sound (hk : C.Kept code db₀) :
    (idle db₀ : Sys ι ρ δ ω l γ ε α).Sound C db₀ [] where
  trace := .nil
  inv := hk.start
  admitted := by intro c hc; exact absurd hc (Table.not_mem_empty c)
  safe := by intro c hc; exact absurd hc (Table.not_mem_empty c)
  past := by intro c hc; exact absurd hc (Table.not_mem_empty c)
  disjoint := by intro c hc; exact absurd hc (Table.not_mem_empty c)

/-- Replacing a session by a safe one whose new locks are free. -/
theorem Sound.put (hs : s.Sound C db₀ h) (hk : C.Kept code db₀) (hc : c ∈ s.sessions)
    (c' : Session ι ρ δ ω l γ ε α) (hid : c'.id = c.id) (hreq : c'.req = c.req) (hborn : c'.born = c.born)
    (hsafe : C.SafeSession c' s.db)
    (hheld : ∀ i ∈ c'.held, i ∈ c.held ∨ s.Free c.id i) : (s.put c').Sound C db₀ h := by
  have hmem : ∀ d, d ∈ (s.put c').sessions ↔ (d ∈ s.sessions ∧ d ≠ c) ∨ d = c' := fun d =>
    Table.mem_set_of_mem hc hid.symm
  have hold : ∀ d ∈ s.sessions, d.id ≠ c.id → Contract.Compatible δ ω c'.held d.held := by
    intro d hd hne i hi j hj
    rcases hheld i hi with hi | hi
    · exact hs.disjoint c hc d hd (Ne.symm hne) i hi j hj
    · exact hi d hd hne j hj
  refine ⟨hs.trace, hs.inv, ?_, ?_, ?_, ?_⟩
  · intro d hd
    rcases (hmem d).mp hd with ⟨hd, -⟩ | rfl
    · exact hs.admitted d hd
    · exact hreq ▸ hs.admitted c hc
  · intro d hd
    rcases (hmem d).mp hd with ⟨hd, -⟩ | rfl
    · exact hs.safe d hd
    · exact hsafe
  · intro d hd
    rcases (hmem d).mp hd with ⟨hd, -⟩ | rfl
    · exact hs.past d hd
    · exact hborn ▸ hs.past c hc
  · intro d hd e he hne
    rcases (hmem d).mp hd with ⟨hds, -⟩ | rfl <;> rcases (hmem e).mp he with ⟨hes, -⟩ | rfl
    · exact hs.disjoint d hds e hes hne
    · intro i hi j hj
      rw [hk.symm]
      exact hold d hds (hid ▸ hne) j hj i hi
    · exact hold e hes (hid ▸ Ne.symm hne)
    · exact absurd rfl hne

omit [Inhabited γ] in
theorem Sound.close (hs : s.Sound C db₀ h) (t : ι) : (s.close t).Sound C db₀ h where
  trace := hs.trace
  inv := hs.inv
  admitted := by intro d hd; exact hs.admitted d (Table.mem_filter.mp hd).1
  safe := by intro d hd; exact hs.safe d (Table.mem_filter.mp hd).1
  past := by intro d hd; exact hs.past d (Table.mem_filter.mp hd).1
  disjoint := by
    intro d hd e he
    exact hs.disjoint d (Table.mem_filter.mp hd).1 e (Table.mem_filter.mp he).1

/-- A commit the others tolerate keeps their promises. -/
theorem Sound.commit (hs : s.Sound C db₀ h) (hk : C.Kept code db₀) (hc : c ∈ s.sessions) {a : α}
    {db : δ} (hcommit : C.commits c.req a c.held s.db db)
    (htol : ∀ d ∈ s.sessions, d.id ≠ c.id → C.tolerates d.note s.db db) :
    ({ s.close c.id with db := db } : Sys ι ρ δ ω l γ ε α).Sound C db₀ (h ++ [(c.req, a)]) where
  trace := .snoc hs.trace (hs.admitted c hc) hs.inv hcommit
  inv := hk.inv hs.inv hcommit
  admitted := by
    intro d hd
    exact hk.admits (hs.admitted d (Table.mem_filter.mp hd).1)
  safe := by
    intro d hd
    obtain ⟨hd, hne⟩ := Table.mem_filter.mp hd
    have hne : d.id ≠ c.id := by simpa using hne
    refine (hs.safe d hd).relies (.single ⟨hs.inv, htol d hd hne, ?_⟩)
    exact ⟨c.req, a, c.held, hs.disjoint d hd c hc hne, hcommit⟩
  past := by
    intro d hd
    obtain ⟨h₀, ht⟩ := hs.past d (Table.mem_filter.mp hd).1
    exact ⟨h₀, .snoc ht (hs.admitted c hc) hs.inv hcommit⟩
  disjoint := (hs.close c.id).disjoint

theorem Sound.start (hs : s.Sound C db₀ h) (hk : C.Kept code db₀) {t : ι} {r : ρ}
    (hfresh : s.sessions.Fresh t) (ha : C.admits h r) :
    ({ s with sessions := s.sessions.insert (opened code s t r) } : Sys ι ρ δ ω l γ ε α).Sound
      C db₀ h := by
  have hnew : ∀ d, d ∈ (s.sessions.insert (opened code s t r)) ↔
      d ∈ s.sessions ∨ d = opened code s t r := fun d => Table.mem_insert hfresh
  refine ⟨hs.trace, hs.inv, ?_, ?_, ?_, ?_⟩
  · intro d hd
    rcases (hnew d).mp hd with hd | rfl
    · exact hs.admitted d hd
    · exact ha
  · intro d hd
    rcases (hnew d).mp hd with hd | rfl
    · exact hs.safe d hd
    · exact hk.safe hs.trace ha hs.inv
  · intro d hd
    rcases (hnew d).mp hd with hd | rfl
    · exact hs.past d hd
    · exact ⟨h, .nil⟩
  · intro d hd e he hne
    rcases (hnew d).mp hd with hd | rfl <;> rcases (hnew e).mp he with he | rfl
    · exact hs.disjoint d hd e he hne
    · intro i _ j hj; cases hj
    · intro i hi; cases hi
    · exact absurd rfl hne

omit [DecidableEq ι] [Inhabited γ] in
theorem held_cons {i : l} (hfree : s.Free c.id i) :
    ∀ j ∈ i :: c.held, j ∈ c.held ∨ s.Free c.id j := by
  intro j hj
  rcases List.mem_cons.mp hj with rfl | hj
  · exact .inr hfree
  · exact .inl hj

/-- The next statement of a transaction keeps the system sound and meets the
contract. -/
theorem next_sound (hs : s.Sound C db₀ h) (hk : C.Kept code db₀) (hc : c ∈ s.sessions)
    {m : Label ι ρ ω ε α} (hn : s.next c = some (m, s')) (ha : C.Admissible h s m s') :
    s'.Sound C db₀ (h ++ history [m]) ∧ C.Meets s m s' := by
  have hsafe := hs.safe c hc
  unfold Contract.SafeSession at hsafe
  unfold next at hn
  cases hp : c.prog with
  | done a =>
    simp only [hp, Option.some.injEq, Prod.mk.injEq] at hn hsafe
    obtain ⟨rfl, rfl⟩ := hn
    exact ⟨hs.commit hk hc (hsafe _ .refl) ha, c, hc, rfl, rfl, hsafe _ .refl⟩
  | fail e =>
    simp only [hp, Option.some.injEq, Prod.mk.injEq] at hn hsafe
    obtain ⟨rfl, rfl⟩ := hn
    exact ⟨by simpa [history] using hs.close c.id, rfl, c, hc, rfl, rfl, hsafe _ .refl⟩
  | read n k =>
    simp only [hp, Option.some.injEq, Prod.mk.injEq] at hn hsafe
    obtain ⟨rfl, rfl⟩ := hn
    refine ⟨?_, rfl⟩
    simpa [history] using hs.put hk hc { c with
      prog := k (view c.writes s.db), note := (n (view c.writes s.db)).getD c.note }
      rfl rfl rfl (hsafe _ .refl) fun i hi => .inl hi
  | lock i k =>
    simp only [hp] at hn hsafe
    split at hn
    · rename_i hfree
      simp only [Option.some.injEq, Prod.mk.injEq] at hn
      obtain ⟨rfl, rfl⟩ := hn
      refine ⟨?_, rfl⟩
      simpa [history] using hs.put hk hc { c with prog := k, held := i :: c.held }
        rfl rfl rfl (hsafe _ .refl) (held_cons hfree)
    · cases hn
  | tryLock i k =>
    simp only [hp] at hn hsafe
    split at hn
    · rename_i hfree
      simp only [Option.some.injEq, Prod.mk.injEq] at hn
      obtain ⟨rfl, rfl⟩ := hn
      refine ⟨?_, rfl⟩
      simpa [history] using hs.put hk hc { c with prog := k true, held := i :: c.held }
        rfl rfl rfl (hsafe _ .refl).1 (held_cons hfree)
    · simp only [Option.some.injEq, Prod.mk.injEq] at hn
      obtain ⟨rfl, rfl⟩ := hn
      refine ⟨?_, rfl⟩
      simpa [history] using hs.put hk hc { c with prog := k false }
        rfl rfl rfl (hsafe _ .refl).2 fun i hi => .inl hi
  | write w k =>
    simp only [hp] at hn hsafe
    obtain ⟨herr, hok⟩ := hsafe _ .refl
    split at hn
    · rename_i hfree
      cases hcheck : Engine.check w (view c.writes s.db) with
      | some e =>
        simp only [hcheck, Option.some.injEq, Prod.mk.injEq] at hn
        obtain ⟨rfl, rfl⟩ := hn
        refine ⟨?_, rfl⟩
        simpa [history] using hs.put hk hc { c with prog := k (some e) }
          rfl rfl rfl (herr e hcheck) fun i hi => .inl hi
      | none =>
        simp only [hcheck, Option.some.injEq, Prod.mk.injEq] at hn
        obtain ⟨rfl, rfl⟩ := hn
        refine ⟨?_, rfl, c, hc, rfl, (hok hcheck).1⟩
        simpa [history] using hs.put hk hc { c with
          prog := k none, writes := c.writes ++ [w], held := Engine.keys δ w ++ c.held }
          rfl rfl rfl (hok hcheck).2 fun j hj =>
            (List.mem_append.mp hj).elim (fun hj => .inr (hfree j hj)) .inl
    · cases hn

/-- Every admissible step of every interleaving meets the contract. -/
theorem act_sound (hs : s.Sound C db₀ h) (hk : C.Kept code db₀) {x : Action ι ρ}
    {m : Label ι ρ ω ε α} (hx : s.act code x = some (m, s')) (ha : C.Admissible h s m s') :
    s'.Sound C db₀ (h ++ history [m]) ∧ C.Meets s m s' := by
  cases x with
  | start t r =>
    simp only [act] at hx
    split at hx
    · cases hx
    · rename_i hfresh
      simp only [Option.some.injEq, Prod.mk.injEq] at hx
      obtain ⟨rfl, rfl⟩ := hx
      refine ⟨?_, rfl⟩
      simpa [history] using hs.start hk (Table.get?_eq_none.mp hfresh) ha
  | next t =>
    obtain ⟨c, hc, hn⟩ := Option.bind_eq_some_iff.mp hx
    exact next_sound hs hk (Table.get?_eq_some.mp hc).1 hn ha
  | abort t =>
    simp only [act] at hx
    split at hx
    · simp only [Option.some.injEq, Prod.mk.injEq] at hx
      obtain ⟨rfl, rfl⟩ := hx
      exact ⟨by simpa [history] using hs.close t, rfl⟩
    · cases hx

section Run

variable {P : List (Label ι ρ ω ε α) → Sys ι ρ δ ω l γ ε α → Label ι ρ ω ε α →
    Sys ι ρ δ ω l γ ε α → Prop} {ls ls' : List (Label ι ρ ω ε α)}

/-- Every state of an admissible run is sound. -/
theorem Run.sound (hr : Run code P ls s ls' s')
    (hP : ∀ {ls s m s'}, P ls s m s' → C.Admissible (history ls) s m s')
    (hk : C.Kept code db₀) (hs : s.Sound C db₀ (history ls)) : s'.Sound C db₀ (history ls') := by
  induction hr with
  | nil => exact hs
  | snoc _ hx hp ih =>
    rw [history_append]
    exact (act_sound ih hk hx (hP hp)).1

/-- A run is a trace of its commits. -/
theorem Run.trace (hr : Run code P ls s ls' s')
    (hP : ∀ {ls s m s'}, P ls s m s' → C.Admissible (history ls) s m s')
    (hk : C.Kept code db₀) (hs : s.Sound C db₀ (history ls)) :
    C.Trace (history ls) s.db (history ls') s'.db := by
  induction hr with
  | nil => exact .nil
  | @snoc ls₁ s₁ x m s₂ hr hx hp ih =>
    have hs₁ := hr.sound hP hk hs
    obtain ⟨-, hmeets⟩ := act_sound hs₁ hk hx (hP hp)
    rw [history_append]
    rcases hmeets.cases with ⟨hm, hdb⟩ | ⟨c, hc, a, rfl, hcommit⟩
    · rw [hm, List.append_nil, hdb]
      exact ih
    · exact .snoc ih (hs₁.admitted c hc) hs₁.inv hcommit

end Run

end Sys

end Relational
