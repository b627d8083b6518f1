import EventHarbor.Relational.System

/-!
# What open transactions keep

A property of what is left of a transaction, its writes and its locks that every
statement keeps, whatever the database answers. It then holds of every session of
every run.
-/

namespace Relational

open Txn

variable {ι ρ δ ω l γ ε α β : Type} [Engine δ ω l ε]

/-- Every statement of a transaction keeps `I`. -/
structure Stable (I : ρ → Txn δ ω l γ ε α → List ω → List l → Prop) : Prop where
  read : ∀ {r n k ws L}, I r (.read n k) ws L → ∀ d, I r (k d) ws L
  lock : ∀ {r i k ws L}, I r (.lock i k) ws L → I r k ws (i :: L)
  taken : ∀ {r i k ws L}, I r (.tryLock i k) ws L → I r (k true) ws (i :: L)
  skipped : ∀ {r i k ws L}, I r (.tryLock i k) ws L → I r (k false) ws L
  refused : ∀ {r w k ws L}, I r (.write w k) ws L → ∀ (d : δ) e, Engine.check w d = some e →
    I r (k (some e)) ws L
  written : ∀ {r w k ws L}, I r (.write w k) ws L → ∀ d : δ, Engine.check w d = none →
    I r (k none) (ws ++ [w]) (Engine.keys δ w ++ L)

namespace Sys

variable [DecidableEq ι] {I : ρ → Txn δ ω l γ ε α → List ω → List l → Prop}
  {s s' : Sys ι ρ δ ω l γ ε α} {m : Label ι ρ ω ε α}

/-- `I` holds of every open transaction. -/
def Each (I : ρ → Txn δ ω l γ ε α → List ω → List l → Prop) (s : Sys ι ρ δ ω l γ ε α) : Prop :=
  ∀ c ∈ s.sessions, I c.req c.prog c.writes c.held

omit [Engine δ ω l ε] in
theorem Each.close (h : s.Each I) (t : ι) : (s.close t).Each I :=
  fun c hc => h c (mem_close.mp hc).1

omit [Engine δ ω l ε] in
theorem Each.put (h : s.Each I) {c c' : Session ι ρ δ ω l γ ε α} (hc : c ∈ s.sessions)
    (hid : c'.id = c.id) (hc' : I c'.req c'.prog c'.writes c'.held) : (s.put c').Each I := by
  intro d hd
  rcases (mem_put hc hid).mp hd with ⟨hd, -⟩ | rfl
  · exact h d hd
  · exact hc'

theorem next_each (hI : Stable I) {c : Session ι ρ δ ω l γ ε α} (hc : c ∈ s.sessions)
    (hn : s.next c = some (m, s')) (h : s.Each I) : s'.Each I := by
  have hprog := h c hc
  unfold Sys.next at hn
  cases hp : c.prog with
  | done a =>
    simp only [hp, Option.some.injEq, Prod.mk.injEq] at hn
    obtain ⟨-, rfl⟩ := hn
    exact h.close c.id
  | fail e =>
    simp only [hp, Option.some.injEq, Prod.mk.injEq] at hn
    obtain ⟨-, rfl⟩ := hn
    exact h.close c.id
  | read n k =>
    simp only [hp, Option.some.injEq, Prod.mk.injEq] at hn
    obtain ⟨-, rfl⟩ := hn
    rw [hp] at hprog
    exact h.put hc rfl (hI.read hprog _)
  | lock i k =>
    simp only [hp] at hn
    rw [hp] at hprog
    split at hn
    · simp only [Option.some.injEq, Prod.mk.injEq] at hn
      obtain ⟨-, rfl⟩ := hn
      exact h.put hc rfl (hI.lock hprog)
    · cases hn
  | tryLock i k =>
    simp only [hp] at hn
    rw [hp] at hprog
    split at hn
    · simp only [Option.some.injEq, Prod.mk.injEq] at hn
      obtain ⟨-, rfl⟩ := hn
      exact h.put hc rfl (hI.taken hprog)
    · simp only [Option.some.injEq, Prod.mk.injEq] at hn
      obtain ⟨-, rfl⟩ := hn
      exact h.put hc rfl (hI.skipped hprog)
  | write w k =>
    simp only [hp] at hn
    rw [hp] at hprog
    split at hn
    · cases hcheck : Engine.check w (view c.writes s.db) with
      | some e =>
        simp only [hcheck, Option.some.injEq, Prod.mk.injEq] at hn
        obtain ⟨-, rfl⟩ := hn
        exact h.put hc rfl (hI.refused hprog _ e hcheck)
      | none =>
        simp only [hcheck, Option.some.injEq, Prod.mk.injEq] at hn
        obtain ⟨-, rfl⟩ := hn
        exact h.put hc rfl (hI.written hprog _ hcheck)
    · cases hn

variable [Inhabited γ] {code : ρ → Txn δ ω l γ ε α} {x : Action ι ρ}

theorem act_each (hI : Stable I) (hcode : ∀ r, I r (code r) [] [])
    (hx : s.act code x = some (m, s')) (h : s.Each I) : s'.Each I := by
  cases x with
  | start t r =>
    simp only [act] at hx
    split at hx
    · cases hx
    · simp only [Option.some.injEq, Prod.mk.injEq] at hx
      obtain ⟨-, rfl⟩ := hx
      intro d hd
      rcases Table.mem_of_mem_insert hd with hd | rfl
      · exact h d hd
      · exact hcode r
  | next t =>
    obtain ⟨c, hc, hn⟩ := Option.bind_eq_some_iff.mp hx
    exact next_each hI (Table.get?_eq_some.mp hc).1 hn h
  | abort t =>
    simp only [act] at hx
    split at hx
    · simp only [Option.some.injEq, Prod.mk.injEq] at hx
      obtain ⟨-, rfl⟩ := hx
      exact h.close t
    · cases hx

/-- Every session of a run keeps what its program starts with. -/
theorem Run.each {P : List (Label ι ρ ω ε α) → Sys ι ρ δ ω l γ ε α → Label ι ρ ω ε α →
      Sys ι ρ δ ω l γ ε α → Prop} {db : δ} {ls : List (Label ι ρ ω ε α)} (hI : Stable I)
    (hcode : ∀ r, I r (code r) [] []) (hr : Run code P [] (idle db) ls s) : s.Each I := by
  induction hr with
  | nil => exact fun c hc => absurd hc (Table.not_mem_empty c)
  | snoc _ hx _ ih => exact act_each hI hcode hx ih

end Sys

/-! ## What a program writes -/

namespace Txn

/-- Whatever the database answers, the program returns in `Q`, with the writes it
has made. -/
def Writes (Q : α → List ω → Prop) : Txn δ ω l γ ε α → List ω → Prop
  | done a, ws => Q a ws
  | fail _, _ => True
  | read _ k, ws => ∀ d, (k d).Writes Q ws
  | lock _ k, ws => k.Writes Q ws
  | tryLock _ k, ws => ∀ b, (k b).Writes Q ws
  | write w k, ws => (∀ e, (k (some e)).Writes Q ws) ∧ (k none).Writes Q (ws ++ [w])

omit [Engine δ ω l ε] in
theorem Writes.bind {Q : β → List ω → Prop} {p : Txn δ ω l γ ε α} {f : α → Txn δ ω l γ ε β}
    {ws : List ω} (h : p.Writes (fun a => (f a).Writes Q) ws) : (p >>= f).Writes Q ws := by
  show (p.bind f).Writes Q ws
  induction p generalizing ws with
  | done a => exact h
  | fail e => trivial
  | read n k ih => exact fun d => ih d (h d)
  | lock i k ih => exact ih h
  | tryLock i k ih => exact fun b => ih b (h b)
  | write w k ih => exact ⟨fun e => ih _ (h.1 e), ih _ h.2⟩

omit [Engine δ ω l ε] in
theorem Writes.mono {Q Q' : α → List ω → Prop} {p : Txn δ ω l γ ε α} {ws : List ω}
    (h : p.Writes Q ws) (hQ : ∀ a ws, Q a ws → Q' a ws) : p.Writes Q' ws := by
  induction p generalizing ws with
  | done a => exact hQ a ws h
  | fail e => trivial
  | read n k ih => exact fun d => ih d (h d)
  | lock i k ih => exact ih h
  | tryLock i k ih => exact fun b => ih b (h b)
  | write w k ih => exact ⟨fun e => ih _ (h.1 e), ih _ h.2⟩

omit [Engine δ ω l ε] in
theorem Writes.of_forall {Q : α → List ω → Prop} (h : ∀ a ws, Q a ws) (p : Txn δ ω l γ ε α)
    (ws : List ω) : p.Writes Q ws := by
  induction p generalizing ws with
  | done a => exact h a ws
  | fail e => trivial
  | read n k ih => exact fun d => ih d ws
  | lock i k ih => exact ih ws
  | tryLock i k ih => exact fun b => ih b ws
  | write w k ih => exact ⟨fun e => ih _ ws, ih _ _⟩

/-- Whatever the database answers, every write of the program is in `W`. -/
def Only (W : ω → Prop) : Txn δ ω l γ ε α → Prop
  | done _ => True
  | fail _ => True
  | read _ k => ∀ d, (k d).Only W
  | lock _ k => k.Only W
  | tryLock _ k => ∀ b, (k b).Only W
  | write w k => W w ∧ ∀ o, (k o).Only W

omit [Engine δ ω l ε] in
theorem Only.bind {W : ω → Prop} {p : Txn δ ω l γ ε α} {f : α → Txn δ ω l γ ε β}
    (hp : p.Only W) (hf : ∀ a, (f a).Only W) : (p >>= f).Only W := by
  show (p.bind f).Only W
  induction p with
  | done a => exact hf a
  | fail e => trivial
  | read n k ih => exact fun d => ih d (hp d)
  | lock i k ih => exact ih hp
  | tryLock i k ih => exact fun b => ih b (hp b)
  | write w k ih => exact ⟨hp.1, fun o => ih o (hp.2 o)⟩

omit [Engine δ ω l ε] in
theorem Only.writes {W : ω → Prop} {p : Txn δ ω l γ ε α} {ws : List ω} (hp : p.Only W)
    (hws : ∀ w ∈ ws, W w) : p.Writes (fun _ ws => ∀ w ∈ ws, W w) ws := by
  induction p generalizing ws with
  | done a => exact hws
  | fail e => trivial
  | read n k ih => exact fun d => ih d (hp d) hws
  | lock i k ih => exact ih hp hws
  | tryLock i k ih => exact fun b => ih b (hp b) hws
  | write w k ih =>
    refine ⟨fun e => ih _ (hp.2 _) hws, ih _ (hp.2 none) fun w' hw' => ?_⟩
    rcases List.mem_append.mp hw' with hw' | hw'
    · exact hws w' hw'
    · exact List.mem_singleton.mp hw' ▸ hp.1

theorem stable_writes (Q : ρ → α → List ω → Prop) :
    Stable fun (r : ρ) (p : Txn δ ω l γ ε α) ws _ => p.Writes (Q r) ws where
  read := fun h => h
  lock := fun h => h
  taken := fun h => h true
  skipped := fun h => h false
  refused := fun h _ e _ => h.1 e
  written := fun h _ _ => h.2

end Txn

/-- A commit applies writes that its program can make with this answer. -/
theorem Sys.Run.writes [DecidableEq ι] [Inhabited γ] {code : ρ → Txn δ ω l γ ε α}
    {P : List (Label ι ρ ω ε α) → Sys ι ρ δ ω l γ ε α → Label ι ρ ω ε α →
      Sys ι ρ δ ω l γ ε α → Prop} {db : δ} {ls : List (Label ι ρ ω ε α)}
    {s s' : Sys ι ρ δ ω l γ ε α} {x : Action ι ρ} {t : ι} {r : ρ} {a : α}
    {Q : ρ → α → List ω → Prop} (hcode : ∀ r, (code r).Writes (Q r) [])
    (hr : Run code P [] (idle db) ls s) (hx : s.act code x = some (.commit t r a, s')) :
    ∃ ws, Q r a ws ∧ s'.db = view ws s.db := by
  have heach := hr.each (stable_writes Q) hcode
  obtain ⟨c, hc, -, rfl, hprog, hdb⟩ := Sys.act_commit hx
  have hdone := heach c hc
  rw [hprog] at hdone
  exact ⟨c.writes, hdone, hdb⟩

/-- Only a commit changes the database. -/
theorem Sys.act_db [DecidableEq ι] [Inhabited γ] {code : ρ → Txn δ ω l γ ε α}
    {s s' : Sys ι ρ δ ω l γ ε α} {m : Label ι ρ ω ε α} {x : Action ι ρ}
    (hx : s.act code x = some (m, s')) : s'.db = s.db ∨ ∃ t r a, m = .commit t r a := by
  cases x with
  | start t r =>
    simp only [act] at hx
    split at hx
    · cases hx
    · simp only [Option.some.injEq, Prod.mk.injEq] at hx
      obtain ⟨-, rfl⟩ := hx
      exact .inl rfl
  | next t =>
    obtain ⟨c, -, hn⟩ := Option.bind_eq_some_iff.mp hx
    rcases next_cases hn with ⟨a, -, rfl, -⟩ | ⟨e, -, -, rfl⟩ | ⟨-, c', rfl, -⟩
    · exact .inr ⟨_, _, _, rfl⟩
    · exact .inl rfl
    · exact .inl rfl
  | abort t =>
    simp only [act] at hx
    split at hx
    · simp only [Option.some.injEq, Prod.mk.injEq] at hx
      obtain ⟨-, rfl⟩ := hx
      exact .inl rfl
    · cases hx

/-- A property of the database that every write keeps holds at the end of a run. -/
theorem Sys.Run.invariant [DecidableEq ι] [Inhabited γ] {code : ρ → Txn δ ω l γ ε α}
    {P : List (Label ι ρ ω ε α) → Sys ι ρ δ ω l γ ε α → Label ι ρ ω ε α →
      Sys ι ρ δ ω l γ ε α → Prop} {db : δ} {ls : List (Label ι ρ ω ε α)}
    {s : Sys ι ρ δ ω l γ ε α} {W : ω → Prop} {I : δ → Prop} (hcode : ∀ r, (code r).Only W)
    (hinit : I db) (hkeep : ∀ w d, W w → I d → I (Engine.apply w d))
    (hr : Run code P [] (idle db) ls s) : I s.db := by
  have hview : ∀ (ws : List ω) (d : δ), (∀ w ∈ ws, W w) → I d → I (view ws d) := by
    intro ws
    induction ws with
    | nil => exact fun d _ h => h
    | cons w ws ih =>
      intro d hws hd
      rw [List.forall_mem_cons] at hws
      exact ih _ hws.2 (hkeep w d hws.1 hd)
  induction hr with
  | nil => exact hinit
  | snoc hr hx _ ih =>
    rcases act_db hx with hdb | ⟨t, r, a, rfl⟩
    · rw [hdb]
      exact ih
    · obtain ⟨ws, hws, hdb⟩ := hr.writes
        (fun r => (hcode r).writes fun _ hw => absurd hw List.not_mem_nil) hx
      rw [hdb]
      exact hview ws _ hws ih

end Relational
