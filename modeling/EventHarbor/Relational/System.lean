import EventHarbor.Relational.Table
import EventHarbor.Relational.Transaction

/-!
# Interleaved transactions

Open transactions take their statements one at a time, in any order. A
statement sees the committed database overlaid with the transaction's own
writes, so two statements of one transaction may see different committed
states (`READ COMMITTED`). Locks and unique-index entries are held until the
transaction commits or rolls back.
-/

namespace Relational

open Txn

/-- An open transaction. `born` is the committed database it started on. -/
structure Session (ι ρ δ ω l γ ε α : Type) where
  id : ι
  req : ρ
  born : δ
  prog : Txn δ ω l γ ε α
  note : γ
  writes : List ω
  held : List l

/-- The committed database and the open transactions. -/
structure Sys (ι ρ δ ω l γ ε α : Type) where
  db : δ
  sessions : Table (Session.id : Session ι ρ δ ω l γ ε α → ι)

/-- A scheduler's choice. `abort` is a rollback the transaction did not ask
for: a lost connection, a deadlock victim, a crash. -/
inductive Action (ι ρ : Type)
  | start (t : ι) (r : ρ)
  | next (t : ι)
  | abort (t : ι)

/-- What a step shows. -/
inductive Label (ι ρ ω ε α : Type)
  | start (t : ι) (r : ρ)
  | tau (t : ι)
  | wrote (t : ι) (w : ω)
  | commit (t : ι) (r : ρ) (a : α)
  | fail (t : ι) (r : ρ) (e : ε)
  | abort (t : ι)

/-- The transaction that takes the step. -/
def Label.by {ι ρ ω ε α : Type} : Label ι ρ ω ε α → ι
  | .start t _ | .tau t | .wrote t _ | .commit t _ _ | .fail t _ _ | .abort t => t

/-- A statement of `t` that neither starts nor ends it. -/
def Label.Statement {ι ρ ω ε α : Type} (t : ι) : Label ι ρ ω ε α → Prop
  | .tau t' => t' = t
  | .wrote t' _ => t' = t
  | _ => False

instance {ι ρ ω ε α : Type} [DecidableEq ι] (t : ι) :
    (m : Label ι ρ ω ε α) → Decidable (m.Statement t)
  | .tau t' => inferInstanceAs (Decidable (t' = t))
  | .wrote t' _ => inferInstanceAs (Decidable (t' = t))
  | .start _ _ | .commit _ _ _ | .fail _ _ _ | .abort _ => .isFalse id

theorem Label.Statement.by {ι ρ ω ε α : Type} {t : ι} {m : Label ι ρ ω ε α} (h : m.Statement t) :
    m.by = t := by
  cases m <;> first | exact h | exact h.elim

/-- The committed requests with their answers, in commit order. -/
def history {ι ρ ω ε α : Type} (ls : List (Label ι ρ ω ε α)) : List (ρ × α) :=
  ls.filterMap fun
    | .commit _ r a => some (r, a)
    | _ => none

@[simp] theorem history_nil {ι ρ ω ε α : Type} :
    history ([] : List (Label ι ρ ω ε α)) = [] := rfl

@[simp] theorem history_append {ι ρ ω ε α : Type} (ls ms : List (Label ι ρ ω ε α)) :
    history (ls ++ ms) = history ls ++ history ms := by
  simp [history]

namespace Sys

variable {ι ρ δ ω l γ ε α : Type} [DecidableEq ι] [Engine δ ω l ε]

/-- No transaction other than `t` holds a lock that conflicts with `i`. -/
def Free (s : Sys ι ρ δ ω l γ ε α) (t : ι) (i : l) : Prop :=
  ∀ c ∈ s.sessions.rows, c.id ≠ t → ∀ j ∈ c.held, Engine.conflict δ ω i j = false

instance (s : Sys ι ρ δ ω l γ ε α) (t : ι) (i : l) : Decidable (s.Free t i) :=
  inferInstanceAs (Decidable (∀ c ∈ s.sessions.rows, c.id ≠ t → ∀ j ∈ c.held,
    Engine.conflict δ ω i j = false))

def put (s : Sys ι ρ δ ω l γ ε α) (c : Session ι ρ δ ω l γ ε α) : Sys ι ρ δ ω l γ ε α :=
  { s with sessions := s.sessions.set c }

def close (s : Sys ι ρ δ ω l γ ε α) (t : ι) : Sys ι ρ δ ω l γ ε α :=
  { s with sessions := s.sessions.filter fun c => c.id ≠ t }

/-- The next statement of an open transaction, when it is not made to wait. -/
def next (s : Sys ι ρ δ ω l γ ε α) (c : Session ι ρ δ ω l γ ε α) :
    Option (Label ι ρ ω ε α × Sys ι ρ δ ω l γ ε α) :=
  match c.prog with
  | .done a => some (.commit c.id c.req a, { s.close c.id with db := view c.writes s.db })
  | .fail e => some (.fail c.id c.req e, s.close c.id)
  | .read n k => some (.tau c.id, s.put { c with
      prog := k (view c.writes s.db), note := (n (view c.writes s.db)).getD c.note })
  | .lock i k =>
    if s.Free c.id i then
      some (.tau c.id, s.put { c with prog := k, held := i :: c.held })
    else none
  | .tryLock i k =>
    if s.Free c.id i then
      some (.tau c.id, s.put { c with prog := k true, held := i :: c.held })
    else some (.tau c.id, s.put { c with prog := k false })
  | .write w k =>
    if ∀ i ∈ Engine.keys δ w, s.Free c.id i then
      match Engine.check w (view c.writes s.db) with
      | some e => some (.tau c.id, s.put { c with prog := k (some e) })
      | none => some (.wrote c.id w, s.put { c with
          prog := k none, writes := c.writes ++ [w], held := Engine.keys δ w ++ c.held })
    else none

/-- The session of a request that starts now. -/
def opened [Inhabited γ] (code : ρ → Txn δ ω l γ ε α) (s : Sys ι ρ δ ω l γ ε α) (t : ι) (r : ρ) :
    Session ι ρ δ ω l γ ε α :=
  { id := t, req := r, born := s.db, prog := code r, note := default, writes := [], held := [] }

/-- One scheduled step; `none` when the choice is not possible. -/
def act [Inhabited γ] (code : ρ → Txn δ ω l γ ε α) (s : Sys ι ρ δ ω l γ ε α) :
    Action ι ρ → Option (Label ι ρ ω ε α × Sys ι ρ δ ω l γ ε α)
  | .start t r =>
    match s.sessions.get? t with
    | some _ => none
    | none => some (.start t r, { s with sessions := s.sessions.insert (opened code s t r) })
  | .next t => (s.sessions.get? t).bind s.next
  | .abort t =>
    match s.sessions.get? t with
    | some _ => some (.abort t, s.close t)
    | none => none

/-- A database with no open transaction. -/
def idle (db : δ) : Sys ι ρ δ ω l γ ε α := ⟨db, .empty⟩

/-- Steps that satisfy `P`, which may depend on the labels shown before. A run
goes on from a state and the labels that led to it. -/
inductive Run [Inhabited γ] (code : ρ → Txn δ ω l γ ε α)
    (P : List (Label ι ρ ω ε α) → Sys ι ρ δ ω l γ ε α → Label ι ρ ω ε α →
      Sys ι ρ δ ω l γ ε α → Prop)
    (ls₀ : List (Label ι ρ ω ε α)) (s₀ : Sys ι ρ δ ω l γ ε α) :
    List (Label ι ρ ω ε α) → Sys ι ρ δ ω l γ ε α → Prop
  | nil : Run code P ls₀ s₀ ls₀ s₀
  | snoc {ls s x m s'} (h : Run code P ls₀ s₀ ls s) (hs : s.act code x = some (m, s'))
      (hp : P ls s m s') : Run code P ls₀ s₀ (ls ++ [m]) s'

section Run

variable [Inhabited γ] {code : ρ → Txn δ ω l γ ε α}
  {P : List (Label ι ρ ω ε α) → Sys ι ρ δ ω l γ ε α → Label ι ρ ω ε α →
    Sys ι ρ δ ω l γ ε α → Prop}
  {ls₀ ls ls' : List (Label ι ρ ω ε α)} {s₀ s s' : Sys ι ρ δ ω l γ ε α}

theorem Run.trans (h : Run code P ls₀ s₀ ls s) (h' : Run code P ls s ls' s') :
    Run code P ls₀ s₀ ls' s' := by
  induction h' with
  | nil => exact h
  | snoc _ hs hp ih => exact .snoc ih hs hp

/-- The step that showed a label. -/
theorem Run.step_of_mem (h : Run code P ls₀ s₀ ls s) {m : Label ι ρ ω ε α} (hm : m ∈ ls)
    (hm₀ : m ∉ ls₀) : ∃ ls₁ s₁ x s₂, Run code P ls₀ s₀ ls₁ s₁ ∧ s₁.act code x = some (m, s₂) ∧
      P ls₁ s₁ m s₂ := by
  induction h with
  | nil => exact absurd hm hm₀
  | @snoc ls₁ s₁ x m' s₂ h hs hp ih =>
    rcases List.mem_append.mp hm with hm | hm
    · exact ih hm
    · rw [List.mem_singleton.mp hm]
      exact ⟨ls₁, s₁, x, s₂, h, hs, hp⟩

/-! ### One session -/

variable {c : Session ι ρ δ ω l γ ε α} {m : Label ι ρ ω ε α}

/-- A session that has taken a statement. When no lock is in its way, it will
answer as it would have alone. -/
structure Resumes (s : Sys ι ρ δ ω l γ ε α) (c c' : Session ι ρ δ ω l γ ε α) : Prop where
  id : c'.id = c.id
  req : c'.req = c.req
  born : c'.born = c.born
  held : c.held ⊆ c'.held
  run : (∀ i, s.Free c.id i) →
    c'.prog.run (view c'.writes s.db) = c.prog.run (view c.writes s.db)

omit [Inhabited γ] in
/-- What the next statement of a session can be. -/
theorem next_cases (hn : s.next c = some (m, s')) :
    (∃ a, c.prog = .done a ∧ m = .commit c.id c.req a ∧
      s' = { s.close c.id with db := view c.writes s.db }) ∨
    (∃ e, c.prog = .fail e ∧ m = .fail c.id c.req e ∧ s' = s.close c.id) ∨
    (m.Statement c.id ∧ ∃ c', s' = s.put c' ∧ Resumes s c c') := by
  unfold Sys.next at hn
  cases hp : c.prog with
  | done a =>
    simp only [hp, Option.some.injEq, Prod.mk.injEq] at hn
    exact .inl ⟨a, rfl, hn.1.symm, hn.2.symm⟩
  | fail e =>
    simp only [hp, Option.some.injEq, Prod.mk.injEq] at hn
    exact .inr (.inl ⟨e, rfl, hn.1.symm, hn.2.symm⟩)
  | read n k =>
    simp only [hp, Option.some.injEq, Prod.mk.injEq] at hn
    obtain ⟨rfl, rfl⟩ := hn
    exact .inr (.inr ⟨rfl, _, rfl, rfl, rfl, rfl, fun _ h => h, fun _ => by rw [hp]; rfl⟩)
  | lock i k =>
    simp only [hp] at hn
    split at hn
    · simp only [Option.some.injEq, Prod.mk.injEq] at hn
      obtain ⟨rfl, rfl⟩ := hn
      exact .inr (.inr ⟨rfl, _, rfl, rfl, rfl, rfl, List.subset_cons_self _ _,
        fun _ => by rw [hp]; rfl⟩)
    · cases hn
  | tryLock i k =>
    simp only [hp] at hn
    split at hn
    · simp only [Option.some.injEq, Prod.mk.injEq] at hn
      obtain ⟨rfl, rfl⟩ := hn
      exact .inr (.inr ⟨rfl, _, rfl, rfl, rfl, rfl, List.subset_cons_self _ _,
        fun _ => by rw [hp]; rfl⟩)
    · rename_i hheld
      simp only [Option.some.injEq, Prod.mk.injEq] at hn
      obtain ⟨rfl, rfl⟩ := hn
      exact .inr (.inr ⟨rfl, _, rfl, rfl, rfl, rfl, fun _ h => h, fun h => absurd (h i) hheld⟩)
  | write w k =>
    simp only [hp] at hn
    split at hn
    · cases hcheck : Engine.check w (view c.writes s.db) with
      | some e =>
        simp only [hcheck, Option.some.injEq, Prod.mk.injEq] at hn
        obtain ⟨rfl, rfl⟩ := hn
        exact .inr (.inr ⟨rfl, _, rfl, rfl, rfl, rfl, fun _ h => h,
          fun _ => by simp [hp, Txn.run, hcheck]⟩)
      | none =>
        simp only [hcheck, Option.some.injEq, Prod.mk.injEq] at hn
        obtain ⟨rfl, rfl⟩ := hn
        exact .inr (.inr ⟨rfl, _, rfl, rfl, rfl, rfl, List.subset_append_right _ _,
          fun _ => by simp [hp, Txn.run, hcheck]⟩)
    · cases hn

omit [Engine δ ω l ε] [Inhabited γ] in
theorem mem_put {c' d : Session ι ρ δ ω l γ ε α} (hc : c ∈ s.sessions) (hid : c'.id = c.id) :
    d ∈ (s.put c').sessions ↔ (d ∈ s.sessions ∧ d ≠ c) ∨ d = c' :=
  Table.mem_set_of_mem hc hid.symm

omit [Engine δ ω l ε] [Inhabited γ] in
theorem mem_close {d : Session ι ρ δ ω l γ ε α} {t : ι} :
    d ∈ (s.close t).sessions ↔ d ∈ s.sessions ∧ d.id ≠ t := by
  rw [close, Table.mem_filter]
  simp

/-- A step touches no other session and resumes its own until it ends. -/
theorem act_session {x : Action ι ρ} (hx : s.act code x = some (m, s')) (hc : c ∈ s.sessions) :
    (m.by ≠ c.id ∧ c ∈ s'.sessions) ∨
    (m.Statement c.id ∧ s.next c = some (m, s') ∧ ∃ c', s' = s.put c' ∧ Resumes s c c') ∨
    (m.by = c.id ∧ ¬m.Statement c.id ∧ ∀ d ∈ s'.sessions, d.id ≠ c.id) := by
  cases x with
  | start t r =>
    simp only [act] at hx
    split at hx
    · cases hx
    · rename_i hfresh
      simp only [Option.some.injEq, Prod.mk.injEq] at hx
      obtain ⟨rfl, rfl⟩ := hx
      exact .inl ⟨fun h => Table.get?_eq_none.mp hfresh c hc h.symm, Table.mem_insert_of_mem hc⟩
  | next t =>
    obtain ⟨c₁, hc₁, hn⟩ := Option.bind_eq_some_iff.mp hx
    obtain ⟨hc₁, -⟩ := Table.get?_eq_some.mp hc₁
    by_cases hid : c₁.id = c.id
    · obtain rfl := Table.eq_of_key hc₁ hc hid
      rcases next_cases hn with ⟨a, -, rfl, rfl⟩ | ⟨e, -, rfl, rfl⟩ | ⟨hm, hput⟩
      · exact .inr (.inr ⟨rfl, fun h => h, fun d hd => (mem_close.mp hd).2⟩)
      · exact .inr (.inr ⟨rfl, fun h => h, fun d hd => (mem_close.mp hd).2⟩)
      · exact .inr (.inl ⟨hm, hn, hput⟩)
    · left
      rcases next_cases hn with ⟨a, -, rfl, rfl⟩ | ⟨e, -, rfl, rfl⟩ | ⟨hm, c', rfl, hres⟩
      · exact ⟨hid, mem_close.mpr ⟨hc, Ne.symm hid⟩⟩
      · exact ⟨hid, mem_close.mpr ⟨hc, Ne.symm hid⟩⟩
      · refine ⟨fun h => hid (hm.by.symm.trans h), (mem_put hc₁ hres.id).mpr (.inl ⟨hc, ?_⟩)⟩
        rintro rfl
        exact hid rfl
  | abort t =>
    simp only [act] at hx
    split at hx
    · simp only [Option.some.injEq, Prod.mk.injEq] at hx
      obtain ⟨rfl, rfl⟩ := hx
      by_cases hid : t = c.id
      · exact .inr (.inr ⟨hid, fun h => h, fun d hd => hid ▸ (mem_close.mp hd).2⟩)
      · exact .inl ⟨hid, mem_close.mpr ⟨hc, Ne.symm hid⟩⟩
    · cases hx

theorem Run.mono {Q : List (Label ι ρ ω ε α) → Sys ι ρ δ ω l γ ε α → Label ι ρ ω ε α →
      Sys ι ρ δ ω l γ ε α → Prop} (hr : Run code P ls s ls' s')
    (hPQ : ∀ {ls s m s'}, P ls s m s' → Q ls s m s') : Run code Q ls s ls' s' := by
  induction hr with
  | nil => exact .nil
  | snoc _ hx hp ih => exact .snoc ih hx (hPQ hp)

/-- A session that is not ended keeps its request and its locks. -/
theorem Run.session (hr : Run code P ls s ls' s') (hc : c ∈ s.sessions)
    (hP : ∀ {ls s m s'}, P ls s m s' → m.by = c.id → m.Statement c.id) :
    ∃ c' ∈ s'.sessions, c'.id = c.id ∧ c'.req = c.req ∧ c.held ⊆ c'.held := by
  induction hr with
  | nil => exact ⟨c, hc, rfl, rfl, fun _ h => h⟩
  | @snoc ls₁ s₁ x m s₂ hr hact hp ih =>
    obtain ⟨c₁, hc₁, hid, hreq, hheld⟩ := ih
    rcases act_session hact hc₁ with ⟨-, hc₂⟩ | ⟨-, -, c₂, rfl, hres⟩ | ⟨hby, hend, -⟩
    · exact ⟨c₁, hc₂, hid, hreq, hheld⟩
    · exact ⟨c₂, (mem_put hc₁ hres.id).mpr (.inr rfl), hres.id.trans hid, hres.req.trans hreq,
        fun i hi => hres.held (hheld hi)⟩
    · rw [hid] at hby hend
      exact absurd (hP hp hby) hend

/-- Every open session was there before or has just been started. -/
theorem act_mem {x : Action ι ρ} (hx : s.act code x = some (m, s')) (hc : c ∈ s'.sessions) :
    (∃ c₀ ∈ s.sessions, c.req = c₀.req) ∨ m = .start c.id c.req := by
  cases x with
  | start t r =>
    simp only [act] at hx
    split at hx
    · cases hx
    · simp only [Option.some.injEq, Prod.mk.injEq] at hx
      obtain ⟨rfl, rfl⟩ := hx
      rcases Table.mem_of_mem_insert hc with hc | rfl
      · exact .inl ⟨c, hc, rfl⟩
      · exact .inr rfl
  | next t =>
    obtain ⟨c₁, hc₁, hn⟩ := Option.bind_eq_some_iff.mp hx
    obtain ⟨hc₁, -⟩ := Table.get?_eq_some.mp hc₁
    left
    rcases next_cases hn with ⟨a, -, rfl, rfl⟩ | ⟨e, -, rfl, rfl⟩ | ⟨hm, c', rfl, hres⟩
    · exact ⟨c, (mem_close.mp hc).1, rfl⟩
    · exact ⟨c, (mem_close.mp hc).1, rfl⟩
    · rcases (mem_put hc₁ hres.id).mp hc with ⟨hc, -⟩ | rfl
      · exact ⟨c, hc, rfl⟩
      · exact ⟨c₁, hc₁, hres.req⟩
  | abort t =>
    simp only [act] at hx
    split at hx
    · simp only [Option.some.injEq, Prod.mk.injEq] at hx
      obtain ⟨rfl, rfl⟩ := hx
      exact .inl ⟨c, (mem_close.mp hc).1, rfl⟩
    · cases hx

/-- A commit is made by an open session and applies its writes. -/
theorem act_commit {x : Action ι ρ} {t : ι} {r : ρ} {a : α}
    (hx : s.act code x = some (.commit t r a, s')) :
    ∃ c ∈ s.sessions, c.id = t ∧ c.req = r ∧ c.prog = .done a ∧ s'.db = view c.writes s.db := by
  cases x with
  | start t r =>
    simp only [act] at hx
    split at hx <;> cases hx
  | next t =>
    obtain ⟨c, hc, hn⟩ := Option.bind_eq_some_iff.mp hx
    obtain ⟨hc, -⟩ := Table.get?_eq_some.mp hc
    rcases next_cases hn with ⟨a', hprog, hm, rfl⟩ | ⟨e, -, hm, -⟩ | ⟨hm, -⟩
    · obtain ⟨rfl, rfl, rfl⟩ := Label.commit.inj hm
      exact ⟨c, hc, rfl, rfl, hprog, rfl⟩
    · cases hm
    · exact hm.elim
  | abort t =>
    simp only [act] at hx
    split at hx <;> cases hx

/-- What holds of every request that is started holds of every request that is
open or committed. -/
theorem Run.requests {Q : ρ → Prop} (hr : Run code P ls s ls' s')
    (hP : ∀ {ls s t r s'}, P ls s (.start t r) s' → Q r)
    (hs : ∀ c ∈ s.sessions, Q c.req) (hh : ∀ x ∈ history ls, Q x.1) :
    (∀ c ∈ s'.sessions, Q c.req) ∧ ∀ x ∈ history ls', Q x.1 := by
  induction hr with
  | nil => exact ⟨hs, hh⟩
  | @snoc ls₁ s₁ x m s₂ hr hact hp ih =>
    obtain ⟨ihs, ihh⟩ := ih
    constructor
    · intro c hc
      rcases act_mem hact hc with ⟨c₀, hc₀, hreq⟩ | rfl
      · exact hreq ▸ ihs c₀ hc₀
      · exact hP hp
    · intro y hy
      rw [history_append, List.mem_append] at hy
      rcases hy with hy | hy
      · exact ihh y hy
      · cases m with
        | commit t r a =>
          obtain rfl := List.mem_singleton.mp hy
          obtain ⟨c, hc, -, rfl, -⟩ := act_commit hact
          exact ihs c hc
        | _ => cases hy

/-- An uninterrupted transaction, when nobody else holds a lock, answers as it
does alone. -/
theorem Run.alone (hr : Run code (fun _ _ m _ => m.Statement c.id) ls s ls' s')
    (hc : c ∈ s.sessions) (hfree : ∀ d ∈ s.sessions, d.id ≠ c.id → d.held = [])
    {s'' : Sys ι ρ δ ω l γ ε α} {r : ρ} {a : α}
    (hx : s'.act code (.next c.id) = some (.commit c.id r a, s'')) :
    c.prog.run (view c.writes s.db) = .ok (a, s''.db) := by
  -- While only this session moves, the answer it is heading for stays the same.
  have halone : s'.db = s.db ∧ (∀ d ∈ s'.sessions, d.id ≠ c.id → d.held = []) ∧
      ∃ c' ∈ s'.sessions, c'.id = c.id ∧
        c'.prog.run (view c'.writes s.db) = c.prog.run (view c.writes s.db) := by
    clear hx
    induction hr with
    | nil => exact ⟨rfl, hfree, c, hc, rfl, rfl⟩
    | @snoc ls₁ s₁ x m s₂ hr hact hm ih =>
      obtain ⟨hdb, hfree₁, c₁, hc₁, hid, hrun⟩ := ih
      rcases act_session hact hc₁ with ⟨hby, -⟩ | ⟨-, -, c₂, rfl, hres⟩ | ⟨-, hend, -⟩
      · exact absurd (hm.by.trans hid.symm) hby
      · refine ⟨hdb, fun d hd hne => ?_, c₂, (mem_put hc₁ hres.id).mpr (.inr rfl),
          hres.id.trans hid, ?_⟩
        · rcases (mem_put hc₁ hres.id).mp hd with ⟨hd, -⟩ | rfl
          · exact hfree₁ d hd hne
          · exact absurd (hres.id.trans hid) hne
        · rw [← hrun, ← hdb]
          refine hres.run fun i d hd hne j hj => ?_
          rw [hfree₁ d hd (hid ▸ hne)] at hj
          cases hj
      · rw [hid] at hend
        exact absurd hm hend
  obtain ⟨hdb, -, c', hc', hid, hrun⟩ := halone
  obtain ⟨c₁, hc₁, hn⟩ := Option.bind_eq_some_iff.mp hx
  obtain ⟨hc₁, hid₁⟩ := Table.get?_eq_some.mp hc₁
  obtain rfl := Table.eq_of_key hc₁ hc' (hid₁.trans hid.symm)
  rcases next_cases hn with ⟨a', hp, hm, rfl⟩ | ⟨e, -, hm, -⟩ | ⟨hm, -⟩
  · obtain ⟨-, -, rfl⟩ := Label.commit.inj hm
    rw [← hrun, hp, ← hdb]
    rfl
  · cases hm
  · exact hm.elim

variable [∀ ls s m s', Decidable (P ls s m s')]

variable (code P) in
/-- A schedule, executed. -/
def play : List (Label ι ρ ω ε α) → Sys ι ρ δ ω l γ ε α → List (Action ι ρ) →
    Option (List (Label ι ρ ω ε α) × Sys ι ρ δ ω l γ ε α)
  | ls, s, [] => some (ls, s)
  | ls, s, x :: xs =>
    match s.act code x with
    | none => none
    | some (m, s') => if P ls s m s' then play (ls ++ [m]) s' xs else none

/-- A request that takes its `n` statements without interruption. -/
def alone (t : ι) (r : ρ) (n : ℕ) : List (Action ι ρ) := .start t r :: List.replicate n (.next t)

theorem run_of_play {xs : List (Action ι ρ)} (hp : play code P ls s xs = some (ls', s')) :
    Run code P ls s ls' s' := by
  induction xs generalizing ls s with
  | nil =>
    cases hp
    exact .nil
  | cons x xs ih =>
    rw [play] at hp
    split at hp
    · cases hp
    · rename_i m s₁ hact
      split at hp
      · rename_i hstep
        exact (Run.snoc .nil hact hstep).trans (ih hp)
      · cases hp

/-- What holds at the end of a schedule holds at the end of a run. -/
theorem exists_run {xs : List (Action ι ρ)}
    {f : List (Label ι ρ ω ε α) × Sys ι ρ δ ω l γ ε α → Bool}
    (h : (play code P ls s xs).any f = true) :
    ∃ ls' s', Run code P ls s ls' s' ∧ f (ls', s') = true := by
  cases hp : play code P ls s xs with
  | none =>
    rw [hp] at h
    cases h
  | some p =>
    rw [hp] at h
    exact ⟨p.1, p.2, run_of_play hp, h⟩

end Run

end Sys

end Relational
