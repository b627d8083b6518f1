import Mathlib.Data.List.Basic

/-!
# Programs that call out

A program calls its surroundings, which answer whatever they like, and goes on with
the answer. What happened so far is a list of calls with their answers. `Prog.Sat`
says which calls a program may make, and where it may end, as long as the answers
keep to a rule; `Prog.Sat.play` takes this to every run.
-/

namespace Interaction

variable {C : Type} {A : C → Type} {α β σ ε : Type}

/-- A call with its answer. -/
abbrev Turn (A : C → Type) := (c : C) × A c

abbrev Trace (A : C → Type) := List (Turn A)

/-- A program whose calls `c : C` are answered by `A c`. -/
inductive Prog (A : C → Type) (α : Type)
  | done (a : α)
  /-- The program was given too little fuel. -/
  | unfinished
  | call (c : C) (k : A c → Prog A α)

namespace Prog

def bind : Prog A α → (α → Prog A β) → Prog A β
  | done a, f => f a
  | unfinished, _ => unfinished
  | call c k, f => call c fun a => (k a).bind f

instance : Monad (Prog A) where
  pure := done
  bind := bind

/-- What a program comes to, and the calls it makes, when `o` answers them. -/
def play (o : Trace A → (c : C) → A c) : Prog A α → Trace A → Option α × Trace A
  | done a, _ => (some a, [])
  | unfinished, _ => (none, [])
  | call c k, tr =>
    let rest := (k (o tr c)).play o (tr ++ [⟨c, o tr c⟩])
    (rest.1, ⟨c, o tr c⟩ :: rest.2)

end Prog

/-- Every turn of a continuation of `tr` satisfies `P` where it happens. -/
def Along (P : Trace A → Turn A → Prop) : Trace A → Trace A → Prop
  | _, [] => True
  | tr, e :: es => P tr e ∧ Along P (tr ++ [e]) es

theorem along_iff {P : Trace A → Turn A → Prop} {tr es : Trace A} :
    Along P tr es ↔ ∀ es₁ e es₂, es = es₁ ++ e :: es₂ → P (tr ++ es₁) e := by
  induction es generalizing tr with
  | nil => exact ⟨fun _ es₁ e es₂ h => by simp at h, fun _ => trivial⟩
  | cons e es ih =>
    rw [Along, ih]
    constructor
    · rintro ⟨he, hes⟩ es₁ e' es₂ heq
      cases es₁ with
      | nil =>
        obtain ⟨rfl, -⟩ := List.cons.inj heq
        rw [List.append_nil]
        exact he
      | cons e₁ es₁ =>
        obtain ⟨rfl, htail⟩ := List.cons.inj heq
        have := hes es₁ e' es₂ htail
        rwa [List.append_assoc] at this
    · intro h
      refine ⟨by simpa using h [] e es rfl, fun es₁ e' es₂ heq => ?_⟩
      rw [List.append_assoc]
      exact h (e :: es₁) e' es₂ (by rw [heq, List.cons_append])

theorem Along.mono {P Q : Trace A → Turn A → Prop} {tr es : Trace A} (h : Along P tr es)
    (hPQ : ∀ tr e, P tr e → Q tr e) : Along Q tr es := by
  induction es generalizing tr with
  | nil => trivial
  | cons e es ih => exact ⟨hPQ tr e h.1, ih h.2⟩

theorem along_append {P : Trace A → Turn A → Prop} {tr es es' : Trace A} :
    Along P tr (es ++ es') ↔ Along P tr es ∧ Along P (tr ++ es) es' := by
  induction es generalizing tr with
  | nil => simp [Along]
  | cons e es ih =>
    rw [List.cons_append, Along, Along, ih, and_assoc, List.append_assoc, List.singleton_append]

/-- Which calls may be made, which answers may be given, and whether a program may
run out of fuel. -/
structure Rules (A : C → Type) where
  may : Trace A → C → Prop
  answer : Trace A → (c : C) → A c → Prop
  unfinished : Prop

namespace Prog

/-- After `tr` the program only makes calls that may be made and only ends in `Q`. -/
def Sat (R : Rules A) (Q : α → Trace A → Prop) : Prog A α → Trace A → Prop
  | done a, tr => Q a tr
  | unfinished, _ => R.unfinished
  | call c k, tr => R.may tr c ∧ ∀ a, R.answer tr c a → (k a).Sat R Q (tr ++ [⟨c, a⟩])

variable {R : Rules A} {Q Q' : α → Trace A → Prop} {p : Prog A α} {tr : Trace A}

theorem Sat.mono (h : p.Sat R Q tr) (hQ : ∀ a tr, Q a tr → Q' a tr) : p.Sat R Q' tr := by
  induction p generalizing tr with
  | done a => exact hQ a tr h
  | unfinished => exact h
  | call c k ih => exact ⟨h.1, fun a ha => ih a (h.2 a ha)⟩

theorem Sat.bind {Q : β → Trace A → Prop} {f : α → Prog A β}
    (h : p.Sat R (fun a => (f a).Sat R Q) tr) : (p >>= f).Sat R Q tr := by
  show (p.bind f).Sat R Q tr
  induction p generalizing tr with
  | done a => exact h
  | unfinished => exact h
  | call c k ih => exact ⟨h.1, fun a ha => ih a (h.2 a ha)⟩

/-- Whatever answers the calls: as long as the answers keep to the rule, the calls
do, and so does the end. -/
theorem Sat.play (h : p.Sat R Q tr) (o : Trace A → (c : C) → A c)
    (ho : Along (fun tr e => R.answer tr e.1 e.2) tr (p.play o tr).2) :
    Along (fun tr e => R.may tr e.1) tr (p.play o tr).2 ∧
      (∀ a, (p.play o tr).1 = some a → Q a (tr ++ (p.play o tr).2)) ∧
      ((p.play o tr).1 = none → R.unfinished) := by
  induction p generalizing tr with
  | done a =>
    refine ⟨trivial, fun b hb => ?_, fun hn => by cases hn⟩
    obtain rfl := Option.some.inj hb
    rw [Prog.play, List.append_nil]
    exact h
  | unfinished => exact ⟨trivial, fun b hb => (by cases hb), fun _ => h⟩
  | call c k ih =>
    obtain ⟨ha, hes⟩ := ho
    obtain ⟨hmay, hend, hunfinished⟩ := ih (o tr c) (h.2 _ ha) hes
    refine ⟨⟨h.1, hmay⟩, fun b hb => ?_, hunfinished⟩
    have := hend b hb
    rwa [List.append_assoc] at this

/-- What every answer satisfies, every turn of a run does. -/
theorem along_play {P : Trace A → Turn A → Prop} {o : Trace A → (c : C) → A c}
    (h : ∀ tr c, P tr ⟨c, o tr c⟩) (p : Prog A α) (tr : Trace A) : Along P tr (p.play o tr).2 := by
  induction p generalizing tr with
  | done a => trivial
  | unfinished => trivial
  | call c k ih => exact ⟨h tr c, ih _ _⟩

end Prog

/-! ## Variables and exceptions -/

/-- A program with variables `σ` that may throw `ε`. -/
def Imp (A : C → Type) (σ ε α : Type) := σ → Prog A (Except ε α × σ)

namespace Imp

def ret (a : α) : Imp A σ ε α := fun v => .done (.ok a, v)

def raise (e : ε) : Imp A σ ε α := fun v => .done (.error e, v)

def andThen (m : Imp A σ ε α) (f : α → Imp A σ ε β) : Imp A σ ε β := fun v => do
  match ← m v with
  | (.ok a, v) => f a v
  | (.error e, v) => .done (.error e, v)

instance : Monad (Imp A σ ε) where
  pure := ret
  bind := andThen

/-- Call out and go on with the answer. -/
def ask (c : C) : Imp A σ ε (A c) := fun v => .call c fun a => .done (.ok a, v)

/-- Go on with a value or throw. -/
def lift : Except ε α → Imp A σ ε α
  | .ok a => ret a
  | .error e => raise e

def read : Imp A σ ε σ := fun v => .done (.ok v, v)

def modify (f : σ → σ) : Imp A σ ε Unit := fun v => .done (.ok (), f v)

def stuck : Imp A σ ε α := fun _ => .unfinished

/-- `try … catch`: what a throw leaves in the variables stays. -/
def tryCatch (m : Imp A σ ε α) (f : ε → Imp A σ ε α) : Imp A σ ε α := fun v => do
  match ← m v with
  | (.ok a, v) => .done (.ok a, v)
  | (.error e, v) => f e v

/-- From these variables, after `tr`, the program only makes calls that may be made
and only ends in `Q`. -/
def Sat (R : Rules A) (Q : Except ε α → σ → Trace A → Prop) (m : Imp A σ ε α) (v : σ)
    (tr : Trace A) : Prop :=
  (m v).Sat R (fun r => Q r.1 r.2) tr

section Rules

variable {R : Rules A} {Q Q' : Except ε α → σ → Trace A → Prop} {m : Imp A σ ε α} {v : σ}
  {tr : Trace A}

/-- Where the first of two programs ends, the second one starts, unless it threw. -/
def Next (R : Rules A) (Q : Except ε β → σ → Trace A → Prop) (f : α → Imp A σ ε β) :
    Except ε α → σ → Trace A → Prop
  | .ok a, v, tr => (f a).Sat R Q v tr
  | .error e, v, tr => Q (.error e) v tr

/-- Where the body of a `try` ends, its handler starts, if it threw. -/
def Handled (R : Rules A) (Q : Except ε α → σ → Trace A → Prop) (f : ε → Imp A σ ε α) :
    Except ε α → σ → Trace A → Prop
  | .ok a, v, tr => Q (.ok a) v tr
  | .error e, v, tr => (f e).Sat R Q v tr

theorem Sat.mono (h : m.Sat R Q v tr) (hQ : ∀ r v tr, Q r v tr → Q' r v tr) :
    m.Sat R Q' v tr :=
  Prog.Sat.mono h fun r => hQ r.1 r.2

theorem Sat.bind {Q : Except ε β → σ → Trace A → Prop} {f : α → Imp A σ ε β}
    (h : m.Sat R (Next R Q f) v tr) : (m >>= f).Sat R Q v tr := by
  refine Prog.Sat.bind (Prog.Sat.mono h ?_)
  rintro ⟨r, v'⟩ tr' hr
  cases r with
  | ok a => exact hr
  | error e => exact hr

theorem Sat.tryCatch {f : ε → Imp A σ ε α} (h : m.Sat R (Handled R Q f) v tr) :
    (m.tryCatch f).Sat R Q v tr := by
  refine Prog.Sat.bind (Prog.Sat.mono h ?_)
  rintro ⟨r, v'⟩ tr' hr
  cases r with
  | ok a => exact hr
  | error e => exact hr

theorem Sat.ask {Q : Except ε β → σ → Trace A → Prop} {c : C} {f : A c → Imp A σ ε β}
    (hmay : R.may tr c) (h : ∀ a, R.answer tr c a → (f a).Sat R Q v (tr ++ [⟨c, a⟩])) :
    (Imp.ask c >>= f).Sat R Q v tr :=
  ⟨hmay, h⟩

theorem Sat.read {Q : Except ε β → σ → Trace A → Prop} {f : σ → Imp A σ ε β}
    (h : (f v).Sat R Q v tr) : (Imp.read >>= f).Sat R Q v tr := h

theorem Sat.modify {Q : Except ε β → σ → Trace A → Prop} {g : σ → σ} {f : Unit → Imp A σ ε β}
    (h : (f ()).Sat R Q (g v) tr) : (Imp.modify g >>= f).Sat R Q v tr := h

theorem Sat.lift {Q : Except ε β → σ → Trace A → Prop} {x : Except ε α} {f : α → Imp A σ ε β}
    (hok : ∀ a, x = .ok a → (f a).Sat R Q v tr) (herror : ∀ e, x = .error e → Q (.error e) v tr) :
    (Imp.lift x >>= f).Sat R Q v tr := by
  cases x with
  | ok a => exact hok a rfl
  | error e => exact herror e rfl

end Rules

end Imp

end Interaction
