import Mathlib.Data.List.Basic

/-!
# Transactions as programs of statements

A transaction is a tree of statements. Each statement is one indivisible step
on the transaction's own view of the database; between two statements other
transactions may commit. `Txn.run` is the meaning of a transaction that runs
alone; `Relational.System` interleaves several.
-/

namespace Relational

/-- What a database does with the writes and the locks of its transactions.
`check` is the constraint a write would violate, `keys` the unique-index
entries it reserves until its transaction ends. -/
class Engine (δ ω : Type) (l ε : outParam Type) where
  apply : ω → δ → δ
  check : ω → δ → Option ε
  keys : ω → List l
  conflict : l → l → Bool

/-- Programs over a database `δ` with writes `ω`, locks `l` and errors `ε`. -/
inductive Txn (δ ω l γ ε α : Type) : Type
  | done (a : α)
  | fail (e : ε)
  /-- A query, answered from the view at the moment it runs. It may set the
  note, an auxiliary value of type `γ` that no statement depends on. -/
  | read (n : δ → Option γ) (k : δ → Txn δ ω l γ ε α)
  /-- Wait until no other transaction holds a conflicting lock, then take it. -/
  | lock (i : l) (k : Txn δ ω l γ ε α)
  /-- Take the lock if it is free (`SKIP LOCKED`, `try` advisory locks). -/
  | tryLock (i : l) (k : Bool → Txn δ ω l γ ε α)
  /-- Wait for the unique-index entries, then write or report the violation. -/
  | write (w : ω) (k : Option ε → Txn δ ω l γ ε α)

namespace Txn

variable {δ ω l γ ε α β : Type}

def bind : Txn δ ω l γ ε α → (α → Txn δ ω l γ ε β) → Txn δ ω l γ ε β
  | done a, f => f a
  | fail e, _ => fail e
  | read n k, f => read n fun d => (k d).bind f
  | lock i k, f => lock i (k.bind f)
  | tryLock i k, f => tryLock i fun b => (k b).bind f
  | write w k, f => write w fun e => (k e).bind f

instance : Monad (Txn δ ω l γ ε) where
  pure := done
  bind := bind

/-- One query statement. -/
def query (q : δ → α) : Txn δ ω l γ ε α := read (fun _ => none) fun d => done (q d)

/-- A query statement whose answer is also noted. -/
def queryNoting (n : α → γ) (q : δ → α) : Txn δ ω l γ ε α :=
  read (fun d => some (n (q d))) fun d => done (q d)

def acquire (i : l) : Txn δ ω l γ ε Unit := lock i (done ())

def tryAcquire (i : l) : Txn δ ω l γ ε Bool := tryLock i done

/-- A write that raises when it violates a constraint. -/
def exec (w : ω) : Txn δ ω l γ ε Unit :=
  write w fun
    | none => done ()
    | some e => fail e

/-- Raise the error of a failed computation. -/
def lift : Except ε α → Txn δ ω l γ ε α
  | .ok a => done a
  | .error e => fail e

theorem lift_ok_bind (a : α) (f : α → Txn δ ω l γ ε β) : (lift (.ok a) >>= f) = f a := rfl

theorem lift_error_bind (e : ε) (f : α → Txn δ ω l γ ε β) :
    (lift (.error e) >>= f) = fail e := rfl

/-- The database as a transaction that has made the writes `ws` sees it. -/
def view [Engine δ ω l ε] (ws : List ω) (db : δ) : δ :=
  ws.foldl (fun d w => Engine.apply w d) db

@[simp] theorem view_nil [Engine δ ω l ε] (db : δ) : view ([] : List ω) db = db := rfl

@[simp] theorem view_append [Engine δ ω l ε] (ws : List ω) (w : ω) (db : δ) :
    view (ws ++ [w]) db = Engine.apply w (view ws db) := by
  simp [view]

/-- A transaction that runs alone on `db`: its result with the database it
commits, or the error that rolls it back. -/
def run [Engine δ ω l ε] : Txn δ ω l γ ε α → δ → Except ε (α × δ)
  | done a, db => .ok (a, db)
  | fail e, _ => .error e
  | read _ k, db => (k db).run db
  | lock _ k, db => k.run db
  | tryLock _ k, db => (k true).run db
  | write w k, db =>
    match Engine.check w db with
    | some e => (k (some e)).run db
    | none => (k none).run (Engine.apply w db)

section Run

variable [Engine δ ω l ε]

@[simp] theorem run_pure (a : α) (db : δ) :
    (pure a : Txn δ ω l γ ε α).run db = .ok (a, db) := rfl

@[simp] theorem run_query_bind (q : δ → α) (f : α → Txn δ ω l γ ε β) (db : δ) :
    (query q >>= f).run db = (f (q db)).run db := rfl

@[simp] theorem run_tryAcquire_bind (i : l) (f : Bool → Txn δ ω l γ ε β) (db : δ) :
    (tryAcquire i >>= f).run db = (f true).run db := rfl

theorem run_bind (p : Txn δ ω l γ ε α) (f : α → Txn δ ω l γ ε β) (db : δ) :
    (p >>= f).run db = match p.run db with
      | .ok (a, db') => (f a).run db'
      | .error e => .error e := by
  show (p.bind f).run db = _
  induction p generalizing db with
  | done a => rfl
  | fail e => rfl
  | read n k ih => exact ih _ _
  | lock i k ih => exact ih _
  | tryLock i k ih => exact ih _ _
  | write w k ih =>
    simp only [Txn.bind, Txn.run]
    cases Engine.check w db with
    | none => exact ih _ _
    | some e => exact ih _ _

end Run

/-- The result of a program that only reads, when its statements see the
databases `dbs`, one each. -/
def reads : Txn δ ω l γ ε α → (dbs : List δ) → Option (Except ε α)
  | done a, [] => some (.ok a)
  | fail e, [] => some (.error e)
  | read _ k, db :: dbs => (k db).reads dbs
  | _, _ => none

/-- Every value the program can return, whatever its statements see, is in `P`. -/
def Returns (P : α → Prop) : Txn δ ω l γ ε α → Prop
  | done a => P a
  | fail _ => True
  | read _ k => ∀ d, (k d).Returns P
  | lock _ k => k.Returns P
  | tryLock _ k => ∀ b, (k b).Returns P
  | write _ k => ∀ e, (k e).Returns P

theorem Returns.of_forall {P : α → Prop} (h : ∀ a, P a) (p : Txn δ ω l γ ε α) : p.Returns P := by
  induction p with
  | done a => exact h a
  | fail e => trivial
  | read n k ih => exact ih
  | lock i k ih => exact ih
  | tryLock i k ih => exact ih
  | write w k ih => exact ih

theorem Returns.bind {P : β → Prop} {p : Txn δ ω l γ ε α} {f : α → Txn δ ω l γ ε β}
    (h : p.Returns fun a => (f a).Returns P) : (p >>= f).Returns P := by
  show (p.bind f).Returns P
  induction p with
  | done a => exact h
  | fail e => exact h
  | read n k ih => exact fun d => ih d (h d)
  | lock i k ih => exact ih h
  | tryLock i k ih => exact fun b => ih b (h b)
  | write w k ih => exact fun e => ih e (h e)

theorem Returns.after {P : β → Prop} {p : Txn δ ω l γ ε α} {f : α → Txn δ ω l γ ε β}
    (h : ∀ a, (f a).Returns P) : (p >>= f).Returns P := .bind (.of_forall h p)

theorem Returns.mono {P Q : α → Prop} {p : Txn δ ω l γ ε α} (h : p.Returns P)
    (hPQ : ∀ a, P a → Q a) : p.Returns Q := by
  induction p with
  | done a => exact hPQ a h
  | fail e => trivial
  | read n k ih => exact fun d => ih d (h d)
  | lock i k ih => exact ih h
  | tryLock i k ih => exact fun b => ih b (h b)
  | write w k ih => exact fun e => ih e (h e)

theorem Returns.run [Engine δ ω l ε] {P : α → Prop} {p : Txn δ ω l γ ε α} {db db' : δ} {a : α}
    (h : p.Returns P) (hr : p.run db = .ok (a, db')) : P a := by
  induction p generalizing db with
  | done b =>
    cases hr
    exact h
  | fail e => cases hr
  | read n k ih => exact ih _ (h _) hr
  | lock i k ih => exact ih h hr
  | tryLock i k ih => exact ih _ (h true) hr
  | write w k ih =>
    simp only [Txn.run] at hr
    split at hr
    · exact ih _ (h _) hr
    · exact ih _ (h _) hr

end Txn

end Relational
