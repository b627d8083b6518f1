import EventHarbor.Properties.Payload
import Mathlib.Data.List.Induction
import Mathlib.Data.List.Infix

/-!
# Runs of Receiver Lab are isolated

The registry is a bounded recency list. A run that is never evicted behaves as
if the receiver served nothing else.
-/

namespace EventHarbor.ReceiverLab

open EventHarbor Recency

/-! ## Routing -/

/-- The run id an operation names. -/
def Operation.runId : Operation → Option String
  | configure runId _ | controlState runId | listRequests runId => runId
  | receiveWebhook w => w.demoRunId

def ReceiverState.keys (s : ReceiverState) : List String := s.scopedRuns.map Prod.fst

/-- The scoped run that serves an operation, and is touched by it: a control
operation creates its run, a webhook needs it to be there. -/
def ReceiverState.routed (s : ReceiverState) : Operation → Option String
  | .receiveWebhook w => w.demoRunId.filter (· ∈ s.keys)
  | op => op.runId

/-- An operation with the run that served it and its answer. -/
structure Entry where
  op : Operation
  routed : Option String
  answer : Answer

namespace ReceiverState

variable (lib : ReceiverLib)

def run (s : ReceiverState) (ops : List Operation) : ReceiverState :=
  ops.foldl (fun s op => (s.step lib op).1) s

/-- The entries of a sequence of operations. -/
def log : ReceiverState → List Operation → List Entry
  | _, [] => []
  | s, op :: ops => ⟨op, s.routed op, (s.step lib op).2⟩ :: log (s.step lib op).1 ops

end ReceiverState

/-- `r` stays in the registry once it is there. -/
def NeverEvicted (lib : ReceiverLib) (ops : List Operation) (r : String) : Prop :=
  ∀ xs op ys, ops = xs ++ op :: ys → r ∈ (ReceiverState.run lib {} xs).keys →
    r ∈ (ReceiverState.run lib {} (xs ++ [op])).keys

/-! ## The registry -/

/-- What holds of every registry. -/
structure ReceiverState.Bounded (s : ReceiverState) : Prop where
  nodup : s.keys.Nodup
  length : s.keys.length ≤ maxScopedRuns

section Registry

variable {lib : ReceiverLib} {s : ReceiverState} {r : String} {x : ReceiverRunState}
  {op : Operation}

theorem find_eq_some (hs : s.Bounded) : s.find r = some x ↔ (r, x) ∈ s.scopedRuns := by
  unfold ReceiverState.find
  constructor
  · intro h
    obtain ⟨⟨k, y⟩, hfind, rfl⟩ := Option.map_eq_some_iff.mp h
    have hk : k = r := by simpa using List.find?_some hfind
    exact hk ▸ List.mem_of_find?_eq_some hfind
  · intro h
    obtain ⟨⟨k, y⟩, hfind⟩ : ∃ m, s.scopedRuns.find? (·.1 = r) = some m :=
      Option.isSome_iff_exists.mp (List.find?_isSome.mpr ⟨(r, x), h, decide_eq_true rfl⟩)
    have hk : k = r := by simpa using List.find?_some hfind
    have heq := List.inj_on_of_nodup_map hs.nodup (List.mem_of_find?_eq_some hfind) h hk
    rw [hfind, heq]
    rfl

theorem find_eq_none : s.find r = none ↔ r ∉ s.keys := by
  rw [ReceiverState.find, Option.map_eq_none_iff, List.find?_eq_none, ReceiverState.keys,
    List.mem_map]
  simp only [decide_eq_true_eq]
  exact ⟨fun h ⟨m, hm, hr⟩ => h m hm hr, fun h m hm hr => h ⟨m, hm, hr⟩⟩

theorem keys_reinsert (s : ReceiverState) (r : String) (x : ReceiverRunState) :
    (s.reinsert r x).map Prod.fst = touch s.keys r := by
  rw [ReceiverState.reinsert, List.map_append, touch, ReceiverState.keys, List.filter_map]
  rfl

/-- The state after an operation that `r` served. -/
def ReceiverState.served (s : ReceiverState) (r : String) (x : ReceiverRunState) : ReceiverState :=
  { s with scopedRuns := evict (s.reinsert r x) }

theorem keys_served (s : ReceiverState) (r : String) (x : ReceiverRunState) :
    (s.served r x).keys = lastN maxScopedRuns (touch s.keys r) := by
  rw [← keys_reinsert s r x, lastN_map]
  rfl

theorem Bounded.served (hs : s.Bounded) (r : String) (x : ReceiverRunState) :
    (s.served r x).Bounded where
  nodup := by
    rw [keys_served]
    exact (nodup_touch hs.nodup r).sublist (lastN_sublist _ _)
  length := by
    rw [keys_served]
    exact length_lastN_le _ _

theorem find_served_self (hs : s.Bounded) : (s.served r x).find r = some x :=
  (find_eq_some (Bounded.served hs r x)).mpr (mem_lastN_of_last (by decide) _ _)

/-- Another run keeps its state, if it is not evicted. -/
theorem find_served_other (hs : s.Bounded) {r' : String} (hr : r' ≠ r)
    (hkept : r' ∈ s.keys → r' ∈ (s.served r x).keys) : (s.served r x).find r' = s.find r' := by
  have hmem : ∀ y, (r', y) ∈ (s.served r x).scopedRuns → (r', y) ∈ s.scopedRuns := by
    intro y hy
    rcases List.mem_append.mp ((lastN_sublist _ _).subset hy) with hy | hy
    · exact (List.mem_filter.mp hy).1
    · exact absurd (congrArg Prod.fst (List.mem_singleton.mp hy)) hr
  cases hfind : (s.served r x).find r' with
  | some y =>
    exact ((find_eq_some hs).mpr (hmem y ((find_eq_some (Bounded.served hs r x)).mp hfind))).symm
  | none =>
    exact (find_eq_none.mpr fun hin => find_eq_none.mp hfind (hkept hin)).symm

/-- A run that was there is served without eviction. -/
theorem evict_reinsert (hs : s.Bounded) (hr : r ∈ s.keys) :
    evict (s.reinsert r x) = s.reinsert r x := by
  refine lastN_of_length_le ?_
  have hlen : (s.reinsert r x).length = (touch s.keys r).length := by
    rw [← keys_reinsert s r x, List.length_map]
  rw [hlen, length_touch_of_mem hs.nodup hr]
  exact hs.length

/-- What one operation does. -/
theorem step_eq (hs : s.Bounded) (op : Operation) : s.step lib op =
    match s.routed op with
    | none => ({ s with default := (op.onRun lib s.default).1 }, (op.onRun lib s.default).2)
    | some r => (s.served r (op.onRun lib ((s.find r).getD {})).1,
        (op.onRun lib ((s.find r).getD {})).2) := by
  cases op with
  | configure runId configuration => cases runId <;> rfl
  | controlState runId => cases runId <;> rfl
  | listRequests runId => cases runId <;> rfl
  | receiveWebhook w =>
    simp only [ReceiverState.step, ReceiverState.webhookState, ReceiverState.routed]
    cases w.demoRunId with
    | none => rfl
    | some r =>
      by_cases hr : r ∈ s.keys
      · obtain ⟨y, hy⟩ : ∃ y, s.find r = some y := by
          cases hfind : s.find r with
          | some y => exact ⟨y, rfl⟩
          | none => exact absurd hr (find_eq_none.mp hfind)
        simp only [Option.bind_some, hy, Option.map_some, Option.filter_some, hr, decide_true,
          if_true, Option.getD_some, ReceiverState.served, evict_reinsert hs hr]
      · simp only [Option.bind_some, find_eq_none.mpr hr, Option.map_none, Option.filter_some, hr,
          decide_false, Bool.false_eq_true, if_false]

theorem step_bounded (hs : s.Bounded) (op : Operation) : (s.step lib op).1.Bounded := by
  rw [step_eq hs op]
  cases s.routed op with
  | none => exact ⟨hs.nodup, hs.length⟩
  | some r => exact Bounded.served hs _ _

theorem routed_runId (h : s.routed op = some r) : op.runId = some r := by
  cases op with
  | receiveWebhook w => exact (Option.filter_eq_some_iff.mp h).1
  | _ => exact h

/-- The route of `r`'s own operations depends on `r` alone. -/
theorem routed_congr {s' : ReceiverState} (hop : op.runId = some r)
    (hfind : s.find r = s'.find r) : s.routed op = s'.routed op := by
  have hmem : r ∈ s.keys ↔ r ∈ s'.keys := by
    rw [← not_iff_not, ← find_eq_none, ← find_eq_none, hfind]
  cases op with
  | receiveWebhook w =>
    simp only [ReceiverState.routed, show w.demoRunId = some r from hop, Option.filter_some, hmem]
  | _ => rfl

/-- An operation that another run serves. -/
theorem step_other (hs : s.Bounded) (hop : s.routed op ≠ some r)
    (hkept : r ∈ s.keys → r ∈ (s.step lib op).1.keys) : (s.step lib op).1.find r = s.find r := by
  rw [step_eq hs op] at hkept ⊢
  cases hr : s.routed op with
  | none => rfl
  | some r' =>
    rw [hr] at hkept hop
    exact find_served_other hs (fun heq => hop (by rw [heq])) hkept

/-- An operation of `r` on two receivers that agree on `r`. -/
theorem step_self {s' : ReceiverState} (hs : s.Bounded) (hs' : s'.Bounded)
    (hop : op.runId = some r) (hfind : s.find r = s'.find r) :
    (s.step lib op).1.find r = (s'.step lib op).1.find r ∧
      (s.routed op = some r → (s.step lib op).2 = (s'.step lib op).2) := by
  have hrouted := routed_congr hop hfind
  rw [step_eq hs op, step_eq hs' op, ← hrouted]
  cases hr : s.routed op with
  | none => exact ⟨hfind, fun h => by cases h⟩
  | some r' =>
    obtain rfl : r' = r := Option.some.inj ((routed_runId hr).symm.trans hop)
    dsimp only
    rw [hfind, find_served_self hs, find_served_self hs']
    exact ⟨rfl, fun _ => rfl⟩

end Registry

/-! ## Sequences of operations -/

section Runs

variable {lib : ReceiverLib} {s : ReceiverState} {r : String} {op : Operation}
  {xs ys ops : List Operation}

theorem run_append : s.run lib (xs ++ ys) = (s.run lib xs).run lib ys := List.foldl_append

theorem run_singleton : s.run lib [op] = (s.step lib op).1 := rfl

theorem run_snoc : s.run lib (xs ++ [op]) = ((s.run lib xs).step lib op).1 := by
  rw [run_append, run_singleton]

theorem log_append : s.log lib (xs ++ ys) = s.log lib xs ++ (s.run lib xs).log lib ys := by
  induction xs generalizing s with
  | nil => rfl
  | cons x xs ih => rw [List.cons_append, ReceiverState.log, ih]; rfl

theorem log_snoc : s.log lib (xs ++ [op]) = s.log lib xs ++
    [⟨op, (s.run lib xs).routed op, ((s.run lib xs).step lib op).2⟩] := by
  rw [log_append]
  rfl

theorem run_bounded (lib : ReceiverLib) (ops : List Operation) :
    (ReceiverState.run lib {} ops).Bounded := by
  induction ops using List.reverseRecOn with
  | nil => exact ⟨List.nodup_nil, Nat.zero_le _⟩
  | append_singleton xs op ih =>
    rw [run_snoc]
    exact step_bounded ih op

/-- The run ids that operations touched, in order. -/
def touched (lib : ReceiverLib) (ops : List Operation) : List String :=
  (ReceiverState.log lib {} ops).filterMap (·.routed)

/-- The registry holds the most recently touched ids. -/
theorem keys_run (lib : ReceiverLib) (ops : List Operation) :
    (ReceiverState.run lib {} ops).keys = lastN maxScopedRuns (touched lib ops).dedup := by
  induction ops using List.reverseRecOn with
  | nil => rfl
  | append_singleton xs op ih =>
    have htouched : touched lib (xs ++ [op]) =
        touched lib xs ++ ((ReceiverState.run lib {} xs).routed op).toList := by
      rw [touched, log_snoc, List.filterMap_append, touched]
      cases (ReceiverState.run lib {} xs).routed op <;> simp
    rw [run_snoc, step_eq (run_bounded lib xs), htouched]
    cases (ReceiverState.run lib {} xs).routed op with
    | none =>
      rw [Option.toList_none, List.append_nil]
      exact ih
    | some r =>
      rw [Option.toList_some, dedup_append_singleton, ← lastN_touch_lastN (List.nodup_dedup _), ← ih]
      exact keys_served _ _ _

/-- The default run is made by the operations no scoped run served. -/
theorem default_run (lib : ReceiverLib) (ops : List Operation) :
    (ReceiverState.run lib {} ops).default =
      ((ReceiverState.log lib {} ops).filter (·.routed = none)).foldl
        (fun run e => (e.op.onRun lib run).1) {} := by
  induction ops using List.reverseRecOn with
  | nil => rfl
  | append_singleton xs op ih =>
    rw [run_snoc, log_snoc, step_eq (run_bounded lib xs), List.filter_append, List.foldl_append, ← ih]
    cases (ReceiverState.run lib {} xs).routed op with
    | none => simp
    | some r => simp [ReceiverState.served]

theorem NeverEvicted.of_append (h : NeverEvicted lib (xs ++ ys) r) : NeverEvicted lib xs r := by
  intro xs' op' ys' heq
  exact h xs' op' (ys' ++ ys) (by rw [heq]; simp)

/-- A run that is never evicted is as if it were alone. -/
theorem run_alone (h : NeverEvicted lib ops r) :
    (ReceiverState.run lib {} ops).find r =
      (ReceiverState.run lib {} (ops.filter (·.runId = some r))).find r ∧
    (ReceiverState.log lib {} ops).filter (·.routed = some r) =
      (ReceiverState.log lib {} (ops.filter (·.runId = some r))).filter (·.routed = some r) := by
  induction ops using List.reverseRecOn with
  | nil => exact ⟨rfl, rfl⟩
  | append_singleton xs op ih =>
    obtain ⟨hfind, hlog⟩ := ih h.of_append
    have hs := run_bounded lib xs
    have hkept := h xs op [] rfl
    rw [run_snoc] at hkept
    by_cases hop : op.runId = some r
    · -- Both receivers route the operation alike.
      obtain ⟨hfind', hanswer⟩ := step_self hs (run_bounded lib _) hop hfind
      have hrouted := routed_congr hop hfind
      rw [List.filter_append, List.filter_cons_of_pos (by simpa using hop), List.filter_nil,
        run_snoc, run_snoc, log_snoc, log_snoc, List.filter_append, List.filter_append, hlog,
        ← hrouted]
      refine ⟨hfind', congrArg _ ?_⟩
      by_cases hr : (ReceiverState.run lib {} xs).routed op = some r
      · rw [hanswer hr]
      · rw [List.filter_cons_of_neg (by simpa using hr), List.filter_cons_of_neg (by simpa using hr)]
    · have hr : (ReceiverState.run lib {} xs).routed op ≠ some r := fun hr => hop (routed_runId hr)
      rw [List.filter_append, List.filter_cons_of_neg (by simpa using hop), List.filter_nil,
        List.append_nil, run_snoc, log_snoc, List.filter_append,
        List.filter_cons_of_neg (by simpa using hr), List.filter_nil, List.append_nil]
      exact ⟨(step_other hs hr hkept).trans hfind, hlog⟩

/-- What no scoped run serves is answered by the default run as it is then. -/
theorem answer_default {xs : List Operation} (h : (ReceiverState.run lib {} xs).routed op = none) :
    ((ReceiverState.run lib {} xs).step lib op).2 =
      (op.onRun lib (ReceiverState.run lib {} xs).default).2 := by
  rw [step_eq (run_bounded lib xs) op, h]

/-- The registry is bounded by recency, the runs in it are isolated, and what no
scoped run serves is answered by the default run, which nothing else makes. -/
theorem runs_isolated (lib : ReceiverLib) (ops : List Operation) :
    (ReceiverState.run lib {} ops).keys.length ≤ maxScopedRuns ∧
    (ReceiverState.run lib {} ops).keys = lastN maxScopedRuns (touched lib ops).dedup ∧
    (∀ r, NeverEvicted lib ops r →
      (ReceiverState.run lib {} ops).find r =
        (ReceiverState.run lib {} (ops.filter (·.runId = some r))).find r ∧
      (ReceiverState.log lib {} ops).filter (·.routed = some r) =
        (ReceiverState.log lib {} (ops.filter (·.runId = some r))).filter (·.routed = some r)) ∧
    (∀ xs op ys, ops = xs ++ op :: ys → (ReceiverState.run lib {} xs).routed op = none →
      ((ReceiverState.run lib {} xs).step lib op).2 =
        (op.onRun lib (ReceiverState.run lib {} xs).default).2) ∧
    (ReceiverState.run lib {} ops).default =
      ((ReceiverState.log lib {} ops).filter (·.routed = none)).foldl
        (fun run e => (e.op.onRun lib run).1) {} :=
  ⟨(run_bounded lib ops).length, keys_run lib ops, fun _ h => run_alone h,
    fun _ _ _ _ h => answer_default h, default_run lib ops⟩

end Runs

namespace Sample

/-- A webhook for a run that does not exist. -/
def orphan : Operation := .receiveWebhook { plainWebhook unknownEvent none with demoRunId := some "r" }

/-- The default run is rate limited when the webhook arrives. -/
def limited : ReceiverConfiguration where
  mode := .rateLimited
  failures_le := ReceiverConfiguration.no_failures
  delay_le := ReceiverConfiguration.no_delay

def fallback : List Operation := [.configure none limited, orphan]

end Sample

def Answer.status : Answer → Option ℤ
  | .webhook handled => some (statusOf handled)
  | _ => none

theorem neverEvicted_fallback : NeverEvicted Sample.receiverLib Sample.fallback "r" := by
  intro xs op ys heq hr
  have hprefix : xs <+: Sample.fallback := ⟨op :: ys, heq.symm⟩
  have hnone : ∀ xs ∈ Sample.fallback.inits,
      (ReceiverState.run Sample.receiverLib {} xs).keys = [] := by
    decide
  rw [hnone xs ((List.mem_inits _ _).mpr hprefix)] at hr
  cases hr

/-- A webhook that arrives before its run exists sees what others did. -/
theorem fallback_not_isolated :
    ¬∀ ops r, NeverEvicted Sample.receiverLib ops r →
      ((ReceiverState.log Sample.receiverLib {} ops).filter (·.op.runId = some r)).map (·.answer) =
        (ReceiverState.log Sample.receiverLib {} (ops.filter (·.runId = some r))).map (·.answer) := by
  intro hall
  have heq := congrArg (List.map Answer.status) (hall _ _ neverEvicted_fallback)
  have hshared : (((ReceiverState.log Sample.receiverLib {} Sample.fallback).filter
      (·.op.runId = some "r")).map (·.answer)).map Answer.status = [some 429] := by
    decide +kernel
  have halone : ((ReceiverState.log Sample.receiverLib {}
      (Sample.fallback.filter (·.runId = some "r"))).map (·.answer)).map Answer.status =
      [some 200] := by
    decide +kernel
  rw [hshared, halone] at heq
  cases heq

end EventHarbor.ReceiverLab
