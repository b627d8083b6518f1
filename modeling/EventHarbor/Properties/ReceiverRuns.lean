import EventHarbor.Properties.Receiver
import EventHarbor.Serialization.DigitLimit

/-!
# One run of Receiver Lab

A run is a machine with two counters: one counts every webhook, the other
restarts with every configuration. Its answers and its evidence follow from
the operations that were routed to it.
-/

namespace EventHarbor.ReceiverLab

open EventHarbor Recency

/-! ## One webhook -/

/-- The body fails validation on its channel. -/
def rejects (lib : ReceiverLib) (configuration : ReceiverConfiguration) (w : Webhook) : Bool :=
  match payloadValidationError lib.loads w.body w.receiverChannel
      (validateUnknown w.receiverChannel configuration) with
  | .ok (some _) => true
  | _ => false

/-- The status of the `k`th webhook since the configuration was set. -/
def expectedStatus (lib : ReceiverLib) (configuration : ReceiverConfiguration) (k : ℕ)
    (w : Webhook) : ℤ :=
  if rejects lib configuration w then 400
  else if configuration.mode = .rateLimited ∧
      (configuration.failuresBeforeSuccess = 0 ∨ k ≤ configuration.failuresBeforeSuccess) then 429
  else if configuration.mode = .failThenSucceed ∧ k ≤ configuration.failuresBeforeSuccess then 503
  else 200

/-- The record shows the webhook. -/
structure RequestRecord.Shows (lib : ReceiverLib) (q : RequestRecord) (w : Webhook) : Prop where
  eventId : q.eventId = w.eventId
  deliveryId : q.deliveryId = w.deliveryId
  eventType : q.eventType = w.eventType
  deliveryAttempt : q.deliveryAttempt = w.deliveryAttempt
  requestTimestamp : q.requestTimestamp = w.requestTimestamp
  receivedAt : q.receivedAt = w.receivedAt
  signaturePresent : q.signaturePresent = w.signature.isSome
  bodySha256 : q.bodySha256 = lib.sha256Hex w.body

section Webhooks

variable {lib : ReceiverLib} {run : ReceiverRunState} {w : Webhook}

theorem scenarioStatus_eq (configuration : ReceiverConfiguration) (k : ℕ) :
    scenarioStatus configuration k =
      if configuration.mode = .rateLimited ∧
        (configuration.failuresBeforeSuccess = 0 ∨ k ≤ configuration.failuresBeforeSuccess) then 429
      else if configuration.mode = .failThenSucceed ∧ k ≤ configuration.failuresBeforeSuccess then
        503
      else 200 := by
  unfold scenarioStatus
  cases configuration.mode <;> simp

/-- A handler that returns has counted the webhook twice and recorded it once. -/
theorem receive_returns {response : WebhookResponse}
    (h : (run.receive lib w).2 = .ok response) :
    response.statusCode = expectedStatus lib run.configuration (run.scenarioAttempts + 1) w ∧
    ∃ q : RequestRecord, q.sequence = run.sequence + 1 ∧ q.attempt = run.scenarioAttempts + 1 ∧
      q.responseStatusCode = response.statusCode ∧ q.Shows lib w ∧
      (run.receive lib w).1 = { run with
        scenarioAttempts := run.scenarioAttempts + 1
        sequence := run.sequence + 1
        requests := lastN maxRequestsPerRun (run.requests ++ [q]) } := by
  cases hv : payloadValidationError lib.loads w.body w.receiverChannel
      (validateUnknown w.receiverChannel run.configuration) with
  | error e => simp [ReceiverRunState.receive, hv] at h
  | ok o =>
    simp only [ReceiverRunState.receive, hv, Except.ok.injEq] at h ⊢
    subst h
    refine ⟨?_, _, rfl, rfl, rfl, ⟨rfl, rfl, rfl, rfl, rfl, rfl, rfl, rfl⟩, rfl⟩
    cases o with
    | some e => simp [expectedStatus, rejects, hv]
    | none => simp [expectedStatus, rejects, hv, scenarioStatus_eq]

/-- The handler raises when `json.loads` raises a plain `ValueError`. -/
theorem receive_raises_iff {e : LoadsError} :
    (run.receive lib w).2 = .error e ↔ e = .value ∧ lib.loads w.body = .error .value := by
  unfold ReceiverRunState.receive payloadValidationError
  cases lib.loads w.body with
  | error e' => cases e' <;> simp [eq_comm]
  | ok j =>
    cases j with
    | obj payload =>
      dsimp only
      cases contractOf payload with
      | none => dsimp only; split_ifs <;> simp
      | some c => simp
    | _ => simp

theorem receive_raises {e : LoadsError} (h : (run.receive lib w).2 = .error e) :
    (run.receive lib w).1 = { run with
      scenarioAttempts := run.scenarioAttempts + 1
      sequence := run.sequence + 1 } := by
  unfold ReceiverRunState.receive at h ⊢
  dsimp only at h ⊢
  split at h
  · rfl
  · cases h

end Webhooks

/-! ## The operations of a run -/

/-- A run of the registry; a scoped run that is not there is a fresh one. -/
def ReceiverState.stateOf (s : ReceiverState) : Option String → ReceiverRunState
  | none => s.default
  | some r => (s.find r).getD {}

/-- A run lives from the operation that creates it until it is evicted. The
default run is there from the start. -/
def Life (lib : ReceiverLib) (ops₀ ops : List Operation) : Option String → Prop
  | none => ops₀ = []
  | some r => r ∉ (ReceiverState.run lib {} ops₀).keys ∧
      ∀ xs op ys, ops = xs ++ op :: ys → r ∈ (ReceiverState.run lib {} (ops₀ ++ xs)).keys →
        r ∈ (ReceiverState.run lib {} (ops₀ ++ xs ++ [op])).keys

/-- The operations that were routed to a run, with their answers. -/
def served (lib : ReceiverLib) (ops₀ ops : List Operation) (key : Option String) : List Entry :=
  ((ReceiverState.run lib {} ops₀).log lib ops).filter (·.routed = key)

/-- The run after the operations it served. -/
def after (lib : ReceiverLib) (es : List Entry) : ReceiverRunState :=
  es.foldl (fun run e => (e.op.onRun lib run).1) {}

/-- Every answer is the one of the run at that moment. -/
def Replays (lib : ReceiverLib) (es : List Entry) : Prop :=
  ∀ pre e post, es = pre ++ e :: post → e.answer = (e.op.onRun lib (after lib pre)).2

section Runs

variable {lib : ReceiverLib} {ops₀ ops xs : List Operation} {op : Operation} {key : Option String}
  {es : List Entry} {e : Entry}

theorem after_snoc : after lib (es ++ [e]) = (e.op.onRun lib (after lib es)).1 := by
  rw [after, List.foldl_append]
  rfl

theorem Replays.snoc (h : Replays lib es) (he : e.answer = (e.op.onRun lib (after lib es)).2) :
    Replays lib (es ++ [e]) := by
  intro pre e' post heq
  rcases List.eq_nil_or_concat' post with rfl | ⟨post, e'', rfl⟩
  · obtain ⟨rfl, hlast⟩ := List.append_inj' heq rfl
    obtain rfl := List.singleton_inj.mp hlast
    exact he
  · rw [← List.cons_append, ← List.append_assoc] at heq
    exact h pre e' post (List.append_inj' heq rfl).1

theorem Life.of_snoc (h : Life lib ops₀ (xs ++ [op]) key) : Life lib ops₀ xs key := by
  cases key with
  | none => exact h
  | some r =>
    refine ⟨h.1, fun xs' op' ys' heq => h.2 xs' op' (ys' ++ [op]) ?_⟩
    rw [heq, List.append_assoc, List.cons_append]

theorem served_snoc : served lib ops₀ (xs ++ [op]) key = served lib ops₀ xs key ++
    if (ReceiverState.run lib {} (ops₀ ++ xs)).routed op = key then
      [⟨op, key, ((ReceiverState.run lib {} (ops₀ ++ xs)).step lib op).2⟩]
    else [] := by
  rw [served, log_snoc, List.filter_append, served, ← run_append]
  congr 1
  split
  · rename_i h
    rw [List.filter_cons_of_pos (by simpa using h), List.filter_nil, h]
  · rename_i h
    rw [List.filter_cons_of_neg (by simpa using h), List.filter_nil]

/-- A run is made by the operations that were routed to it. -/
theorem Life.replays (h : Life lib ops₀ ops key) :
    (ReceiverState.run lib {} (ops₀ ++ ops)).stateOf key = after lib (served lib ops₀ ops key) ∧
    Replays lib (served lib ops₀ ops key) := by
  induction ops using List.reverseRecOn with
  | nil =>
    refine ⟨?_, fun pre e post heq => by simp [served, ReceiverState.log] at heq⟩
    rw [List.append_nil]
    cases key with
    | none =>
      obtain rfl : ops₀ = [] := h
      rfl
    | some r =>
      rw [ReceiverState.stateOf, find_eq_none.mpr h.1]
      rfl
  | append_singleton xs op ih =>
    obtain ⟨hstate, hrep⟩ := ih h.of_snoc
    have hs := run_bounded lib (ops₀ ++ xs)
    rw [← List.append_assoc, run_snoc, served_snoc]
    split
    · rename_i hr
      have hanswer : ((ReceiverState.run lib {} (ops₀ ++ xs)).step lib op).2 =
          (op.onRun lib (after lib (served lib ops₀ xs key))).2 := by
        rw [step_eq hs op, hr, ← hstate]
        cases key <;> rfl
      refine ⟨?_, hrep.snoc hanswer⟩
      rw [after_snoc, ← hstate, step_eq hs op, hr]
      cases key with
      | none => rfl
      | some r =>
        dsimp only
        rw [ReceiverState.stateOf, find_served_self hs]
        rfl
    · rename_i hr
      rw [List.append_nil]
      refine ⟨hstate ▸ ?_, hrep⟩
      cases key with
      | none =>
        rw [step_eq hs op]
        cases hroute : (ReceiverState.run lib {} (ops₀ ++ xs)).routed op with
        | none => exact absurd hroute hr
        | some r => rfl
      | some r =>
        have hkept := h.2 xs op [] rfl
        rw [run_snoc] at hkept
        rw [ReceiverState.stateOf, step_other hs hr hkept, ReceiverState.stateOf]

end Runs

/-! ## Counters and evidence -/

def Entry.isWebhook (e : Entry) : Bool :=
  match e.op with
  | .receiveWebhook _ => true
  | _ => false

def Entry.put (e : Entry) : Option ReceiverConfiguration :=
  match e.op with
  | .configure _ configuration => some configuration
  | _ => none

/-- The webhooks that were ever routed to the run. -/
def total (es : List Entry) : ℕ := es.countP Entry.isWebhook

/-- The configuration of the last PUT. -/
def configurationAfter (es : List Entry) : ReceiverConfiguration :=
  (es.reverse.findSome? Entry.put).getD .initial

/-- The webhooks since the last PUT. -/
def sinceConfigured (es : List Entry) : ℕ :=
  (es.reverse.takeWhile (·.put.isNone)).countP Entry.isWebhook

/-- The handler of the entry returned. -/
def Entry.returns (e : Entry) : Bool :=
  match e.answer with
  | .webhook (.error _) => false
  | _ => true

/-- The counters of the run, and its evidence as the tail of all the records it
ever made. -/
structure Evidence (lib : ReceiverLib) (es : List Entry) (all : List RequestRecord) : Prop where
  configuration : (after lib es).configuration = configurationAfter es
  attempts : (after lib es).scenarioAttempts = sinceConfigured es
  sequence : (after lib es).sequence = total es
  requests : (after lib es).requests = lastN maxRequestsPerRun all
  sequences : all.map (·.sequence) = List.range' 1 (total es)
  records : ∀ pre e post w response, es = pre ++ e :: post → e.op = .receiveWebhook w →
    e.answer = .webhook (.ok response) → ∃ q, all[total pre]? = some q ∧
      q.sequence = total pre + 1 ∧ q.attempt = sinceConfigured pre + 1 ∧
      q.responseStatusCode = response.statusCode ∧ q.Shows lib w

section Counters

variable {lib : ReceiverLib} {es : List Entry} {e : Entry} {all : List RequestRecord}

theorem total_snoc : total (es ++ [e]) = total es + if e.isWebhook then 1 else 0 := by
  rw [total, List.countP_append, List.countP_singleton, total]

theorem configurationAfter_snoc :
    configurationAfter (es ++ [e]) = e.put.getD (configurationAfter es) := by
  rw [configurationAfter, List.reverse_append, List.reverse_singleton, List.singleton_append,
    List.findSome?_cons]
  cases e.put <;> rfl

theorem sinceConfigured_snoc : sinceConfigured (es ++ [e]) =
    if e.put.isSome then 0 else sinceConfigured es + if e.isWebhook then 1 else 0 := by
  rw [sinceConfigured, List.reverse_append, List.reverse_singleton, List.singleton_append,
    List.takeWhile_cons]
  cases h : e.put with
  | none => simp [List.countP_cons, sinceConfigured]
  | some c => simp

/-- The records of a history that an operation extends without a webhook. -/
theorem Evidence.quiet (h : Evidence lib es all) (hw : e.isWebhook = false)
    (hseq : (e.op.onRun lib (after lib es)).1.sequence = (after lib es).sequence)
    (hreq : (e.op.onRun lib (after lib es)).1.requests = (after lib es).requests)
    (hconf : (e.op.onRun lib (after lib es)).1.configuration =
      e.put.getD (after lib es).configuration)
    (hatt : (e.op.onRun lib (after lib es)).1.scenarioAttempts =
      if e.put.isSome then 0 else (after lib es).scenarioAttempts) :
    Evidence lib (es ++ [e]) all where
  configuration := by rw [after_snoc, hconf, configurationAfter_snoc, h.configuration]
  attempts := by
    rw [after_snoc, hatt, sinceConfigured_snoc, h.attempts, hw, if_neg Bool.false_ne_true,
      Nat.add_zero]
  sequence := by
    rw [after_snoc, hseq, total_snoc, h.sequence, hw, if_neg Bool.false_ne_true, Nat.add_zero]
  requests := by rw [after_snoc, hreq, h.requests]
  sequences := by rw [total_snoc, hw, if_neg Bool.false_ne_true, Nat.add_zero, h.sequences]
  records := by
    intro pre e' post w response heq hop hans
    rcases List.eq_nil_or_concat' post with rfl | ⟨post, e'', rfl⟩
    · obtain ⟨-, hlast⟩ := List.append_inj' heq rfl
      obtain rfl := List.singleton_inj.mp hlast
      rw [Entry.isWebhook, hop] at hw
      cases hw
    · rw [← List.cons_append, ← List.append_assoc] at heq
      exact h.records pre e' post w response (List.append_inj' heq rfl).1 hop hans

/-- A webhook whose handler returned adds its record. -/
theorem Evidence.webhook (h : Evidence lib es all) {w : Webhook} {response : WebhookResponse}
    (hop : e.op = .receiveWebhook w) (hans : e.answer = .webhook (.ok response))
    (hrec : ((after lib es).receive lib w).2 = .ok response) :
    ∃ q, Evidence lib (es ++ [e]) (all ++ [q]) := by
  obtain ⟨-, q, hseq, hatt, hstatus, hshows, hrun⟩ := receive_returns hrec
  have hw : e.isWebhook = true := by rw [Entry.isWebhook, hop]
  have hput : e.put = none := by rw [Entry.put, hop]
  have hlen : all.length = total es := by
    have := congrArg List.length h.sequences
    rwa [List.length_map, List.length_range'] at this
  have hafter : after lib (es ++ [e]) = { after lib es with
      scenarioAttempts := (after lib es).scenarioAttempts + 1
      sequence := (after lib es).sequence + 1
      requests := lastN maxRequestsPerRun ((after lib es).requests ++ [q]) } := by
    rw [after_snoc, hop]
    exact hrun
  refine ⟨q, ⟨?_, ?_, ?_, ?_, ?_, ?_⟩⟩
  · rw [hafter, configurationAfter_snoc, hput]
    exact h.configuration
  · rw [hafter, sinceConfigured_snoc, hput, hw]
    exact congrArg (· + 1) h.attempts
  · rw [hafter, total_snoc, hw]
    exact congrArg (· + 1) h.sequence
  · rw [hafter]
    dsimp only
    rw [h.requests, lastN_lastN_append]
  · rw [List.map_append, List.map_singleton, h.sequences, hseq, h.sequence, total_snoc, hw, if_pos rfl,
      List.range'_1_concat, Nat.add_comm 1]
  · intro pre e' post w' response' heq hop' hans'
    rcases List.eq_nil_or_concat' post with rfl | ⟨post, e'', rfl⟩
    · obtain ⟨rfl, hlast⟩ := List.append_inj' heq rfl
      obtain rfl := List.singleton_inj.mp hlast
      obtain rfl : w = w' := Operation.receiveWebhook.inj (hop.symm.trans hop')
      obtain rfl : response = response' := by
        rw [hans] at hans'
        exact Except.ok.inj (Answer.webhook.inj hans')
      refine ⟨q, ?_, by rw [hseq, h.sequence], by rw [hatt, h.attempts], hstatus, hshows⟩
      rw [← hlen, List.getElem?_concat_length]
    · rw [← List.cons_append, ← List.append_assoc] at heq
      obtain ⟨q', hq', hrest⟩ := h.records pre e' post w' response' (List.append_inj' heq rfl).1 hop'
        hans'
      exact ⟨q', List.getElem?_append_left (List.getElem?_eq_some_iff.mp hq').1 ▸ hq', hrest⟩

theorem evidence_nil (lib : ReceiverLib) : Evidence lib [] [] where
  configuration := rfl
  attempts := rfl
  sequence := rfl
  requests := rfl
  sequences := rfl
  records := fun pre e post w response heq => by simp at heq

/-- The evidence of every history whose handlers returned. -/
theorem exists_evidence (hrep : Replays lib es) (hreturn : ∀ e ∈ es, e.returns = true) :
    ∃ all, Evidence lib es all := by
  induction es using List.reverseRecOn with
  | nil => exact ⟨[], evidence_nil lib⟩
  | append_singleton es e ih =>
    have hans := hrep es e [] rfl
    have hret := hreturn e (List.mem_append_right _ (List.mem_singleton.mpr rfl))
    obtain ⟨all, hall⟩ := ih
      (fun pre e' post heq => hrep pre e' (post ++ [e]) (by rw [heq]; simp))
      fun e' he' => hreturn e' (List.mem_append_left _ he')
    obtain ⟨op, routed, answer⟩ := e
    cases op with
    | receiveWebhook w =>
      cases hrec : ((after lib es).receive lib w).2 with
      | error err =>
        have hraised : answer = .webhook (.error err) := hans.trans (congrArg Answer.webhook hrec)
        rw [Entry.returns, hraised] at hret
        cases hret
      | ok response =>
        obtain ⟨q, hq⟩ := hall.webhook rfl (hans.trans (congrArg Answer.webhook hrec)) hrec
        exact ⟨all ++ [q], hq⟩
    | _ => exact ⟨all, hall.quiet rfl rfl rfl rfl rfl⟩

end Counters

/-- The answers and the evidence of a run follow from the operations it served. -/
theorem run_machine (lib : ReceiverLib) (ops₀ ops : List Operation) (key : Option String)
    (hlife : Life lib ops₀ ops key) (hreturn : ∀ e ∈ served lib ops₀ ops key, e.returns = true) :
    (∀ pre e post w, served lib ops₀ ops key = pre ++ e :: post → e.op = .receiveWebhook w →
      ∃ response, e.answer = .webhook (.ok response) ∧
        response.statusCode =
          expectedStatus lib (configurationAfter pre) (sinceConfigured pre + 1) w ∧
        (total post < maxRequestsPerRun →
          ∃ q ∈ ((ReceiverState.run lib {} (ops₀ ++ ops)).stateOf key).requests,
            q.sequence = total pre + 1 ∧ q.attempt = sinceConfigured pre + 1 ∧
            q.responseStatusCode = response.statusCode ∧ q.Shows lib w)) ∧
    ((ReceiverState.run lib {} (ops₀ ++ ops)).stateOf key).requests.map (·.sequence) =
      List.range' (total (served lib ops₀ ops key) + 1 -
        min maxRequestsPerRun (total (served lib ops₀ ops key)))
        (min maxRequestsPerRun (total (served lib ops₀ ops key))) ∧
    ((ReceiverState.run lib {} (ops₀ ++ ops)).stateOf key).sequence =
      total (served lib ops₀ ops key) ∧
    ((ReceiverState.run lib {} (ops₀ ++ ops)).stateOf key).scenarioAttempts =
      sinceConfigured (served lib ops₀ ops key) := by
  obtain ⟨hstate, hrep⟩ := hlife.replays
  obtain ⟨all, hall⟩ := exists_evidence hrep hreturn
  rw [hstate]
  refine ⟨fun pre e post w heq hop => ?_, ?_, hall.sequence, hall.attempts⟩
  · obtain ⟨all', hall'⟩ : ∃ all', Evidence lib pre all' := exists_evidence
      (fun pre' e' post' h => hrep pre' e' (post' ++ e :: post) (by rw [heq, h]; simp))
      fun e' he' => hreturn e' (by rw [heq]; exact List.mem_append_left _ he')
    have hans := hrep pre e post heq
    rw [hop] at hans
    cases hrec : ((after lib pre).receive lib w).2 with
    | error err =>
      have hret := hreturn e (by rw [heq]; simp)
      rw [Entry.returns, hans.trans (congrArg Answer.webhook hrec)] at hret
      cases hret
    | ok response =>
      have hresponse := hans.trans (congrArg Answer.webhook hrec)
      obtain ⟨hstatus, -⟩ := receive_returns hrec
      rw [hall'.configuration, hall'.attempts] at hstatus
      refine ⟨response, hresponse, hstatus, fun hpost => ?_⟩
      obtain ⟨q, hq, hrest⟩ := hall.records pre e post w response heq hop hresponse
      refine ⟨q, ?_, hrest⟩
      rw [hall.requests]
      refine getElem?_mem_lastN hq ?_
      have hlen := congrArg List.length hall.sequences
      have hone : total [e] = 1 := by
        rw [total, List.countP_singleton, Entry.isWebhook, hop]
        rfl
      have htotal : total (served lib ops₀ ops key) = total pre + (1 + total post) := by
        rw [← hone, heq, total, List.countP_append, total, List.countP_cons, total,
          List.countP_singleton, total]
        omega
      rw [List.length_map, List.length_range', htotal] at hlen
      omega
  · have hlen := congrArg List.length hall.sequences
    rw [List.length_map, List.length_range'] at hlen
    rw [hall.requests, ← lastN_map, hall.sequences, lastN, List.length_range', List.drop_range']
    congr 1 <;> omega

namespace Sample

def failOnce : ReceiverConfiguration where
  mode := .failThenSucceed
  failuresBeforeSuccess := 1
  delay_le := ReceiverConfiguration.no_delay

/-- One seeded failure, three webhooks and a new configuration between them. -/
def repaired : List Operation :=
  [.configure none failOnce,
   .receiveWebhook (plainWebhook unknownEvent none), .receiveWebhook (plainWebhook unknownEvent none),
   .configure none .initial, .receiveWebhook (plainWebhook unknownEvent none)]

end Sample

theorem run_machine_of_repaired :
    (served Sample.receiverLib [] Sample.repaired none).map (·.answer.status) =
      [none, some 503, some 200, none, some 200] ∧
    ((ReceiverState.run Sample.receiverLib {} ([] ++ Sample.repaired)).stateOf none).requests.map
      (·.sequence) = List.range' 1 3 ∧
    ((ReceiverState.run Sample.receiverLib {} ([] ++ Sample.repaired)).stateOf none).sequence = 3 := by
  have hreturn : ∀ e ∈ served Sample.receiverLib [] Sample.repaired none, e.returns = true := by
    have hall : (served Sample.receiverLib [] Sample.repaired none).all Entry.returns = true := by
      decide +kernel
    exact List.all_eq_true.mp hall
  obtain ⟨-, hsequences, hsequence, -⟩ :=
    run_machine Sample.receiverLib [] Sample.repaired none rfl hreturn
  have htotal : total (served Sample.receiverLib [] Sample.repaired none) = 3 := by decide
  rw [htotal] at hsequences hsequence
  exact ⟨by decide +kernel, hsequences, hsequence⟩

/-! ## Every path of the handler -/

/-- What one webhook did to its run: one record with the values of both counters,
or nothing. -/
def MovesTogether (run run' : ReceiverRunState) : Prop :=
  (∃ q, run'.requests = lastN maxRequestsPerRun (run.requests ++ [q]) ∧
    run'.sequence = run.sequence + 1 ∧ run'.scenarioAttempts = run.scenarioAttempts + 1 ∧
    q.sequence = run'.sequence ∧ q.attempt = run'.scenarioAttempts) ∨
  (run'.requests = run.requests ∧ run'.sequence = run.sequence ∧
    run'.scenarioAttempts = run.scenarioAttempts)

/-- No record is newer than the counter. -/
def ReceiverRunState.Counted (run : ReceiverRunState) : Prop :=
  ∀ q ∈ run.requests, q.sequence ≤ run.sequence

section Paths

variable {lib : ReceiverLib}

/-- What holds of a fresh run and is kept by every operation holds of every run. -/
theorem stateOf_run {P : ReceiverRunState → Prop} (hnew : P {}) {ops : List Operation}
    (hstep : ∀ op ∈ ops, ∀ run, P run → P (op.onRun lib run).1) (key : Option String) :
    P ((ReceiverState.run lib {} ops).stateOf key) := by
  induction ops using List.reverseRecOn generalizing key with
  | nil => cases key <;> exact hnew
  | append_singleton xs op ih =>
    have hs := run_bounded lib xs
    have ih := ih fun op' hop => hstep op' (List.mem_append_left _ hop)
    have hop := hstep op (List.mem_append_right _ (List.mem_singleton.mpr rfl))
    rw [run_snoc, step_eq hs op]
    cases (ReceiverState.run lib {} xs).routed op with
    | none =>
      cases key with
      | none => exact hop _ (ih none)
      | some r => exact ih (some r)
    | some r =>
      cases key with
      | none => exact ih none
      | some r' =>
        by_cases hr : r' = r
        · subst hr
          rw [ReceiverState.stateOf, find_served_self hs]
          exact hop _ (ih (some r'))
        · by_cases hkept : r' ∈ ((ReceiverState.run lib {} xs).served r
              (op.onRun lib (((ReceiverState.run lib {} xs).find r).getD {})).1).keys
          · rw [ReceiverState.stateOf, find_served_other hs hr fun _ => hkept]
            exact ih (some r')
          · rw [ReceiverState.stateOf, find_eq_none.mpr hkept]
            exact hnew

theorem counted_new : ReceiverRunState.Counted {} := fun q hq => by cases hq

theorem counted_onRun (op : Operation) (run : ReceiverRunState) (h : run.Counted) :
    (op.onRun lib run).1.Counted := by
  cases op with
  | receiveWebhook w =>
    show (run.receive lib w).1.Counted
    cases hrec : (run.receive lib w).2 with
    | error e =>
      rw [receive_raises hrec]
      exact fun q hq => (h q hq).trans (Nat.le_succ _)
    | ok response =>
      obtain ⟨-, q, hseq, -, -, -, hrun⟩ := receive_returns hrec
      rw [hrun]
      intro q' hq'
      rcases List.mem_append.mp ((lastN_sublist _ _).subset hq') with hq' | hq'
      · exact (h q' hq').trans (Nat.le_succ _)
      · rw [List.mem_singleton.mp hq', hseq]
  | _ => exact h

theorem movesTogether_iff {run : ReceiverRunState} (h : run.Counted) (w : Webhook) :
    MovesTogether run (run.receive lib w).1 ↔ lib.loads w.body ≠ .error .value := by
  constructor
  · intro hmoves hload
    have hrec : (run.receive lib w).2 = .error .value := receive_raises_iff.mpr ⟨rfl, hload⟩
    rw [receive_raises hrec] at hmoves
    rcases hmoves with ⟨q, hrequests, -, -, hseq, -⟩ | ⟨-, hsame, -⟩
    · -- The record would have to be there already.
      have hq : q ∈ run.requests := by
        have hlast : q ∈ lastN maxRequestsPerRun (run.requests ++ [q]) :=
          mem_lastN_of_last (by decide) run.requests q
        rwa [← hrequests] at hlast
      have hle := h q hq
      rw [hseq] at hle
      exact absurd hle (Nat.not_succ_le_self _)
    · exact absurd hsame (Nat.succ_ne_self _)
  · intro hload
    cases hrec : (run.receive lib w).2 with
    | error e => exact absurd (receive_raises_iff.mp hrec).2 hload
    | ok response =>
      obtain ⟨-, q, hseq, hatt, -, -, hrun⟩ := receive_returns hrec
      rw [hrun]
      exact .inl ⟨q, rfl, rfl, rfl, hseq, hatt⟩

variable (lib) in
/-- Counters and evidence of every run move together exactly when reading the
body does not raise a plain `ValueError`; the scanner raises it only on a row of too
many digits. -/
theorem counters_move_together_iff (ops : List Operation) (w : Webhook) :
    (MovesTogether
      ((ReceiverState.run lib {} ops).stateOf
        ((ReceiverState.run lib {} ops).routed (.receiveWebhook w)))
      (((ReceiverState.run lib {} ops).step lib (.receiveWebhook w)).1.stateOf
        ((ReceiverState.run lib {} ops).routed (.receiveWebhook w))) ↔
    lib.loads w.body ≠ .error .value) ∧
    ∀ floatOf text, lib.loads w.body = Json.loads floatOf text →
      lib.loads w.body = .error .value → LongDigits text := by
  refine ⟨?_, fun floatOf text htext hvalue => Json.loads_value floatOf (htext ▸ hvalue)⟩
  have hs := run_bounded lib ops
  have hcounted : ((ReceiverState.run lib {} ops).stateOf
      ((ReceiverState.run lib {} ops).routed (.receiveWebhook w))).Counted :=
    stateOf_run counted_new (fun op _ => counted_onRun op) _
  rw [← movesTogether_iff hcounted w, step_eq hs]
  cases (ReceiverState.run lib {} ops).routed (.receiveWebhook w) with
  | none => rfl
  | some r =>
    dsimp only
    rw [ReceiverState.stateOf, ReceiverState.stateOf, find_served_self hs]
    rfl

end Paths

/-- `json.loads` on a long row of ones. -/
theorem loads_ones (floatOf : List Char → PyFloat) {n : ℕ} (h : maxStrDigits < n) :
    Json.loads floatOf (List.replicate n (CodePoint.ofChar '1')) = .error .value := by
  obtain ⟨m, rfl⟩ : ∃ m, n = m + 1 := ⟨n - 1, by omega⟩
  have hone : isDigit (CodePoint.ofChar '1') = true := by decide
  have hnumeral : Numeral (List.replicate (m + 1) (CodePoint.ofChar '1')) := by
    refine .inr ⟨_, _, List.replicate_succ, hone, by decide, fun c hc => ?_⟩
    rw [List.eq_of_mem_replicate hc]
    exact hone
  have hscan : scanNumber floatOf false (List.replicate (m + 1) (CodePoint.ofChar '1')) =
      .error .value := by
    have hinteger : scanInteger (List.replicate (m + 1) (CodePoint.ofChar '1') ++ []) =
        some (List.replicate (m + 1) (CodePoint.ofChar '1'), []) :=
      scanInteger_numeral hnumeral (by simp)
    rw [List.append_nil] at hinteger
    unfold scanNumber
    rw [hinteger]
    simp only [scanFraction, scanExponent, List.isEmpty_nil, Bool.and_true, if_true,
      List.length_replicate]
    exact if_pos h
  rw [List.replicate_succ] at hscan ⊢
  rw [Json.loads, if_neg (by decide), skipSpace_cons (by decide), scanOnce_atom (by decide),
    scanAtom_digit hone, hscan]

theorem decodeReplace_ones (n : ℕ) :
    decodeReplace (List.replicate n 49) = List.replicate n '1' := by
  induction n with
  | zero => rfl
  | succ n ih =>
    rw [List.replicate_succ, List.replicate_succ, ← ih]
    rfl

namespace Sample

/-- An integer literal with one digit too many. -/
def longInteger : Bytes := List.replicate 4301 49

theorem loads_longInteger : receiverLib.loads longInteger = .error .value := by
  rw [longInteger, receiverLib]
  dsimp only
  rw [decodeReplace_ones, PyStr.ofChars, List.map_replicate]
  exact loads_ones _ (by decide)

end Sample

/-- Both counters advance and nothing is recorded. -/
theorem counters_move_apart :
    ¬MovesTogether (({} : ReceiverState).stateOf none)
      ((({} : ReceiverState).step Sample.receiverLib
        (.receiveWebhook (plainWebhook Sample.longInteger none))).1.stateOf none) := by
  have hload := Sample.loads_longInteger
  obtain ⟨body, hbody⟩ : ∃ body, body = Sample.longInteger := ⟨_, rfl⟩
  rw [← hbody] at hload ⊢
  intro h
  exact (movesTogether_iff counted_new (plainWebhook body none)).mp h hload

end EventHarbor.ReceiverLab
