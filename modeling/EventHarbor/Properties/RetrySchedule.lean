import EventHarbor.Relational.Effects
import EventHarbor.Properties.Outcomes

/-!
# The retry schedule

When a finalized attempt schedules a retry, its delay is at least what the endpoint
asked for and at most the greater of that and the jitter ceiling. Every other
finalized attempt clears the schedule.
-/

namespace EventHarbor

open Relational Txn DeliveryWorker

/-! ## The jitter ceiling -/

/-- The greatest delay after `n` failures. -/
def Settings.ceiling (s : Settings) (n : ℕ) : ℚ :=
  min s.workerMaxDelaySeconds (s.workerBaseDelaySeconds * 2 ^ (n - 1))

theorem Settings.ceiling_pos (s : Settings) (n : ℕ) : 0 < s.ceiling n := by
  have hbase := s.baseDelay_pos
  refine lt_min (hbase.trans_le s.baseDelay_le_maxDelay) ?_
  positivity

theorem Settings.ceiling_mono (s : Settings) : Monotone s.ceiling := by
  intro m n h
  have hbase := s.baseDelay_pos
  refine min_le_min le_rfl (mul_le_mul_of_nonneg_left ?_ hbase.le)
  exact pow_le_pow_right₀ (by norm_num) (by omega)

theorem Settings.ceiling_le (s : Settings) (n : ℕ) : s.ceiling n ≤ s.workerMaxDelaySeconds :=
  min_le_left _ _

theorem RetryPolicy.delaySeconds_ok {s : Settings} {n : ℕ} {fraction delay : ℚ}
    (h : s.retryPolicy.delaySeconds n fraction = .ok delay) :
    1 ≤ n ∧ 0 ≤ fraction ∧ fraction ≤ 1 ∧ delay = s.ceiling n * fraction := by
  unfold delaySeconds at h
  split at h
  · cases h
  split at h
  · cases h
  · rename_i hn hfraction
    rw [not_not] at hfraction
    exact ⟨by omega, hfraction.1, hfraction.2, (Except.ok.inj h).symm⟩

/-! ## What a result leads to -/

/-- How long the endpoint asked to be left alone. -/
def AttemptResult.retryAfter (r : AttemptResult) : ℚ := r.retryAfterSeconds.getD 0

/-- A retryable result of an attempt that is not the last one. -/
def Retries (w : DeliveryWorker) (webhook : OutboundWebhook) (result : AttemptResult) : Prop :=
  result.disposition = .retry ∧ webhook.attemptNumber < w.settings.workerMaxAttempts

section Target

variable {w : DeliveryWorker} {webhook : OutboundWebhook} {result : AttemptResult} {fraction : ℚ}
  {status : DeliveryStatus} {delay : Option ℚ}

/-- The delay of a retry, before it is bounded. -/
theorem target_retries (h : w.target webhook result fraction = .ok (status, delay))
    (hretries : Retries w webhook result) :
    ∃ jittered d, delay = some d ∧
      w.settings.retryPolicy.delaySeconds webhook.attemptNumber fraction = .ok jittered ∧
      (result.retryAfterSeconds = none → d = jittered) ∧
      ∀ x, result.retryAfterSeconds = some x → d = max jittered x := by
  unfold target at h
  rw [hretries.1] at h
  have hremaining : w.retryPolicy.hasAttemptRemaining webhook.attemptNumber = true :=
    decide_eq_true hretries.2
  dsimp only at h
  rw [if_pos hremaining, retryPolicy] at h
  cases hjittered : w.settings.retryPolicy.delaySeconds webhook.attemptNumber fraction with
  | error e => rw [hjittered] at h; cases h
  | ok jittered =>
    rw [hjittered] at h
    cases hafter : result.retryAfterSeconds with
    | none =>
      rw [hafter] at h
      cases h
      exact ⟨jittered, jittered, rfl, rfl, fun _ => rfl, fun x hx => by cases hx⟩
    | some x =>
      rw [hafter] at h
      cases h
      refine ⟨jittered, max jittered x, rfl, rfl, ?_, ?_⟩
      · intro hx
        cases hx
      · rintro y ⟨⟩
        rfl

theorem target_otherwise (h : w.target webhook result fraction = .ok (status, delay))
    (hretries : ¬Retries w webhook result) : delay = none := by
  rcases target_cases h with ⟨-, hdelay, -⟩ | ⟨-, hdelay, -⟩ | ⟨-, -, hretry, hlt⟩
  · exact hdelay
  · exact hdelay
  · exact absurd ⟨hretry, hlt⟩ hretries

/-- The bounds of a scheduled delay. -/
structure Bounded (s : Settings) (n : ℕ) (retryAfter delay : ℚ) : Prop where
  asked : retryAfter ≤ delay
  jittered : delay ≤ max (s.ceiling n) retryAfter
  capped : max (s.ceiling n) retryAfter ≤ max s.workerMaxDelaySeconds s.workerRetryAfterCapSeconds

/-- The header was read under the configured cap. -/
def FromHeader (s : Settings) (result : AttemptResult) : Prop :=
  ∃ tlib value reference, parseRetryAfter tlib value s.workerRetryAfterCapSeconds reference =
    .ok result.retryAfterSeconds

theorem retryAfter_bounds {s : Settings} (h : FromHeader s result) :
    0 ≤ result.retryAfter ∧ result.retryAfter ≤ s.workerRetryAfterCapSeconds := by
  obtain ⟨tlib, value, reference, hparse⟩ := h
  have hcap := s.retryAfterCap_pos
  obtain ⟨r, hr, hbounds⟩ :=
    parseRetryAfter_ok s.workerRetryAfterCapSeconds (datesInRange_of_ok hparse)
  obtain rfl := Except.ok.inj (hparse.symm.trans hr)
  unfold AttemptResult.retryAfter
  cases hafter : result.retryAfterSeconds with
  | none => exact ⟨le_rfl, hcap.le⟩
  | some x => exact hbounds hcap x hafter

/-- A retry is delayed within its bounds. -/
theorem target_bounded (h : w.target webhook result fraction = .ok (status, delay))
    (hretries : Retries w webhook result) (hheader : FromHeader w.settings result) :
    1 ≤ webhook.attemptNumber ∧ 0 ≤ fraction ∧ fraction ≤ 1 ∧
      ∃ d, delay = some d ∧ Bounded w.settings webhook.attemptNumber result.retryAfter d := by
  obtain ⟨jittered, d, rfl, hjittered, hnone, hsome⟩ := target_retries h hretries
  obtain ⟨hn, hpos, hle, rfl⟩ := RetryPolicy.delaySeconds_ok hjittered
  obtain ⟨hafter, hcap⟩ := retryAfter_bounds hheader
  have hceiling := w.settings.ceiling_pos webhook.attemptNumber
  have hnonneg := mul_nonneg hceiling.le hpos
  have hjitter := mul_le_of_le_one_right hceiling.le hle
  refine ⟨hn, hpos, hle, d, rfl, ?_, ?_, ?_⟩
  · cases hr : result.retryAfterSeconds with
    | none =>
      rw [AttemptResult.retryAfter, hr, Option.getD_none, hnone hr]
      exact hnonneg
    | some x =>
      rw [AttemptResult.retryAfter, hr, Option.getD_some, hsome x hr]
      exact le_max_right _ _
  · cases hr : result.retryAfterSeconds with
    | none =>
      rw [hnone hr]
      exact hjitter.trans (le_max_left _ _)
    | some x =>
      rw [AttemptResult.retryAfter, hr, Option.getD_some, hsome x hr]
      exact max_le_max hjitter le_rfl
  · exact max_le_max (w.settings.ceiling_le _) hcap

end Target

/-! ## What `finalize` writes -/

theorem writes_selectForUpdate {α τ : Type} {key : α → UUID} {rowLock : UUID → Lock}
    {rows : Db → List α} {f : Option α → Tx τ} {Q : τ → List Write → Prop} {ws : List Write}
    (hnone : (f none).Writes Q ws) (hsome : ∀ db, ∀ r ∈ rows db, (f (some r)).Writes Q ws) :
    (selectForUpdate key rowLock rows >>= f).Writes Q ws := by
  refine .bind (.bind fun db => ?_)
  simp only [Txn.Writes]
  generalize rows db = found
  rcases found with _ | ⟨r, _ | ⟨r', rest⟩⟩
  · exact hnone
  · intro db'
    show Txn.Writes Q (f ((rows db').find? fun r' => key r' = key r)) ws
    cases hfind : (rows db').find? fun r' => key r' = key r with
    | none => exact hnone
    | some r' => exact hsome db' r' (List.mem_of_find?_eq_some hfind)
  · trivial

/-- The writes of a finalized attempt: its delivery and its evidence. -/
inductive Finalizes (w : DeliveryWorker) (webhook : OutboundWebhook) (result : AttemptResult)
    (draw : FinalizeDraw) : List Write → Prop
  | mk {status : DeliveryStatus} {delay : Option ℚ} {d : Delivery} {a : DeliveryAttempt}
    (target : w.target webhook result draw.randomFraction = .ok (status, delay))
    (delivery : d.id = webhook.deliveryId) (attempt : a.id = webhook.attemptId) :
    Finalizes w webhook result draw
      [.updateDelivery (settled d result status (delay.map (draw.databaseNow + ·)) draw.databaseNow),
       .updateAttempt (completed a result (delay.map (draw.databaseNow + ·)) draw.databaseNow)]

theorem writes_finalize (w : DeliveryWorker) (webhook : OutboundWebhook) (result : AttemptResult)
    (draw : FinalizeDraw) : (w.finalize webhook result draw).Writes
      (fun answer ws => answer = true → Finalizes w webhook result draw ws) [] := by
  unfold finalize
  cases htarget : w.target webhook result draw.randomFraction with
  | error e => trivial
  | ok target =>
    obtain ⟨status, delay⟩ := target
    rw [lift_ok_bind]
    refine writes_selectForUpdate (fun h => Bool.noConfusion h) fun db d hd => ?_
    dsimp only
    unfold finalizeLocked
    split
    · exact fun h => Bool.noConfusion h
    · refine writes_selectForUpdate trivial fun db' a ha => ?_
      dsimp only
      cases ensureTransition d.status status with
      | error e => trivial
      | ok u =>
      rw [lift_ok_bind]
      cases bindText (lastError result) with
      | error e => trivial
      | ok u =>
      rw [lift_ok_bind]
      cases hmessage : bindText result.errorMessage with
      | error e => exact ⟨fun e => trivial, trivial⟩
      | ok u =>
        simp only [ownedDeliveries, List.mem_filter, Bool.and_eq_true, decide_eq_true_eq] at hd
        simp only [claimedAttempts, List.mem_filter, Bool.and_eq_true, decide_eq_true_eq] at ha
        exact ⟨fun e => trivial, fun e => trivial, fun _ =>
          .mk htarget hd.2.1.1.1 ha.2.1.1.1.1⟩

/-- What a commit of a request writes, as far as finalized attempts go. -/
def WritesOf (r : Request) (answer : Response) (ws : List Write) : Prop :=
  ∀ w webhook result draw, r = .finalize w webhook result draw → answer = .finalized true →
    Finalizes w webhook result draw ws

theorem writes_code (lib : Lib) (r : Request) : (Request.code lib r).Writes (WritesOf r) [] := by
  cases r with
  | finalize w webhook result draw =>
    refine Txn.Writes.bind ((writes_finalize w webhook result draw).mono ?_)
    rintro answer ws h w' webhook' result' draw' ⟨⟩ hanswer
    exact h (Response.finalized.inj hanswer)
  | _ => exact .of_forall (fun answer ws w webhook result draw h => by cases h) _ _

/-! ## The schedule -/

/-- In ordinary operation the rows of a finalized attempt are there. -/
theorem Step.finalized {lib : Lib} {L : List Lock} {db db' : Db} {w : DeliveryWorker}
    {webhook : OutboundWebhook} {result : AttemptResult} {draw : FinalizeDraw}
    (h : Step lib False L db (.finalize w webhook result draw) (.finalized true) db') :
    (∃ d ∈ db'.deliveries, d.id = webhook.deliveryId) ∧
      ∃ a ∈ db'.attempts, a.id = webhook.attemptId := by
  cases h with
  | settle htarget hd hcount ha hL hvalid hclose =>
    simp only [ownedDeliveries, List.mem_filter, Bool.and_eq_true, decide_eq_true_eq] at hd
    simp only [claimedAttempts, List.mem_filter, Bool.and_eq_true, decide_eq_true_eq] at ha
    exact ⟨⟨_, Table.mem_set.mpr (.inr ⟨rfl, _, hd.1, rfl⟩), hd.2.1.1.1⟩,
      ⟨_, Table.mem_set.mpr (.inr ⟨rfl, _, ha.1, rfl⟩), ha.2.1.1.1.1⟩⟩

/-- The schedule of a finalized attempt, in every interleaving of transactions. -/
theorem retry_schedule :
    (∀ s : Settings, (∀ n, 0 < s.ceiling n) ∧ Monotone s.ceiling) ∧
    ∀ (lib : Lib) (P : List Shown → System → Shown → System → Prop) (ls : List Shown)
      (s s' : System) (x : Action ℕ Request) (t : ℕ) (w : DeliveryWorker)
      (webhook : OutboundWebhook) (result : AttemptResult) (draw : FinalizeDraw),
      Sys.Run (Request.code lib) P [] (.idle Db.empty) ls s →
      s.act (Request.code lib) x =
        some (.commit t (.finalize w webhook result draw) (.finalized true), s') →
      ∃ schedule : Option Time,
        (∀ d ∈ s'.db.deliveries, d.id = webhook.deliveryId → d.nextAttemptAt = schedule) ∧
        (∀ a ∈ s'.db.attempts, a.id = webhook.attemptId → a.retryScheduledFor = schedule) ∧
        (Reaches lib ls s → (∃ d ∈ s'.db.deliveries, d.id = webhook.deliveryId) ∧
          ∃ a ∈ s'.db.attempts, a.id = webhook.attemptId) ∧
        (Retries w webhook result → FromHeader w.settings result →
          1 ≤ webhook.attemptNumber ∧ ∃ delay, schedule = some (draw.databaseNow + delay) ∧
            Bounded w.settings webhook.attemptNumber result.retryAfter delay) ∧
        (¬Retries w webhook result → schedule = none) := by
  refine ⟨fun s => ⟨s.ceiling_pos, s.ceiling_mono⟩, ?_⟩
  intro lib P ls s s' x t w webhook result draw hr hx
  obtain ⟨ws, hws, hdb⟩ := hr.writes (writes_code lib) hx
  obtain ⟨htarget, hd, ha⟩ := hws w webhook result draw rfl rfl
  rename_i status delay d a
  refine ⟨delay.map (draw.databaseNow + ·), ?_, ?_, ?_, ?_, ?_⟩
  · intro d' hd' hid
    rw [hdb] at hd'
    rcases Table.mem_set.mp hd' with ⟨-, hne⟩ | ⟨rfl, -⟩
    · exact absurd (hid.trans hd.symm) hne
    · rfl
  · intro a' ha' hid
    rw [hdb] at ha'
    rcases Table.mem_set.mp ha' with ⟨-, hne⟩ | ⟨rfl, -⟩
    · exact absurd (hid.trans ha.symm) hne
    · rfl
  · intro hreaches
    obtain ⟨c, hc, rfl, hreq, -⟩ := Sys.act_commit hx
    obtain ⟨-, hstep⟩ := reaches_commit hreaches hc hx
    rw [hreq] at hstep
    exact hstep.finalized
  · intro hretries hheader
    obtain ⟨hn, -, -, d', rfl, hbounded⟩ := target_bounded htarget hretries hheader
    exact ⟨hn, d', rfl, hbounded⟩
  · intro hretries
    rw [target_otherwise htarget hretries]
    rfl

namespace Sample

/-- The endpoint answered 429 with `Retry-After: 120`. -/
def limited (now : Time) : AttemptResult where
  disposition := .retry
  httpStatusCode := some 429
  errorType := none
  errorMessage := none
  responseBodyExcerpt := some ""
  requestTimestamp := 1767225602
  retryAfterSeconds := some 120
  startedAt := now
  finishedAt := now + 1
  durationMs := 1000

/-- The first attempt of the only delivery is about to be finalized. -/
def failing : List (Action ℕ Request) :=
  Sys.alone 0 register 2 ++ Sys.alone 1 (publish 2 3) 9 ++ Sys.alone 2 (claim "a" (epoch + 1) 4 5) 12 ++
    Sys.alone 3 (finalize "a" (webhook 5 4 1) (limited (epoch + 2)) (epoch + 4)) 10

def schedulesRetry (p : List Shown × System) : Bool :=
  match p.2.act (Request.code lib) (.next 3) with
  | some (.commit _ (.finalize w v result _) (.finalized true), _) =>
    decide (v = webhook 5 4 1) && decide (result = limited (epoch + 2)) &&
      decide (1 < w.settings.workerMaxAttempts) &&
      decide (w.settings.workerRetryAfterCapSeconds = 300)
  | _ => false

end Sample

/-- The endpoint asks for two minutes, longer than the jitter ceiling. -/
theorem retry_schedule_of_failure : ∃ ls s x t w draw s', Reaches Sample.lib ls s ∧
    s.act (Request.code Sample.lib) x = some (.commit t (.finalize w (Sample.webhook 5 4 1)
      (Sample.limited (Sample.epoch + 2)) draw) (.finalized true), s') ∧
    ∃ d ∈ s'.db.deliveries, ∃ delay, d.nextAttemptAt = some (draw.databaseNow + delay) ∧
      Bounded w.settings 1 120 delay := by
  have hplay : (Sys.play (Request.code Sample.lib) Ordinary [] (.idle Db.empty)
      Sample.failing).any Sample.schedulesRetry = true := by
    decide +kernel
  obtain ⟨ls, s, hr, h⟩ := Sys.exists_run hplay
  unfold Sample.schedulesRetry at h
  split at h
  · rename_i t w v result draw s' hact
    simp only [Bool.and_eq_true, decide_eq_true_eq] at h
    obtain ⟨⟨⟨rfl, rfl⟩, hmax⟩, hcap⟩ := h
    have hheader : FromHeader w.settings (Sample.limited (Sample.epoch + 2)) := by
      refine ⟨Sample.dates, some "120", ⟨Sample.epoch, some 0⟩, ?_⟩
      rw [hcap]
      decide +kernel
    obtain ⟨schedule, hdelivery, -, hrows, hretry, -⟩ :=
      retry_schedule.2 Sample.lib Ordinary ls s s' (.next 3) t w _ _ draw hr hact
    obtain ⟨-, delay, rfl, hbounded⟩ := hretry ⟨rfl, hmax⟩ hheader
    obtain ⟨⟨d, hd, hid⟩, -⟩ := hrows hr
    exact ⟨ls, s, _, t, w, draw, s', hr, hact, d, hd, delay, hdelivery d hd hid, hbounded⟩
  · cases h

end EventHarbor
