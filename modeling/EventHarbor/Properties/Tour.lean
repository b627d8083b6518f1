import EventHarbor.Frontend.ReliabilityTour
import Mathlib.Algebra.Order.Archimedean.Basic
import Mathlib.Algebra.Order.Monoid.Unbundled.WithTop
import Mathlib.Algebra.Order.Ring.Rat
import Mathlib.Tactic.Linarith

/-!
# The guided tour acts on durable evidence

Whatever the dependencies of a tour answer, it publishes at most once, replays only a
delivery that was seen stopped or replayed, and reports success only with an event that
was read and that shows it. When every wait advances the clock, the tour resolves.
-/

namespace EventHarbor

open JavaScript Interaction

namespace Frontend

/-! ## What a tour may do -/

def Call.isPublish : Call → Bool
  | .publishDemoEvent _ _ _ _ _ => true
  | _ => false

def Call.isReplay : Call → Bool
  | .replayDelivery _ _ => true
  | _ => false

abbrev TourTrace := Trace Call.Answer

/-- The event was read from the API. -/
def Fetched (tr : TourTrace) (detail : EventDetail) : Prop :=
  ∃ eventId, (⟨.getEvent eventId, .ok detail⟩ : Turn Call.Answer) ∈ tr

/-- A replay was accepted under this delivery id. -/
def Accepted (tr : TourTrace) (deliveryId : JsStr) : Prop :=
  ∃ i key, (⟨.replayDelivery i key, .ok ⟨deliveryId⟩⟩ : Turn Call.Answer) ∈ tr

/-- The replay that a tour follows: the one it was given or the one it requested. -/
def Followed (options : ReliabilityTourOptions) (tr : TourTrace) (deliveryId : JsStr) : Prop :=
  deliveryId ≠ [] ∧ (options.replayDeliveryId = some deliveryId ∨ Accepted tr deliveryId)

/-- What an event has to show before a tour is verified. -/
def Evidence (options : ReliabilityTourOptions) (tr : TourTrace) (detail : EventDetail) : Prop :=
  match options.scenario.strategy with
  | .automatic => ∃ source, sourceDelivery detail = some source ∧ source.status = .delivered
  | .replay => ∃ deliveryId replay, Followed options tr deliveryId ∧
      replayDelivery detail deliveryId = some replay ∧ replay.status = .delivered
  | .terminal => ∃ source evidence, sourceDelivery detail = some source ∧
      source.status = .deadLettered ∧
      (⟨.getDeliveryAttempts source.id, .ok evidence⟩ : Turn Call.Answer) ∈ tr ∧
      isExpectedSchemaRejection detail.type source evidence.attempts = true

/-- Every replay that was requested so far was accepted without naming its delivery, and
there was one at most. -/
structure Unnamed (tr : TourTrace) : Prop where
  once : (tr.filter (·.1.isReplay)).length ≤ 1
  empty : ∀ i key answer, (⟨.replayDelivery i key, answer⟩ : Turn Call.Answer) ∈ tr →
    answer = .ok ⟨[]⟩

/-- The receiver of this run was seen in the success preset. -/
def Healthy (runId : JsStr) (tr : TourTrace) : Prop :=
  ∃ state : ReceiverLabState, state.preset = some .success ∧
    ((⟨.getReceiverLab runId, .ok state⟩ : Turn Call.Answer) ∈ tr ∨
      (⟨.setReceiverLabPreset .success runId, .ok state⟩ : Turn Call.Answer) ∈ tr)

/-- The calls that a tour may make after `tr`. -/
def Authorized (options : ReliabilityTourOptions) (runId : JsStr) (tr : TourTrace) : Call → Prop
  | .publishDemoEvent _ run key payload scenarioId => given options.eventId = none ∧
      run = runId ∧ key = publishKey runId ∧ payload = options.payload ∧
      scenarioId = options.scenario.id ∧ ∀ e ∈ tr, e.1.isPublish = false
  | .setReceiverLabPreset preset run => run = runId ∧
      (preset = .success ∧ options.scenario.strategy = .replay ∨
        preset = options.scenario.preset ∧ given options.eventId = none ∧
          ∀ e ∈ tr, e.1.isPublish = false)
  | .replayDelivery deliveryId key => options.scenario.strategy = .replay ∧
      given options.replayDeliveryId = none ∧ key = replayKey runId ∧ Unnamed tr ∧
      ∃ detail source, Fetched tr detail ∧ sourceDelivery detail = some source ∧
        source.id = deliveryId ∧
        (source.status = .deadLettered ∧ Healthy runId tr ∨ existingReplays detail ≠ [])
  | .onProgress progress => progress.runId = runId ∧ progress.scenarioId = options.scenario.id ∧
      (∀ detail, progress.event = some detail → Fetched tr detail) ∧
      (progress.phase = .verified →
        ∃ detail, progress.event = some detail ∧ Evidence options tr detail)
  | _ => True

/-- What a tour resolves with. -/
structure Concluded (options : ReliabilityTourOptions) (tr : TourTrace)
    (result : ReliabilityTourResult) : Prop where
  phase : result.phase ∈ [.verified, .failed, .paused]
  fetched : ∀ detail, result.event = some detail → Fetched tr detail
  verified : result.phase = .verified →
    ∃ detail, result.event = some detail ∧ Evidence options tr detail

/-! ## The clock -/

def tick (floor : WithBot ℚ) : Turn Call.Answer → WithBot ℚ
  | ⟨.now, .finite q⟩ => q
  | ⟨.wait (.finite d), .ok _⟩ => floor + (d : WithBot ℚ)
  | _ => floor

/-- The earliest time that the next reading of an advancing clock can show. -/
def clockFloor (tr : TourTrace) : WithBot ℚ := tr.foldl tick ⊥

/-- A reading is a number of milliseconds that no wait before it contradicts. -/
def Advances (tr : TourTrace) (e : Turn Call.Answer) : Prop :=
  ∀ reading, e = ⟨.now, reading⟩ → ∃ q : ℚ, reading = .finite q ∧ clockFloor tr ≤ q

/-- The clock has been read, and it is before the deadline. -/
def Timed (deadline : JsNumber) (tr : TourTrace) : Prop :=
  ∃ q : ℚ, clockFloor tr = q ∧ deadline.le (.finite q) = false

/-- The authorized calls; a wait begins before the deadline and lasts some time. -/
def Permitted (options : ReliabilityTourOptions) (runId : JsStr) (started : JsNumber)
    (clocked : Prop) (tr : TourTrace) : Call → Prop
  | .wait duration => clocked → Timed (options.tour runId started).deadline tr ∧
      ∃ d : ℚ, duration = .finite d ∧ 0 ≤ d
  | c => Authorized options runId tr c

theorem Permitted.authorized {options : ReliabilityTourOptions} {runId : JsStr}
    {started : JsNumber} {clocked : Prop} {tr : TourTrace} {c : Call}
    (h : Permitted options runId started clocked tr c) : Authorized options runId tr c := by
  cases c with
  | wait duration => trivial
  | _ => exact h

def rules (options : ReliabilityTourOptions) (runId : JsStr) (started : JsNumber)
    (clocked : Prop) : Rules Call.Answer where
  may := Permitted options runId started clocked
  answer := fun tr c a => clocked → Advances tr ⟨c, a⟩
  unfinished := ¬clocked

@[simp] theorem clockFloor_append (tr : TourTrace) (e : Turn Call.Answer) :
    clockFloor (tr ++ [e]) = tick (clockFloor tr) e := by
  rw [clockFloor, List.foldl_append]
  rfl

/-! ## Calls in between -/

/-- `tr` went on without a mutation, and without the clock going back. -/
structure Later (clocked : Prop) (tr tr' : TourTrace) : Prop where
  extends_ : ∃ es, tr' = tr ++ es ∧ ∀ e ∈ es, e.1.isPublish = false ∧ e.1.isReplay = false
  floor : clocked → clockFloor tr ≤ clockFloor tr'

namespace Later

variable {clocked : Prop} {tr tr' tr'' : TourTrace}

theorem refl (tr : TourTrace) : Later clocked tr tr :=
  ⟨⟨[], (List.append_nil tr).symm, fun _ h => absurd h List.not_mem_nil⟩, fun _ => le_rfl⟩

theorem trans (h : Later clocked tr tr') (h' : Later clocked tr' tr'') : Later clocked tr tr'' := by
  obtain ⟨es, rfl, hes⟩ := h.extends_
  obtain ⟨es', rfl, hes'⟩ := h'.extends_
  refine ⟨⟨es ++ es', List.append_assoc .., fun e he => ?_⟩,
    fun hc => (h.floor hc).trans (h'.floor hc)⟩
  exact (List.mem_append.mp he).elim (hes e) (hes' e)

theorem single {e : Turn Call.Answer} (hp : e.1.isPublish = false) (hr : e.1.isReplay = false)
    (hf : clocked → clockFloor tr ≤ tick (clockFloor tr) e) : Later clocked tr (tr ++ [e]) := by
  refine ⟨⟨[e], rfl, fun e' he' => ?_⟩, fun hc => by rw [clockFloor_append]; exact hf hc⟩
  obtain rfl := List.mem_singleton.mp he'
  exact ⟨hp, hr⟩

theorem subset (h : Later clocked tr tr') : tr ⊆ tr' := by
  obtain ⟨es, rfl, -⟩ := h.extends_
  exact List.subset_append_left tr es

theorem unnamed (h : Later clocked tr tr') (hu : Unnamed tr) : Unnamed tr' := by
  obtain ⟨es, rfl, hes⟩ := h.extends_
  have hnil : es.filter (·.1.isReplay) = [] :=
    List.filter_eq_nil_iff.mpr fun e he => by rw [(hes e he).2]; exact Bool.false_ne_true
  refine ⟨by rw [List.filter_append, hnil, List.append_nil]; exact hu.once,
    fun i key answer ha => ?_⟩
  rcases List.mem_append.mp ha with ha | ha
  · exact hu.empty i key answer ha
  · cases (hes _ ha).2

theorem unreplayed (h : Later clocked tr tr') (hu : ∀ e ∈ tr, e.1.isReplay = false) :
    ∀ e ∈ tr', e.1.isReplay = false := by
  obtain ⟨es, rfl, hes⟩ := h.extends_
  exact fun e he => (List.mem_append.mp he).elim (hu e) fun he => (hes e he).2

theorem unpublished (h : Later clocked tr tr') (hu : ∀ e ∈ tr, e.1.isPublish = false) :
    ∀ e ∈ tr', e.1.isPublish = false := by
  obtain ⟨es, rfl, hes⟩ := h.extends_
  exact fun e he => (List.mem_append.mp he).elim (hu e) fun he => (hes e he).1

end Later

theorem unnamed_of_unreplayed {tr : TourTrace} (h : ∀ e ∈ tr, e.1.isReplay = false) :
    Unnamed tr := by
  have hnil : tr.filter (·.1.isReplay) = [] :=
    List.filter_eq_nil_iff.mpr fun e he => by rw [h e he]; exact Bool.false_ne_true
  exact ⟨by rw [hnil]; exact Nat.zero_le 1, fun i key answer ha => by cases h _ ha⟩

/-- One acceptance that names nothing. -/
theorem unnamed_append {tr : TourTrace} (h : ∀ e ∈ tr, e.1.isReplay = false) (i key : JsStr) :
    Unnamed (tr ++ [⟨.replayDelivery i key, .ok ⟨[]⟩⟩]) := by
  have hnil : tr.filter (·.1.isReplay) = [] :=
    List.filter_eq_nil_iff.mpr fun e he => by rw [h e he]; exact Bool.false_ne_true
  refine ⟨by rw [List.filter_append, hnil]; exact le_rfl, fun i' key' answer ha => ?_⟩
  rcases List.mem_append.mp ha with ha | ha
  · cases h _ ha
  · cases List.mem_singleton.mp ha
    rfl

section Subset

variable {options : ReliabilityTourOptions} {tr tr' : TourTrace} {detail : EventDetail}

theorem Fetched.mono (h : Fetched tr detail) (hsub : tr ⊆ tr') : Fetched tr' detail :=
  h.imp fun _ h => hsub h

theorem Healthy.mono {runId : JsStr} (h : Healthy runId tr) (hsub : tr ⊆ tr') :
    Healthy runId tr' :=
  h.imp fun _ h => ⟨h.1, h.2.imp (hsub ·) (hsub ·)⟩

theorem Followed.mono {deliveryId : JsStr} (h : Followed options tr deliveryId) (hsub : tr ⊆ tr') :
    Followed options tr' deliveryId :=
  ⟨h.1, h.2.imp id fun ⟨i, key, h⟩ => ⟨i, key, hsub h⟩⟩

theorem Evidence.mono (h : Evidence options tr detail) (hsub : tr ⊆ tr') :
    Evidence options tr' detail := by
  unfold Evidence at h ⊢
  split at h
  · exact h
  · obtain ⟨deliveryId, replay, hfollowed, h⟩ := h
    exact ⟨deliveryId, replay, hfollowed.mono hsub, h⟩
  · obtain ⟨source, evidence, hsource, hstatus, hmem, h⟩ := h
    exact ⟨source, evidence, hsource, hstatus, hsub hmem, h⟩

end Subset

/-! ## The steps of a tour -/

open Tour

section Steps

variable {options : ReliabilityTourOptions} {runId : JsStr} {started : JsNumber} {clocked : Prop}
  {v : Vars} {tr : TourTrace} {β : Type}

/-- The event of the variables was read. -/
def Read (v : Vars) (tr : TourTrace) : Prop := ∀ detail, v.event = some detail → Fetched tr detail

/-- Where the part of a tour whose errors pause it ends. -/
def Ends (options : ReliabilityTourOptions) :
    Except Thrown ReliabilityTourResult → Vars → TourTrace → Prop
  | .ok result, _, tr => Concluded options tr result
  | .error _, v, tr => Read v tr

theorem Read.mono {tr' : TourTrace} (h : Read v tr) (hsub : tr ⊆ tr') : Read v tr' :=
  fun detail hd => (h detail hd).mono hsub

theorem sat_report {phase : ReliabilityTourPhase} {message : JsStr} {event : Option EventDetail}
    {Q : Except Thrown Unit → Vars → TourTrace → Prop}
    (hread : Read (reported phase message event v) tr)
    (hverified : phase = .verified → ∃ detail, event = some detail ∧ Evidence options tr detail)
    (h : ∀ tr', Later clocked tr tr' → Q (.ok ()) (reported phase message event v) tr') :
    ((options.tour runId started).report phase message event).Sat
      (rules options runId started clocked) Q v tr := by
  refine ⟨⟨rfl, rfl, hread, fun hp => ?_⟩, fun a _ => ?_⟩
  · obtain ⟨detail, rfl, hevidence⟩ := hverified hp
    exact ⟨detail, rfl, hevidence⟩
  · exact h _ (.single rfl rfl fun _ => le_rfl)

theorem sat_assertRunning {Q : Except Thrown Unit → Vars → TourTrace → Prop}
    (hthrow : ∀ thrown tr', Later clocked tr tr' → Q (.error thrown) v tr')
    (h : ∀ tr', Later clocked tr tr' → (clocked → Timed (options.tour runId started).deadline tr') →
      Q (.ok ()) v tr') :
    (options.tour runId started).assertRunning.Sat (rules options runId started clocked) Q v tr := by
  unfold assertRunning
  refine Imp.Sat.ask trivial fun aborted _ => ?_
  have hlater : Later clocked tr (tr ++ [⟨.aborted, aborted⟩]) := .single rfl rfl fun _ => le_rfl
  split
  · exact hthrow _ _ hlater
  refine Imp.Sat.ask trivial fun now hnow => ?_
  have hnow' : Later clocked tr (tr ++ [⟨.aborted, aborted⟩] ++ [⟨.now, now⟩]) := by
    refine hlater.trans (.single rfl rfl fun hc => ?_)
    obtain ⟨q, rfl, hq⟩ := hnow hc now rfl
    exact hq
  split
  · exact hthrow _ _ hnow'
  · rename_i hdeadline
    refine h _ hnow' fun hc => ?_
    obtain ⟨q, rfl, -⟩ := hnow hc now rfl
    exact ⟨q, clockFloor_append _ _, Bool.eq_false_iff.mpr hdeadline⟩

/-- A wait that is over has moved the clock. -/
theorem sat_wait {Q : Except Thrown Unit → Vars → TourTrace → Prop} {d : ℚ} (hd : 0 ≤ d)
    (hthrow : ∀ thrown tr', Later clocked tr tr' → Q (.error thrown) v tr')
    (h : ∀ tr', Later clocked tr tr' →
      (clocked → Timed (options.tour runId started).deadline tr' ∧
        clockFloor tr + (d : WithBot ℚ) ≤ clockFloor tr') →
      Q (.ok ()) v tr') :
    ((options.tour runId started).wait (.finite d)).Sat (rules options runId started clocked) Q v tr := by
  unfold wait
  refine Imp.Sat.bind (sat_assertRunning hthrow fun tr₁ h₁ htimed => ?_)
  refine Imp.Sat.ask (fun hc => ⟨htimed hc, d, rfl, hd⟩) fun answer _ => ?_
  cases answer with
  | error thrown => exact hthrow _ _ (h₁.trans (.single rfl rfl fun _ => le_rfl))
  | ok u =>
    have h₂ : Later clocked tr₁ (tr₁ ++ [⟨.wait (.finite d), .ok u⟩]) := by
      refine .single rfl rfl fun _ => ?_
      show clockFloor tr₁ ≤ clockFloor tr₁ + (d : WithBot ℚ)
      exact le_add_of_nonneg_right (by exact_mod_cast hd)
    have hfloor : clockFloor tr₁ + (d : WithBot ℚ) =
        clockFloor (tr₁ ++ [⟨.wait (.finite d), .ok u⟩]) :=
      (clockFloor_append tr₁ ⟨.wait (.finite d), .ok u⟩).symm
    refine Imp.Sat.lift (fun a _ => ?_) fun e he => by cases he
    refine sat_assertRunning (fun thrown tr₃ h₃ => hthrow _ _ ((h₁.trans h₂).trans h₃))
      fun tr₃ h₃ htimed => h _ ((h₁.trans h₂).trans h₃) fun hc => ⟨htimed hc, ?_⟩
    calc clockFloor tr + (d : WithBot ℚ) ≤ clockFloor tr₁ + (d : WithBot ℚ) :=
          add_le_add_left (h₁.floor hc) _
      _ = clockFloor (tr₁ ++ [⟨.wait (.finite d), .ok u⟩]) := hfloor
      _ ≤ clockFloor tr₃ := h₃.floor hc

theorem sat_pauseForPresentation {Q : Except Thrown Unit → Vars → TourTrace → Prop}
    (hfinite : options.presentationPause.isFinite = true)
    (hthrow : ∀ thrown tr', Later clocked tr tr' → Q (.error thrown) v tr')
    (h : ∀ tr', Later clocked tr tr' → Q (.ok ()) v tr') :
    (options.tour runId started).pauseForPresentation.Sat (rules options runId started clocked) Q v tr := by
  unfold pauseForPresentation
  split
  · rename_i hpos
    have hpause : (options.tour runId started).presentationPauseMs = options.presentationPause := rfl
    rw [hpause] at hpos ⊢
    generalize options.presentationPause = pause at hfinite hpos ⊢
    cases pause with
    | finite d =>
      have hd : 0 ≤ d := le_of_lt (of_decide_eq_true hpos)
      exact sat_wait hd hthrow fun tr' h' _ => h tr' h'
    | nan => cases hfinite
    | infinite b => cases hfinite
  · exact h tr (.refl tr)

/-- A poll reads the event again, and time has passed. -/
theorem sat_readEventAfterPoll {Q : Except Thrown EventDetail → Vars → TourTrace → Prop} {d : ℚ}
    (hpoll : options.pollInterval = .finite d) (hd : 0 ≤ d)
    (hthrow : ∀ thrown tr', Later clocked tr tr' → Q (.error thrown) v tr')
    (h : ∀ detail tr', Later clocked tr tr' → Fetched tr' detail →
      (clocked → Timed (options.tour runId started).deadline tr' ∧
        clockFloor tr + (d : WithBot ℚ) ≤ clockFloor tr') →
      Q (.ok detail) { v with event := some detail } tr') :
    (options.tour runId started).readEventAfterPoll.Sat (rules options runId started clocked) Q v tr := by
  have hinterval : (options.tour runId started).pollIntervalMs = .finite d := hpoll
  unfold readEventAfterPoll
  refine Imp.Sat.read ?_
  split
  · exact hthrow _ _ (.refl tr)
  · rename_i eventId _
    rw [hinterval]
    refine Imp.Sat.bind (sat_wait hd hthrow fun tr₁ h₁ hclock => ?_)
    refine Imp.Sat.ask trivial fun answer _ => ?_
    have h₂ : Later clocked tr₁ (tr₁ ++ [⟨.getEvent eventId, answer⟩]) :=
      .single rfl rfl fun _ => le_rfl
    have hfloor : clockFloor (tr₁ ++ [⟨.getEvent eventId, answer⟩]) = clockFloor tr₁ :=
      clockFloor_append tr₁ ⟨.getEvent eventId, answer⟩
    cases answer with
    | error thrown => exact hthrow _ _ (h₁.trans h₂)
    | ok detail =>
      refine h detail _ (h₁.trans h₂) ⟨eventId, by simp⟩ fun hc => ?_
      obtain ⟨htimed, hle⟩ := hclock hc
      rw [Timed, hfloor]
      exact ⟨htimed, hle⟩

/-! ## How a tour ends -/

/-- The last report and the result. -/
theorem sat_conclude {phase : ReliabilityTourPhase} {message : JsStr} {detail : EventDetail}
    (hphase : phase ∈ [.verified, .failed, .paused]) (hfetched : Fetched tr detail)
    (hverified : phase = .verified → Evidence options tr detail) :
    ((options.tour runId started).report phase message (some detail) >>= fun _ =>
      (options.tour runId started).finish).Sat (rules options runId started clocked) (Ends options)
      v tr := by
  have hread : Read (reported phase message (some detail) v) tr := by
    intro detail' h
    obtain rfl := Option.some.inj h
    exact hfetched
  refine Imp.Sat.bind (sat_report hread (fun hp => ⟨detail, rfl, hverified hp⟩) fun tr' h' => ?_)
  refine Imp.Sat.read ⟨hphase, fun detail' h => ?_, fun hp => ⟨detail, rfl, ?_⟩⟩
  · exact (hread detail' h).mono h'.subset
  · exact (hverified hp).mono h'.subset

theorem sat_fail {message : JsStr} {detail : EventDetail} (hfetched : Fetched tr detail) :
    ((options.tour runId started).fail message detail).Sat (rules options runId started clocked)
      (Ends options) v tr :=
  sat_conclude (by simp) hfetched fun h => by cases h

theorem le_finite_mono {x : JsNumber} {p q : ℚ} (hpq : p ≤ q) (h : x.le (.finite p) = true) :
    x.le (.finite q) = true := by
  cases x with
  | finite r => exact decide_eq_true ((of_decide_eq_true h).trans hpq)
  | infinite b => exact h
  | nan => cases h

/-- The deadline is ahead, and at most `fuel` polls of `d` away. -/
def Ahead (deadline : JsNumber) (tr : TourTrace) (d : ℚ) (fuel : ℕ) : Prop :=
  ∃ q : ℚ, (q : WithBot ℚ) ≤ clockFloor tr ∧ deadline.le (.finite q) = false ∧
    deadline.le (.finite (q + fuel * d)) = true

theorem Ahead.later {deadline : JsNumber} {tr' : TourTrace} {d : ℚ} {fuel : ℕ}
    (h : clocked → Ahead deadline tr d fuel) (hl : Later clocked tr tr') :
    clocked → Ahead deadline tr' d fuel := fun hc => by
  obtain ⟨q, hq, hlt, hle⟩ := h hc
  exact ⟨q, hq.trans (hl.floor hc), hlt, hle⟩

theorem Ahead.poll {deadline : JsNumber} {tr' : TourTrace} {d : ℚ} {fuel : ℕ}
    (h : Ahead deadline tr d (fuel + 1)) (htimed : Timed deadline tr')
    (hle : clockFloor tr + (d : WithBot ℚ) ≤ clockFloor tr') : Ahead deadline tr' d fuel := by
  obtain ⟨q, hq, -, hfuel⟩ := h
  obtain ⟨q', hq', hlt⟩ := htimed
  have hsum : (q : WithBot ℚ) + (d : WithBot ℚ) ≤ (q' : WithBot ℚ) :=
    (add_le_add_left hq _).trans (hle.trans_eq hq')
  have hsum' : q + d ≤ q' := by exact_mod_cast hsum
  refine ⟨q', hq'.ge, hlt, le_finite_mono ?_ hfuel⟩
  push_cast
  linarith

theorem Ahead.not_zero {deadline : JsNumber} {d : ℚ} : ¬Ahead deadline tr d 0 := by
  rintro ⟨q, -, hlt, hle⟩
  rw [Nat.cast_zero, zero_mul, add_zero, hlt] at hle
  cases hle

/-! ## Counting the polls -/

/-- A wait of this length that was not interrupted. -/
def waited (duration : JsNumber) : Turn Call.Answer → Bool
  | ⟨.wait d, .ok _⟩ => d = duration
  | _ => false

/-- The polls of a tour: every poll waits for the poll interval. -/
def polls (options : ReliabilityTourOptions) (tr : TourTrace) : ℕ :=
  tr.countP (waited options.pollInterval)

theorem waited_iff {duration : JsNumber} {e : Turn Call.Answer} :
    waited duration e = true ↔ ∃ u, e = ⟨.wait duration, .ok u⟩ := by
  refine ⟨fun h => ?_, ?_⟩
  · obtain ⟨c, a⟩ := e
    cases c with
    | wait d =>
      cases a with
      | ok u =>
        obtain rfl : d = duration := of_decide_eq_true h
        exact ⟨u, rfl⟩
      | error thrown => cases h
    | _ => cases h
  · rintro ⟨u, rfl⟩
    exact decide_eq_true rfl

/-- An advancing clock does not go back between the calls of a tour. -/
theorem floor_le_tick {e : Turn Call.Answer} (hadvances : Advances tr e)
    (hmay : Permitted options runId started True tr e.1) :
    clockFloor tr ≤ tick (clockFloor tr) e := by
  obtain ⟨c, a⟩ := e
  cases c with
  | now =>
    obtain ⟨q, rfl, hq⟩ := hadvances a rfl
    exact hq
  | wait duration =>
    obtain ⟨-, d, rfl, hd⟩ := hmay trivial
    cases a with
    | ok u =>
      show clockFloor tr ≤ clockFloor tr + (d : WithBot ℚ)
      exact le_add_of_nonneg_right (by exact_mod_cast hd)
    | error thrown => exact le_rfl
  | _ => exact le_rfl

/-- Every poll takes its interval from the time that is left. -/
theorem polls_le {d : ℚ} (hpoll : options.pollInterval = .finite d) {es : TourTrace}
    (hadvances : Along Advances tr es)
    (hmay : Along (fun tr e => Permitted options runId started True tr e.1) tr es) {q : ℚ} {n : ℕ}
    (hfloor : (q : WithBot ℚ) ≤ clockFloor tr)
    (hdeadline : (options.tour runId started).deadline.le (.finite (q + n * d)) = true) :
    polls options es ≤ n := by
  induction es generalizing tr q n with
  | nil => exact Nat.zero_le n
  | cons e es ih =>
    obtain ⟨he, hes⟩ := hadvances
    obtain ⟨hmay, hmays⟩ := hmay
    rw [polls, List.countP_cons]
    by_cases hwaited : waited options.pollInterval e = true
    · rw [if_pos hwaited]
      obtain ⟨u, rfl⟩ := waited_iff.mp hwaited
      obtain ⟨⟨q', hq', hlt⟩, -⟩ := hmay trivial
      have hle : q ≤ q' := WithBot.coe_le_coe.mp (hfloor.trans_eq hq')
      have hfloor' : ((q + d : ℚ) : WithBot ℚ) ≤
          clockFloor (tr ++ [⟨.wait options.pollInterval, .ok u⟩]) := by
        rw [clockFloor_append, hpoll, WithBot.coe_add]
        exact add_le_add_left hfloor _
      -- A wait begins before the deadline, so an interval is left for it.
      cases n with
      | zero =>
        rw [Nat.cast_zero, zero_mul, add_zero] at hdeadline
        rw [le_finite_mono hle hdeadline] at hlt
        cases hlt
      | succ n =>
        refine Nat.succ_le_succ (ih hes hmays hfloor' ?_)
        rwa [add_assoc, ← one_add_mul, add_comm 1, ← Nat.cast_add_one]
    · rw [if_neg hwaited, Nat.add_zero]
      refine ih hes hmays ?_ hdeadline
      rw [clockFloor_append]
      exact hfloor.trans (floor_le_tick he hmay)

/-! ## The original delivery -/

section Loops

variable {d : ℚ} {event : EventDetail} {source : Delivery}

theorem Read.some (hfetched : Fetched tr event) (hv : v.event = some event) : Read v tr := by
  intro detail h
  rw [hv] at h
  obtain rfl := Option.some.inj h
  exact hfetched

theorem sat_settle (hv : v.event = some event) (hfetched : Fetched tr event)
    (hsource : sourceDelivery event = some source) :
    ((options.tour runId started).settle event source).Sat (rules options runId started clocked)
      (Ends options) v tr := by
  have hscenario : (options.tour runId started).selectedScenario = options.scenario := rfl
  unfold settle
  rw [hscenario]
  split
  · rename_i h
    refine sat_conclude (by simp) hfetched fun _ => ?_
    unfold Evidence
    rw [h.1]
    exact ⟨source, hsource, h.2⟩
  split
  · rename_i h
    refine Imp.Sat.ask trivial fun answer _ => ?_
    have hlater : Later clocked tr (tr ++ [⟨.getDeliveryAttempts source.id, answer⟩]) :=
      .single rfl rfl fun _ => le_rfl
    refine Imp.Sat.lift (fun evidence heq => ?_) fun e _ =>
      (Read.some hfetched hv).mono hlater.subset
    subst heq
    split
    · rename_i hrejection
      refine sat_conclude (by simp) (hfetched.mono hlater.subset) fun _ => ?_
      unfold Evidence
      rw [h.1]
      exact ⟨source, evidence, hsource, h.2, by simp, hrejection⟩
    · exact sat_fail (hfetched.mono hlater.subset)
  · exact sat_fail hfetched

theorem sat_awaitOutcome (hpoll : options.pollInterval = .finite d) (hd : 0 ≤ d) (fuel : ℕ) :
    ∀ {event source v tr}, v.event = some event → Fetched tr event →
      sourceDelivery event = some source →
      (clocked → Ahead (options.tour runId started).deadline tr d fuel) →
      ((options.tour runId started).awaitOutcome fuel event source).Sat
        (rules options runId started clocked) (Ends options) v tr := by
  induction fuel with
  | zero => exact fun _ _ _ hahead hc => Ahead.not_zero (hahead hc)
  | succ fuel ih =>
    intro event source v tr hv hfetched hsource hahead
    unfold awaitOutcome
    split
    · refine Imp.Sat.bind (sat_report (fun detail h => ?_) (fun h => by cases h) fun tr₁ h₁ => ?_)
      · obtain rfl := Option.some.inj h
        exact hfetched
      have hfetched₁ := hfetched.mono h₁.subset
      refine Imp.Sat.bind (sat_readEventAfterPoll hpoll hd (fun thrown tr' h' => ?_)
        fun event' tr₂ h₂ hfetched₂ hclock => ?_)
      · exact Read.some (hfetched₁.mono h'.subset) rfl
      dsimp only [Imp.Next]
      cases hsource' : sourceDelivery event' with
      | none => exact sat_fail hfetched₂
      | some source' =>
        refine Imp.Sat.modify (ih rfl hfetched₂ hsource' fun hc => ?_)
        obtain ⟨htimed, hle⟩ := hclock hc
        exact (Ahead.later hahead h₁ hc).poll htimed hle
    · exact sat_settle hv hfetched hsource

/-! ## The recovery replay -/

theorem sat_repair {Q : Except Thrown Unit → Vars → TourTrace → Prop}
    (hstrategy : options.scenario.strategy = .replay)
    (hthrow : ∀ thrown tr', Later clocked tr tr' → Q (.error thrown) v tr')
    (h : ∀ tr', Later clocked tr tr' → Healthy runId tr' → Q (.ok ()) v tr') :
    (options.tour runId started).repair.Sat (rules options runId started clocked) Q v tr := by
  unfold repair
  refine Imp.Sat.ask trivial fun answer _ => ?_
  have h₁ : Later clocked tr
      (tr ++ [⟨.getReceiverLab (options.tour runId started).runId, answer⟩]) :=
    .single rfl rfl fun _ => le_rfl
  refine Imp.Sat.lift (fun receiver heq => ?_) fun thrown _ => hthrow _ _ h₁
  subst heq
  split
  · refine Imp.Sat.ask ⟨rfl, .inl ⟨rfl, hstrategy⟩⟩ fun answer' _ => ?_
    refine Imp.Sat.lift (fun restored heq' => ?_) fun thrown _ =>
      hthrow _ _ (h₁.trans (.single rfl rfl fun _ => le_rfl))
    subst heq'
    split
    · exact hthrow _ _ (h₁.trans (.single rfl rfl fun _ => le_rfl))
    · rename_i hrestored
      exact h _ (h₁.trans (.single rfl rfl fun _ => le_rfl))
        ⟨restored, not_not.mp hrestored, .inr (List.mem_append_right _ (List.mem_singleton_self _))⟩
  · rename_i hsuccess
    exact h _ h₁ ⟨receiver, not_not.mp hsuccess,
      .inl (List.mem_append_right _ (List.mem_singleton_self _))⟩

/-- A poll that reports the replay and goes on. -/
theorem sat_followReplay (hpoll : options.pollInterval = .finite d) (hd : 0 ≤ d) {fuel : ℕ}
    {message : JsStr} {f : EventDetail → Script ReliabilityTourResult}
    (hfetched : Fetched tr event)
    (hahead : clocked → Ahead (options.tour runId started).deadline tr d (fuel + 1))
    (h : ∀ detail v' tr', Later clocked tr tr' → v'.event = some detail → Fetched tr' detail →
      (clocked → Ahead (options.tour runId started).deadline tr' d fuel) →
      (f detail).Sat (rules options runId started clocked) (Ends options) v' tr') :
    ((options.tour runId started).report .replaying message (some event) >>= fun _ =>
      (options.tour runId started).readEventAfterPoll >>= f).Sat (rules options runId started clocked)
      (Ends options) v tr := by
  refine Imp.Sat.bind (sat_report (fun detail h => ?_) (fun h => by cases h) fun tr₁ h₁ => ?_)
  · obtain rfl := Option.some.inj h
    exact hfetched
  have hfetched₁ := hfetched.mono h₁.subset
  refine Imp.Sat.bind (sat_readEventAfterPoll hpoll hd (fun thrown tr' h' => ?_)
    fun event' tr₂ h₂ hfetched₂ hclock => ?_)
  · exact Read.some (hfetched₁.mono h'.subset) rfl
  refine h event' _ tr₂ (h₁.trans h₂) rfl hfetched₂ fun hc => ?_
  obtain ⟨htimed, hle⟩ := hclock hc
  exact (Ahead.later hahead h₁ hc).poll htimed hle

theorem sat_awaitReplay (hpoll : options.pollInterval = .finite d) (hd : 0 ≤ d)
    (hstrategy : options.scenario.strategy = .replay) {deliveryId : JsStr} (fuel : ℕ) :
    ∀ {event v tr}, v.event = some event → Fetched tr event → Followed options tr deliveryId →
      (clocked → Ahead (options.tour runId started).deadline tr d fuel) →
      ((options.tour runId started).awaitReplay deliveryId fuel event).Sat
        (rules options runId started clocked) (Ends options) v tr := by
  induction fuel with
  | zero => exact fun _ _ _ hahead hc => Ahead.not_zero (hahead hc)
  | succ fuel ih =>
    intro event v tr hv hfetched hfollowed hahead
    have hfollow (message : JsStr) := @sat_followReplay options runId started clocked v tr d event
      hpoll hd fuel message _ hfetched hahead fun detail v' tr' hl hv' hf' ha' =>
        ih hv' hf' (hfollowed.mono hl.subset) ha'
    unfold awaitReplay
    dsimp only
    cases hreplay : replayDelivery event deliveryId with
    | none =>
      dsimp only
      split
      · exact sat_fail hfetched
      · exact hfollow _
    | some replay =>
      dsimp only
      split
      · rename_i hdelivered
        refine sat_conclude (by simp) hfetched fun _ => ?_
        unfold Evidence
        rw [hstrategy]
        exact ⟨deliveryId, replay, hfollowed, hreplay, hdelivered⟩
      split
      · exact sat_fail hfetched
      · exact hfollow _

theorem given_eq_some {id : Option JsStr} {i : JsStr} :
    given id = some i ↔ id = some i ∧ i ≠ [] := by
  rw [given, Option.filter_eq_some_iff, decide_eq_true_eq]

/-- The stopped delivery is replayed, unless a replay was accepted by name before. -/
theorem sat_authorize (hpoll : options.pollInterval = .finite d) (hd : 0 ≤ d)
    (hpause : options.presentationPause.isFinite = true)
    (hstrategy : options.scenario.strategy = .replay)
    (hgiven : given options.replayDeliveryId = none) {fuel : ℕ}
    (hfetched : Fetched tr event) (hsource : sourceDelivery event = some source)
    (hdead : source.status = .deadLettered) (hunnamed : Unnamed tr)
    (hahead : clocked → Ahead (options.tour runId started).deadline tr d fuel) :
    ((options.tour runId started).authorize fuel event source).Sat
      (rules options runId started clocked) (Ends options) v tr := by
  have hreport : ∀ {phase : ReliabilityTourPhase} {message : JsStr} {v : Vars} {tr' : TourTrace},
      Later clocked tr tr' → Read (reported phase message (some event) v) tr' := by
    intro phase message v tr' hl detail h
    obtain rfl := Option.some.inj h
    exact hfetched.mono hl.subset
  unfold authorize
  refine Imp.Sat.bind (sat_report (hreport (.refl tr)) (fun h => by cases h) fun tr₁ h₁ => ?_)
  refine Imp.Sat.bind (sat_pauseForPresentation hpause
    (fun thrown tr' h' => hreport (h₁.trans h')) fun tr₂ h₂ => ?_)
  refine Imp.Sat.bind (sat_repair hstrategy (fun thrown tr' h' => hreport ((h₁.trans h₂).trans h'))
    fun tr₃ h₃ hhealthy => ?_)
  have hl₃ := (h₁.trans h₂).trans h₃
  refine Imp.Sat.bind (sat_report (hreport hl₃) (fun h => by cases h) fun tr₄ h₄ => ?_)
  refine Imp.Sat.bind (sat_pauseForPresentation hpause
    (fun thrown tr' h' => hreport ((hl₃.trans h₄).trans h')) fun tr₅ h₅ => ?_)
  have hl₅ := (hl₃.trans h₄).trans h₅
  refine Imp.Sat.bind (sat_report (hreport hl₅) (fun h => by cases h) fun tr₆ h₆ => ?_)
  have hl₆ := hl₅.trans h₆
  refine Imp.Sat.ask ⟨hstrategy, hgiven, rfl, hl₆.unnamed hunnamed, event, source,
    hfetched.mono hl₆.subset, hsource, rfl,
    .inl ⟨hdead, hhealthy.mono ((h₄.trans h₅).trans h₆).subset⟩⟩ fun answer _ => ?_
  -- The request is not among the calls in between.
  have hsub : tr₆ ⊆ tr₆ ++ [⟨.replayDelivery source.id
      (options.tour runId started).replayIdempotencyKey, answer⟩] := List.subset_append_left _ _
  refine Imp.Sat.lift (fun replay heq => ?_) fun thrown _ => (hreport hl₆).mono hsub
  subst heq
  refine Imp.Sat.modify (Imp.Sat.ask trivial fun answer' _ => ?_)
  refine Imp.Sat.lift (fun event' heq' => ?_) fun thrown _ => ?_
  · subst heq'
    refine Imp.Sat.modify ?_
    have hfetched' : Fetched (tr₆ ++ [⟨.replayDelivery source.id
        (options.tour runId started).replayIdempotencyKey, .ok replay⟩] ++
        [⟨.getEvent event.id, .ok event'⟩]) event' := ⟨event.id, by simp⟩
    split
    · exact Read.some hfetched' rfl
    · rename_i replayDeliveryId hname
      obtain ⟨hname, hne⟩ := given_eq_some.mp hname
      obtain rfl := Option.some.inj hname
      refine sat_awaitReplay hpoll hd hstrategy fuel rfl hfetched'
        ⟨hne, .inr ⟨source.id, (options.tour runId started).replayIdempotencyKey,
          List.mem_append_left _ (List.mem_append_right _ (List.mem_singleton_self _))⟩⟩ fun hc => ?_
      obtain ⟨q, hq, hlt, hle⟩ := Ahead.later hahead hl₆ hc
      refine ⟨q, ?_, hlt, hle⟩
      rw [clockFloor_append, clockFloor_append]
      exact hq
  · refine Read.some ((hfetched.mono hl₆.subset).mono ?_) rfl
    exact List.Subset.trans hsub (List.subset_append_left _ _)

theorem sat_awaitContainment (hpoll : options.pollInterval = .finite d) (hd : 0 ≤ d)
    (hpause : options.presentationPause.isFinite = true)
    (hstrategy : options.scenario.strategy = .replay)
    (hgiven : given options.replayDeliveryId = none) {replayFuel : ℕ} (fuel : ℕ) :
    ∀ {event source v tr}, v.event = some event → Fetched tr event →
      sourceDelivery event = some source → Unnamed tr →
      (clocked → Ahead (options.tour runId started).deadline tr d fuel) →
      (clocked → Ahead (options.tour runId started).deadline tr d replayFuel) →
      ((options.tour runId started).awaitContainment replayFuel fuel event source).Sat
        (rules options runId started clocked) (Ends options) v tr := by
  induction fuel with
  | zero => exact fun _ _ _ _ hahead _ hc => Ahead.not_zero (hahead hc)
  | succ fuel ih =>
    intro event source v tr hv hfetched hsource hunnamed hahead hreplay
    unfold awaitContainment
    split
    · split
      · exact sat_fail hfetched
      split
      · exact sat_fail hfetched
      refine Imp.Sat.bind (sat_report (fun detail h => ?_) (fun h => by cases h) fun tr₁ h₁ => ?_)
      · obtain rfl := Option.some.inj h
        exact hfetched
      have hfetched₁ := hfetched.mono h₁.subset
      refine Imp.Sat.bind (sat_readEventAfterPoll hpoll hd (fun thrown tr' h' => ?_)
        fun event' tr₂ h₂ hfetched₂ hclock => ?_)
      · exact Read.some (hfetched₁.mono h'.subset) rfl
      have hl := h₁.trans h₂
      dsimp only [Imp.Next]
      cases hsource' : sourceDelivery event' with
      | none => exact sat_fail hfetched₂
      | some source' =>
        refine Imp.Sat.modify (ih rfl hfetched₂ hsource' (hl.unnamed hunnamed) (fun hc => ?_)
          (Ahead.later hreplay hl))
        obtain ⟨htimed, hle⟩ := hclock hc
        exact (Ahead.later hahead h₁ hc).poll htimed hle
    · rename_i hdead
      exact sat_authorize hpoll hd hpause hstrategy hgiven hfetched hsource (not_not.mp hdead)
        hunnamed hreplay

theorem sat_resumeReplay (hpoll : options.pollInterval = .finite d) (hd : 0 ≤ d)
    (hstrategy : options.scenario.strategy = .replay) {deliveryId : JsStr} {fuel : ℕ}
    (hv : v.event = some event) (hfetched : Fetched tr event)
    (hfollowed : Followed options tr deliveryId)
    (hahead : clocked → Ahead (options.tour runId started).deadline tr d fuel) :
    ((options.tour runId started).resumeReplay fuel deliveryId event source).Sat
      (rules options runId started clocked) (Ends options) v tr := by
  unfold resumeReplay
  split
  · exact sat_fail hfetched
  split
  · exact sat_fail hfetched
  split
  · refine Imp.Sat.bind (sat_repair hstrategy (fun thrown tr₁ h₁ => ?_) fun tr₁ h₁ _ => ?_)
    · exact Read.some (hfetched.mono h₁.subset) hv
    have hfetched₁ := hfetched.mono h₁.subset
    refine Imp.Sat.bind (sat_report (fun detail h => ?_) (fun h => by cases h) fun tr₂ h₂ => ?_)
    · obtain rfl := Option.some.inj h
      exact hfetched₁
    have hl₂ := h₁.trans h₂
    exact sat_awaitReplay hpoll hd hstrategy fuel rfl (hfetched₁.mono h₂.subset)
      (hfollowed.mono hl₂.subset) (Ahead.later hahead hl₂)
  · exact sat_awaitReplay hpoll hd hstrategy fuel hv hfetched hfollowed hahead

/-- A replay that is known by name is followed. -/
theorem sat_continueReplay (hpoll : options.pollInterval = .finite d) (hd : 0 ≤ d)
    (hstrategy : options.scenario.strategy = .replay) {deliveryId : JsStr} {fuel : ℕ}
    (hv : v.event = some event) (hfetched : Fetched tr event)
    (hfollowed : Followed options tr deliveryId)
    (hahead : clocked → Ahead (options.tour runId started).deadline tr d fuel) :
    ((options.tour runId started).continueReplay fuel deliveryId event source).Sat
      (rules options runId started clocked) (Ends options) v tr := by
  unfold continueReplay
  refine Imp.Sat.bind ?_
  unfold readReplay
  split
  · exact sat_resumeReplay hpoll hd hstrategy hv hfetched hfollowed hahead
  · refine Imp.Sat.ask trivial fun answer _ => ?_
    have hl : Later clocked tr (tr ++ [⟨.getEvent event.id, answer⟩]) :=
      .single rfl rfl fun _ => le_rfl
    refine Imp.Sat.lift (fun fresh heq => ?_) fun thrown _ =>
      (Read.some hfetched hv).mono hl.subset
    subst heq
    exact sat_resumeReplay hpoll hd hstrategy rfl ⟨event.id, by simp⟩ (hfollowed.mono hl.subset)
      (Ahead.later hahead hl)

theorem sat_replayOrContinue (hpoll : options.pollInterval = .finite d) (hd : 0 ≤ d)
    (hpause : options.presentationPause.isFinite = true)
    (hstrategy : options.scenario.strategy = .replay) {fuel : ℕ} (hv : v.event = some event)
    (hfetched : Fetched tr event) (hsource : sourceDelivery event = some source)
    (hnone : given v.replayDeliveryId = none → Unnamed tr ∧ given options.replayDeliveryId = none)
    (hsome : ∀ deliveryId, given v.replayDeliveryId = some deliveryId →
      Followed options tr deliveryId)
    (hahead : clocked → Ahead (options.tour runId started).deadline tr d fuel) :
    ((options.tour runId started).replayOrContinue fuel event source).Sat
      (rules options runId started clocked) (Ends options) v tr := by
  unfold replayOrContinue
  refine Imp.Sat.read ?_
  cases hname : given v.replayDeliveryId with
  | none =>
    obtain ⟨hunnamed, hgiven⟩ := hnone hname
    exact sat_awaitContainment hpoll hd hpause hstrategy hgiven fuel hv hfetched hsource hunnamed
      hahead hahead
  | some deliveryId =>
    exact sat_continueReplay hpoll hd hstrategy hv hfetched (hsome deliveryId hname) hahead

theorem sat_recover (hpoll : options.pollInterval = .finite d) (hd : 0 ≤ d)
    (hpause : options.presentationPause.isFinite = true)
    (hstrategy : options.scenario.strategy = .replay) {fuel : ℕ} (hv : v.event = some event)
    (hreplay : v.replayDeliveryId = options.replayDeliveryId) (hfetched : Fetched tr event)
    (hsource : sourceDelivery event = some source) (hun : ∀ e ∈ tr, e.1.isReplay = false)
    (hahead : clocked → Ahead (options.tour runId started).deadline tr d fuel) :
    ((options.tour runId started).recover fuel event source).Sat
      (rules options runId started clocked) (Ends options) v tr := by
  unfold recover
  refine Imp.Sat.bind ?_
  unfold recoverAcceptance
  refine Imp.Sat.read ?_
  split
  · rename_i hcond
    rw [hreplay] at hcond
    refine Imp.Sat.ask ⟨hstrategy, hcond.2, rfl, unnamed_of_unreplayed hun, event, source, hfetched,
      hsource, rfl, .inr hcond.1⟩ fun answer _ => ?_
    have hsub : tr ⊆ tr ++ [⟨.replayDelivery source.id
        (options.tour runId started).replayIdempotencyKey, answer⟩] := List.subset_append_left _ _
    refine Imp.Sat.lift (fun recovered heq => ?_) fun thrown _ => (Read.some hfetched hv).mono hsub
    subst heq
    refine sat_replayOrContinue (v := { v with replayDeliveryId := some recovered.deliveryId })
      hpoll hd hpause hstrategy hv (hfetched.mono hsub) hsource (fun hname => ?_)
      (fun deliveryId hname => ?_) fun hc => ?_
    · -- Only an acceptance without a name leads to another request.
      obtain ⟨deliveryId⟩ := recovered
      have hempty : deliveryId = [] := by
        by_contra hne
        rw [given_eq_some.mpr ⟨rfl, hne⟩] at hname
        cases hname
      subst hempty
      exact ⟨unnamed_append hun _ _, hcond.2⟩
    · obtain ⟨hname, hne⟩ := given_eq_some.mp hname
      obtain rfl := Option.some.inj hname
      exact ⟨hne, .inr ⟨source.id, (options.tour runId started).replayIdempotencyKey,
        List.mem_append_right _ (List.mem_singleton_self _)⟩⟩
    · obtain ⟨q, hq, hlt, hle⟩ := hahead hc
      exact ⟨q, by rw [clockFloor_append]; exact hq, hlt, hle⟩
  · refine sat_replayOrContinue (v := v) hpoll hd hpause hstrategy hv hfetched hsource
      (fun hname => ⟨unnamed_of_unreplayed hun, hreplay ▸ hname⟩) (fun deliveryId hname => ?_) hahead
    obtain ⟨hname, hne⟩ := given_eq_some.mp hname
    exact ⟨hne, .inl (hreplay.symm.trans hname)⟩

/-! ## The whole tour -/

theorem sat_follow (hpoll : options.pollInterval = .finite d) (hd : 0 ≤ d)
    (hpause : options.presentationPause.isFinite = true) {fuel : ℕ}
    (hreplay : v.replayDeliveryId = options.replayDeliveryId) (hfetched : Fetched tr event)
    (hun : ∀ e ∈ tr, e.1.isReplay = false)
    (hahead : clocked → Ahead (options.tour runId started).deadline tr d fuel) :
    ((options.tour runId started).follow fuel event).Sat (rules options runId started clocked)
      (Ends options) v tr := by
  have hscenario : (options.tour runId started).selectedScenario = options.scenario := rfl
  unfold follow
  dsimp only
  split
  · exact sat_fail hfetched
  refine Imp.Sat.bind (sat_report (fun detail h => ?_) (fun h => by cases h) fun tr₁ h₁ => ?_)
  · obtain rfl := Option.some.inj h
    exact hfetched
  have hfetched₁ := hfetched.mono h₁.subset
  refine Imp.Sat.bind (sat_pauseForPresentation hpause (fun thrown tr' h' => ?_) fun tr₂ h₂ => ?_)
  · exact Read.some (hfetched₁.mono h'.subset) rfl
  have hl := h₁.trans h₂
  have hfetched₂ := hfetched.mono hl.subset
  dsimp only [Imp.Next]
  cases hsource : sourceDelivery event with
  | none => exact sat_fail hfetched₂
  | some source =>
    refine Imp.Sat.modify ?_
    split
    · exact sat_fail hfetched₂
    split
    · split
      · exact sat_fail hfetched₂
      · exact sat_awaitOutcome hpoll hd fuel rfl hfetched₂ hsource (Ahead.later hahead hl)
    · rename_i hstrategy
      rw [not_not, hscenario] at hstrategy
      exact sat_recover hpoll hd hpause hstrategy rfl hreplay hfetched₂ hsource (hl.unreplayed hun)
        (Ahead.later hahead hl)

/-- The event of a tour that was just accepted or resumed is in the variables. -/
def Loaded (options : ReliabilityTourOptions) (clocked : Prop) (tr : TourTrace) :
    Except Thrown Unit → Vars → TourTrace → Prop
  | .ok _, v, tr' => ∃ event, v.event = some event ∧ Fetched tr' event ∧
      v.replayDeliveryId = options.replayDeliveryId ∧ (∀ e ∈ tr', e.1.isReplay = false) ∧
      (clocked → clockFloor tr ≤ clockFloor tr')
  | .error _, v, tr' => Read v tr'

theorem sat_resume (eventId : JsStr) (hv : Read v tr)
    (hreplay : v.replayDeliveryId = options.replayDeliveryId)
    (hun : ∀ e ∈ tr, e.1.isReplay = false) :
    (resume eventId).Sat (rules options runId started clocked) (Loaded options clocked tr) v tr := by
  unfold resume
  refine Imp.Sat.ask trivial fun answer _ => ?_
  have hl : Later clocked tr (tr ++ [⟨.getEvent eventId, answer⟩]) :=
    .single rfl rfl fun _ => le_rfl
  refine Imp.Sat.lift (fun event heq => ?_) fun thrown _ => hv.mono hl.subset
  subst heq
  exact ⟨event, rfl, ⟨eventId, by simp⟩, hreplay, hl.unreplayed hun, hl.floor⟩

theorem sat_prepare (hv : v.event = none) (hreplay : v.replayDeliveryId = options.replayDeliveryId)
    (hgiven : given options.eventId = none) (hun : ∀ e ∈ tr, e.1.isReplay = false)
    (hpub : ∀ e ∈ tr, e.1.isPublish = false) :
    (options.tour runId started).prepare.Sat (rules options runId started clocked)
      (Loaded options clocked tr) v tr := by
  have hread (tr' : TourTrace) : Read v tr' := fun detail h => by
    rw [hv] at h
    cases h
  unfold prepare
  refine Imp.Sat.bind (sat_report (fun detail h => ?_) (fun h => by cases h) fun tr₁ h₁ => ?_)
  · exact hread tr detail h
  refine Imp.Sat.ask ⟨rfl, .inr ⟨rfl, hgiven, h₁.unpublished hpub⟩⟩ fun answer _ => ?_
  have h₂ := h₁.trans (.single (e := ⟨.setReceiverLabPreset
    (options.tour runId started).selectedScenario.preset (options.tour runId started).runId, answer⟩)
    rfl rfl fun _ => le_rfl)
  refine Imp.Sat.lift (fun configured _ => ?_) fun thrown _ => hread _
  split
  · exact hread _
  refine Imp.Sat.ask trivial fun answer' _ => ?_
  have h₃ := h₂.trans (.single (e := ⟨.ensureReceiverLabEndpoint
    ((options.tour runId started).payload.map (·.type)), answer'⟩) rfl rfl fun _ => le_rfl)
  refine Imp.Sat.lift (fun endpoint _ => ?_) fun thrown _ => hread _
  refine Imp.Sat.modify (Imp.Sat.ask ⟨hgiven, rfl, rfl, rfl, rfl, h₃.unpublished hpub⟩
    fun answer₂ _ => ?_)
  refine Imp.Sat.lift (fun accepted heq => ?_) fun thrown _ => hread _
  refine Imp.Sat.modify (Imp.Sat.ask trivial fun answer₃ _ => ?_)
  refine Imp.Sat.lift (fun event heq' => ?_) fun thrown _ => hread _
  subst heq'
  refine ⟨event, rfl, ⟨accepted.eventId, by simp⟩, hreplay, ?_, fun hc => ?_⟩
  · intro e he
    rcases List.mem_append.mp he with he | he
    · rcases List.mem_append.mp he with he | he
      · exact h₃.unreplayed hun e he
      · obtain rfl := List.mem_singleton.mp he
        rfl
    · obtain rfl := List.mem_singleton.mp he
      rfl
  · rw [clockFloor_append, clockFloor_append]
    exact h₃.floor hc

theorem sat_body (hpoll : options.pollInterval = .finite d) (hd : 0 ≤ d)
    (hpause : options.presentationPause.isFinite = true) {fuel : ℕ} (hv : v.event = none)
    (hid : v.eventId = options.eventId) (hreplay : v.replayDeliveryId = options.replayDeliveryId)
    (hun : ∀ e ∈ tr, e.1.isReplay = false) (hpub : ∀ e ∈ tr, e.1.isPublish = false)
    (hfuel : clocked → ∃ q : ℚ, (q : WithBot ℚ) ≤ clockFloor tr ∧
      (options.tour runId started).deadline.le (.finite (q + fuel * d)) = true) :
    ((options.tour runId started).body fuel).Sat (rules options runId started clocked) (Ends options)
      v tr := by
  have hread : ∀ {tr'}, Read v tr' := fun {tr'} detail h => by
    rw [hv] at h
    cases h
  unfold body
  refine Imp.Sat.bind (sat_assertRunning (fun thrown tr' _ => hread) fun tr₁ h₁ htimed => ?_)
  have hahead : clocked → Ahead (options.tour runId started).deadline tr₁ d fuel := fun hc => by
    obtain ⟨q, hq, hle⟩ := hfuel hc
    obtain ⟨q', hq', hlt⟩ := htimed hc
    have hqq : q ≤ q' := WithBot.coe_le_coe.mp ((hq.trans (h₁.floor hc)).trans_eq hq')
    exact ⟨q', hq'.ge, hlt, le_finite_mono (by linarith) hle⟩
  have hload : (options.tour runId started).load.Sat (rules options runId started clocked)
      (Loaded options clocked tr₁) v tr₁ := by
    unfold load
    refine Imp.Sat.read ?_
    cases hgiven : given v.eventId with
    | none => exact sat_prepare hv hreplay (hid ▸ hgiven) (h₁.unreplayed hun) (h₁.unpublished hpub)
    | some eventId => exact sat_resume eventId hread hreplay (h₁.unreplayed hun)
  refine Imp.Sat.bind (hload.mono fun r v' tr' hloaded => ?_)
  cases r with
  | error thrown => exact hloaded
  | ok u =>
    obtain ⟨event, hv', hfetched, hreplay', hun', hfloor⟩ := hloaded
    refine Imp.Sat.read ?_
    rw [hv']
    refine sat_follow hpoll hd hpause hreplay' hfetched hun' fun hc => ?_
    obtain ⟨q, hq, hlt, hle⟩ := hahead hc
    exact ⟨q, hq.trans (hfloor hc), hlt, hle⟩

/-- A tour that has begun does not throw. -/
def Resolves (options : ReliabilityTourOptions) (r : Except Thrown ReliabilityTourResult)
    (tr : TourTrace) : Prop :=
  ∃ result, r = .ok result ∧ Concluded options tr result

theorem sat_pause {thrown : Thrown} (hread : Read v tr) :
    ((options.tour runId started).pause thrown).Sat (rules options runId started clocked)
      (fun r _ => Resolves options r) v tr := by
  have hevent : (reported .paused (messageFrom thrown) v.event v).event = v.event :=
    Option.or_self
  have hread' : Read (reported .paused (messageFrom thrown) v.event v) tr := fun detail h =>
    hread detail (hevent.symm.trans h)
  unfold pause
  refine Imp.Sat.read (Imp.Sat.bind (sat_report hread' (fun h => by cases h) fun tr' h' => ?_))
  have hend : Concluded options tr' ((options.tour runId started).result
      (reported .paused (messageFrom thrown) v.event v)) :=
    ⟨by simp [Tour.result, Tour.progress, reported], (hread'.mono h'.subset), fun h => by cases h⟩
  have hresolves : Resolves options (.ok _) tr' := ⟨_, rfl, hend⟩
  exact hresolves

theorem sat_run (hpoll : options.pollInterval = .finite d) (hd : 0 ≤ d)
    (hpause : options.presentationPause.isFinite = true) {fuel : ℕ}
    (hun : ∀ e ∈ tr, e.1.isReplay = false) (hpub : ∀ e ∈ tr, e.1.isPublish = false)
    (hfuel : clocked → ∃ q : ℚ, (q : WithBot ℚ) ≤ clockFloor tr ∧
      (options.tour runId started).deadline.le (.finite (q + fuel * d)) = true) :
    ((options.tour runId started).run fuel).Sat (rules options runId started clocked)
      (fun r _ => Resolves options r) options.vars tr := by
  unfold run
  refine Imp.Sat.bind (sat_report (fun detail h => by cases h) (fun h => by cases h)
    fun tr₁ h₁ => ?_)
  have hbody := sat_body (v := reported .idle (js "Ready to run the reliability tour.") none
    options.vars) hpoll hd hpause rfl rfl rfl (h₁.unreplayed hun) (h₁.unpublished hpub) fun hc => by
      obtain ⟨q, hq, hle⟩ := hfuel hc
      exact ⟨q, hq.trans (h₁.floor hc), hle⟩
  show Imp.Sat _ (fun r _ => Resolves options r) (((options.tour runId started).body fuel).tryCatch
    (options.tour runId started).pause) _ tr₁
  refine Imp.Sat.tryCatch (hbody.mono fun r v' tr' hends => ?_)
  cases r with
  | ok result => exact ⟨result, rfl, hends⟩
  | error thrown => exact sat_pause hends

end Loops

end Steps

/-- The checks of the durations pass. -/
def ReliabilityTourOptions.timely (options : ReliabilityTourOptions) : Bool :=
  durationValid options.pollInterval false && durationValid options.presentationPause true &&
    durationValid options.timeout false

/-- The calls before the clock is read. -/
def ReliabilityTourOptions.opening (options : ReliabilityTourOptions) (created : JsStr) :
    TourTrace :=
  if options.runId = none then [⟨.createRunId, created⟩] else []

/-- The run id of a tour, where `created` is what `createRunId` answers. -/
def ReliabilityTourOptions.stableRunId (options : ReliabilityTourOptions) (created : JsStr) :
    Option JsStr :=
  options.runId.or (if options.createsRunId then some created else none)

section Start

variable {options : ReliabilityTourOptions} {runId : JsStr} {fuel : ℕ} {tr : TourTrace}

theorem exists_pollInterval (hvalid : options.timely = true) :
    ∃ d, options.pollInterval = .finite d ∧ 0 ≤ d := by
  simp only [ReliabilityTourOptions.timely, Bool.and_eq_true] at hvalid
  obtain ⟨⟨hpoll, -⟩, -⟩ := hvalid
  generalize options.pollInterval = interval at hpoll ⊢
  cases interval with
  | finite d =>
    refine ⟨d, rfl, ?_⟩
    simp [durationValid, JsNumber.isFinite, JsNumber.le] at hpoll
    exact hpoll.le
  | nan => cases hpoll
  | infinite b => cases hpoll

theorem presentationPause_isFinite (hvalid : options.timely = true) :
    options.presentationPause.isFinite = true := by
  simp only [ReliabilityTourOptions.timely, durationValid, Bool.and_eq_true] at hvalid
  exact hvalid.1.2.1

/-- A tour from the first reading of the clock on. -/
theorem startTour_play (hvalid : options.timely = true) (hrun : trim runId ≠ [])
    (hun : ∀ e ∈ tr, e.1.isReplay = false) (hpub : ∀ e ∈ tr, e.1.isPublish = false)
    (o : TourTrace → (c : Call) → c.Answer) :
    Along (fun tr e => Authorized options runId tr e.1) tr
        ((startTour fuel options (some runId)).play o tr).2 ∧
      (∀ r, ((startTour fuel options (some runId)).play o tr).1 = some r →
        Resolves options r (tr ++ ((startTour fuel options (some runId)).play o tr).2)) ∧
      (Along Advances tr ((startTour fuel options (some runId)).play o tr).2 →
        (∀ q d, o tr .now = .finite q → options.pollInterval = .finite d →
          ((JsNumber.finite q).add options.timeout).le (.finite (q + fuel * d)) = true) →
        ((startTour fuel options (some runId)).play o tr).1 ≠ none ∧
          polls options ((startTour fuel options (some runId)).play o tr).2 ≤ fuel) := by
  obtain ⟨d, hpoll, hd⟩ := exists_pollInterval hvalid
  have hpause := presentationPause_isFinite hvalid
  have hplay : (startTour fuel options (some runId)).play o tr =
      (((options.tour runId (o tr .now)).script fuel options.vars).play o
        (tr ++ [⟨.now, o tr .now⟩])).map id (⟨.now, o tr .now⟩ :: ·) := by
    rw [startTour, if_neg hrun]
    rfl
  have hun' : ∀ e ∈ tr ++ [⟨.now, o tr .now⟩], e.1.isReplay = false :=
    List.forall_mem_append.mpr ⟨hun, List.forall_mem_singleton.mpr rfl⟩
  have hpub' : ∀ e ∈ tr ++ [⟨.now, o tr .now⟩], e.1.isPublish = false :=
    List.forall_mem_append.mpr ⟨hpub, List.forall_mem_singleton.mpr rfl⟩
  have hsat : ∀ clocked : Prop, (clocked → ∃ q : ℚ,
      (q : WithBot ℚ) ≤ clockFloor (tr ++ [⟨.now, o tr .now⟩]) ∧
        (options.tour runId (o tr .now)).deadline.le (.finite (q + fuel * d)) = true) →
      ((options.tour runId (o tr .now)).script fuel options.vars).Sat
        (rules options runId (o tr .now) clocked) (Resolves options) (tr ++ [⟨.now, o tr .now⟩]) :=
    fun clocked hfuel =>
    Prog.Sat.bind (sat_run hpoll hd hpause hun' hpub' hfuel)
  rw [hplay]
  obtain ⟨hmay, hend, -⟩ := (hsat False False.elim).play o
    (along_iff.mpr fun _ _ _ _ hfalse => hfalse.elim)
  refine ⟨⟨trivial, hmay.mono fun _ _ => Permitted.authorized⟩, fun r hr => ?_,
    fun ⟨hnow, hadvances⟩ hfuel => ?_⟩
  · have hr' := hend r hr
    rwa [List.append_assoc] at hr'
  · obtain ⟨q, hq, -⟩ := hnow _ rfl
    have hle := hfuel q d hq hpoll
    rw [← hq] at hle
    have hfloor : (q : WithBot ℚ) ≤ clockFloor (tr ++ [⟨.now, o tr .now⟩]) := by
      rw [clockFloor_append, hq]
      exact le_rfl
    obtain ⟨hmay, -, hunfinished⟩ := (hsat True fun _ => ⟨q, hfloor, hle⟩).play o
      (hadvances.mono fun _ _ h _ => h)
    refine ⟨fun hnone => hunfinished hnone trivial, ?_⟩
    exact polls_le hpoll hadvances hmay hfloor hle

/-- Once its arguments are accepted, a tour goes on from the first reading of the clock. -/
theorem runReliabilityTour_play {o : TourTrace → (c : Call) → c.Answer}
    (hvalid : options.timely = true) (hid : options.stableRunId (o [] .createRunId) = some runId) :
    (runReliabilityTour fuel options).play o [] =
      ((startTour fuel options (some runId)).play o (options.opening (o [] .createRunId))).map id
        (options.opening (o [] .createRunId) ++ ·) := by
  simp only [ReliabilityTourOptions.timely, Bool.and_eq_true] at hvalid
  obtain ⟨⟨hpoll, hpause⟩, htimeout⟩ := hvalid
  unfold runReliabilityTour ReliabilityTourOptions.opening
  unfold ReliabilityTourOptions.stableRunId at hid
  simp only [hpoll, hpause, htimeout, Bool.true_eq_false, if_false]
  generalize options.runId = given at hid
  cases given with
  | some i =>
    obtain rfl := Option.some.inj hid
    rfl
  | none =>
    rw [Option.none_or] at hid
    split at hid
    · rename_i hcreates
      obtain rfl := Option.some.inj hid
      rw [if_pos hcreates]
      rfl
    · cases hid

theorem opening_unmutated (created : JsStr) :
    (∀ e ∈ options.opening created, e.1.isReplay = false) ∧
      ∀ e ∈ options.opening created, e.1.isPublish = false := by
  unfold ReliabilityTourOptions.opening
  split <;> simp [Call.isReplay, Call.isPublish]

theorem polls_opening (created : JsStr) : polls options (options.opening created) = 0 := by
  unfold ReliabilityTourOptions.opening
  split <;> rfl

theorem opening_authorized (created : JsStr) :
    Along (fun tr e => Authorized options runId tr e.1) [] (options.opening created) := by
  unfold ReliabilityTourOptions.opening
  split
  · exact ⟨trivial, trivial⟩
  · trivial

end Start

namespace Sample

def options : ReliabilityTourOptions :=
  ⟨none, none, none, none, none, none, none, none, true⟩

/-- A stopped delivery, and a delivered replay once it was requested. -/
def detail (tr : TourTrace) : EventDetail where
  id := js "event"
  type := js "order.paid"
  data := []
  createdAt := js "2026-01-01T00:00:00Z"
  deliveries := ⟨js "source", js "endpoint", .finite 0, none, .deadLettered, .finite 3⟩ ::
    if tr.any (·.1.isReplay) then
      [⟨js "replay", js "endpoint", .finite 1, some (js "source"), .delivered, .finite 1⟩]
    else []

/-- Dependencies that work, and a clock that only waits move. -/
def answer (tr : TourTrace) : (c : Call) → c.Answer
  | .createRunId => js "run"
  | .now => .finite ((clockFloor tr).unbotD 0)
  | .aborted => false
  | .wait _ => .ok ()
  | .onProgress _ => ()
  | .getReceiverLab _ => .ok ⟨some .deadLetter⟩
  | .setReceiverLabPreset preset _ => .ok ⟨some preset⟩
  | .ensureReceiverLabEndpoint _ => .ok ⟨js "endpoint"⟩
  | .publishDemoEvent _ _ _ _ _ => .ok ⟨js "event"⟩
  | .getEvent _ => .ok (detail tr)
  | .getDeliveryAttempts _ => .ok ⟨[]⟩
  | .replayDelivery _ _ => .ok ⟨js "replay"⟩

theorem advances_answer (tr : TourTrace) (c : Call) : Advances tr ⟨c, answer tr c⟩ := by
  intro reading heq
  cases heq
  refine ⟨_, rfl, ?_⟩
  cases clockFloor tr with
  | bot => exact bot_le
  | coe q => exact le_rfl

end Sample

section Results

variable {options : ReliabilityTourOptions} {runId : JsStr} {fuel : ℕ}

/-- However its dependencies answer, a tour publishes once at most and never when it
resumes an event, requests the replay of a stopped delivery only once the receiver is
healthy, and reports success only with an event that was read and that shows it; it
never throws. -/
theorem tour_safe (hvalid : options.timely = true) (o : TourTrace → (c : Call) → c.Answer)
    (hid : options.stableRunId (o [] .createRunId) = some runId) (hrun : trim runId ≠ []) :
    Along (fun tr e => Authorized options runId tr e.1) []
        ((runReliabilityTour fuel options).play o []).2 ∧
      ∀ r, ((runReliabilityTour fuel options).play o []).1 = some r →
        Resolves options r ((runReliabilityTour fuel options).play o []).2 := by
  rw [runReliabilityTour_play hvalid hid]
  obtain ⟨hun, hpub⟩ := @opening_unmutated options (o [] .createRunId)
  obtain ⟨hmay, hend, -⟩ := @startTour_play options runId fuel _ hvalid hrun hun hpub o
  exact ⟨along_append.mpr ⟨opening_authorized _, hmay⟩, hend⟩

theorem tour_safe_of_replay :
    Along (fun tr e => Authorized Sample.options (js "run") tr e.1) []
        ((runReliabilityTour 180 Sample.options).play Sample.answer []).2 ∧
      ∀ r, ((runReliabilityTour 180 Sample.options).play Sample.answer []).1 = some r →
        Resolves Sample.options r ((runReliabilityTour 180 Sample.options).play Sample.answer []).2 :=
  tour_safe (by decide) Sample.answer rfl (by decide)

/-- When every wait advances the clock, a tour resolves, and it polls no more often than
its timeout allows. -/
theorem tour_resolves (hvalid : options.timely = true) (o : TourTrace → (c : Call) → c.Answer)
    (hid : options.stableRunId (o [] .createRunId) = some runId) (hrun : trim runId ≠ [])
    {q d : ℚ} (hstart : o (options.opening (o [] .createRunId)) .now = .finite q)
    (hpoll : options.pollInterval = .finite d)
    (hfuel : ((JsNumber.finite q).add options.timeout).le (.finite (q + fuel * d)) = true)
    (hadvances : Along Advances [] ((runReliabilityTour fuel options).play o []).2) :
    ∃ result, ((runReliabilityTour fuel options).play o []).1 = some (.ok result) ∧
      Concluded options ((runReliabilityTour fuel options).play o []).2 result ∧
      polls options ((runReliabilityTour fuel options).play o []).2 ≤ fuel := by
  rw [runReliabilityTour_play hvalid hid] at hadvances ⊢
  obtain ⟨hun, hpub⟩ := @opening_unmutated options (o [] .createRunId)
  obtain ⟨-, hend, hadvancing⟩ := @startTour_play options runId fuel _ hvalid hrun hun hpub o
  obtain ⟨hresolved, hpolls⟩ := hadvancing (along_append.mp hadvances).2 fun q' d' hq' hd' => by
    obtain rfl := JsNumber.finite.inj (hstart.symm.trans hq')
    obtain rfl := JsNumber.finite.inj (hpoll.symm.trans hd')
    exact hfuel
  obtain ⟨r, hr⟩ := Option.ne_none_iff_exists'.mp hresolved
  obtain ⟨result, rfl, hconcluded⟩ := hend r hr
  refine ⟨result, hr, hconcluded, ?_⟩
  show polls options (options.opening (o [] .createRunId) ++ _) ≤ fuel
  rw [polls, List.countP_append, ← polls, polls_opening, Nat.zero_add]
  exact hpolls

theorem tour_resolves_of_replay :
    ∃ result, ((runReliabilityTour 180 Sample.options).play Sample.answer []).1 =
        some (.ok result) ∧
      Concluded Sample.options ((runReliabilityTour 180 Sample.options).play Sample.answer []).2
        result ∧
      polls Sample.options ((runReliabilityTour 180 Sample.options).play Sample.answer []).2 ≤
        180 := by
  have hdeadline : (JsNumber.finite 0).add (.finite 90000) = .finite 90000 := by
    rw [JsNumber.add, zero_add]
    exact JsNumber.ofRat_intCast (z := 90000) (by decide)
  have hfuel : ((JsNumber.finite 0).add Sample.options.timeout).le
      (.finite (0 + (180 : ℕ) * 500)) = true := by
    show ((JsNumber.finite 0).add (.finite 90000)).le _ = true
    rw [hdeadline]
    exact decide_eq_true (by norm_num)
  exact tour_resolves (by decide) Sample.answer rfl (by decide) rfl rfl hfuel
    (Prog.along_play Sample.advances_answer _ _)

end Results

end Frontend

end EventHarbor
