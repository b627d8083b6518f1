import EventHarbor.Properties.Payload
import EventHarbor.Properties.Success

/-!
# From an HTTP outcome to recorded evidence

Which outcomes of a call the transport turns into a result, and which results
the attempts table takes.
-/

namespace EventHarbor

open Relational DeliveryWorker

/-! ## Retry-After -/

/-- A date that the conversion to UTC can take. -/
def DatesInRange (lib : TransportLib) (value : Option String) (reference : ParsedDate) : Prop :=
  ∀ v, value = some v → lib.float (pyStrip v) = none →
    lib.parsedateToDatetime (pyStrip v) ≠ .error .overflow ∧
    ∀ date, lib.parsedateToDatetime (pyStrip v) = .ok date →
      representable date.instant = true ∧ representable reference.instant = true

section RetryAfter

variable {lib : TransportLib} {value : Option String} {cap : ℚ} {reference : ParsedDate}

theorem toUtc_ok {date : ParsedDate} (h : representable date.instant = true) :
    date.toUtc = .ok date.instant := by
  rw [ParsedDate.toUtc, if_pos h]

theorem toUtc_error {date : ParsedDate} (h : ¬representable date.instant = true) :
    date.toUtc = .error .overflow := by
  rw [ParsedDate.toUtc, if_neg h]

/-- A date in range is the time until it comes. -/
theorem parseRetryAfter_date {v : String} {date : ParsedDate}
    (hfloat : lib.float (pyStrip v) = none)
    (hdate : lib.parsedateToDatetime (pyStrip v) = .ok date)
    (hd : representable date.instant = true) (hr : representable reference.instant = true) :
    parseRetryAfter lib (some v) cap reference =
      .ok (some (min (max (date.instant - reference.instant) 0) cap)) := by
  simp only [parseRetryAfter, hfloat, hdate, toUtc_ok hd, toUtc_ok hr]
  rfl

/-- A parse that returns has met no date out of range. -/
theorem datesInRange_of_ok {r : Option ℚ}
    (h : parseRetryAfter lib value cap reference = .ok r) : DatesInRange lib value reference := by
  rintro v rfl hfloat
  simp only [parseRetryAfter, hfloat] at h
  refine ⟨fun hover => ?_, fun date hdate => ?_⟩
  · rw [hover] at h
    cases h
  · rw [hdate] at h
    by_cases hd : representable date.instant = true
    · refine ⟨hd, ?_⟩
      by_contra hr
      simp only [toUtc_ok hd, toUtc_error hr] at h
      cases h
    · simp only [toUtc_error hd] at h
      cases h

variable (cap) in
/-- Without a date out of range a parse returns, and within its bounds. -/
theorem parseRetryAfter_ok (h : DatesInRange lib value reference) :
    ∃ r, parseRetryAfter lib value cap reference = .ok r ∧
      (0 < cap → ∀ x, r = some x → 0 ≤ x ∧ x ≤ cap) := by
  cases value with
  | none => exact ⟨none, rfl, fun _ x hx => by cases hx⟩
  | some v =>
    cases hfloat : lib.float (pyStrip v) with
    | none =>
      obtain ⟨hover, hdates⟩ := h v rfl hfloat
      cases hdate : lib.parsedateToDatetime (pyStrip v) with
      | error e =>
        cases e with
        | invalid => exact ⟨none, by simp [parseRetryAfter, hfloat, hdate], fun _ x hx => by cases hx⟩
        | overflow => exact absurd hdate hover
      | ok date =>
        obtain ⟨hd, hr⟩ := hdates date hdate
        refine ⟨_, parseRetryAfter_date hfloat hdate hd hr, fun hcap x hx => ?_⟩
        cases hx
        exact ⟨le_min (le_max_right _ _) hcap.le, min_le_right _ _⟩
    | some number =>
      cases number with
      | finite s =>
        by_cases hs : s < 0
        · exact ⟨none, by simp [parseRetryAfter, hfloat, hs], fun _ x hx => by cases hx⟩
        · refine ⟨some (min s cap), by simp [parseRetryAfter, hfloat, hs], fun hcap x hx => ?_⟩
          cases hx
          exact ⟨le_min (not_lt.mp hs) hcap.le, min_le_right _ _⟩
      | infinite negative =>
        exact ⟨none, by simp [parseRetryAfter, hfloat], fun _ x hx => by cases hx⟩
      | nan => exact ⟨none, by simp [parseRetryAfter, hfloat], fun _ x hx => by cases hx⟩

variable (cap) in
theorem parseRetryAfter_ok_iff :
    (∃ r, parseRetryAfter lib value cap reference = .ok r) ↔ DatesInRange lib value reference := by
  constructor
  · rintro ⟨r, hr⟩
    exact datesInRange_of_ok hr
  · intro h
    obtain ⟨r, hr, -⟩ := parseRetryAfter_ok cap h
    exact ⟨r, hr⟩

end RetryAfter

/-- Parsing is total and bounded exactly when no date leaves the range of
`datetime` on its way to UTC. The reference time is aware. -/
theorem retry_after_total_iff (lib : TransportLib) (value : Option String) {cap : ℚ}
    (hcap : 0 < cap) (wall : Time) (offset : ℚ) :
    (∃ r, parseRetryAfter lib value cap ⟨wall, some offset⟩ = .ok r ∧
      (∀ x, r = some x → 0 ≤ x ∧ x ≤ cap) ∧
      (∀ v s, value = some v → lib.float (pyStrip v) = some (.finite s) → 0 ≤ s →
        r = some (min s cap)) ∧
      ∀ v date, value = some v → lib.float (pyStrip v) = none →
        lib.parsedateToDatetime (pyStrip v) = .ok date →
        r = some (min (max (date.instant - (wall - offset)) 0) cap)) ↔
      DatesInRange lib value ⟨wall, some offset⟩ := by
  constructor
  · rintro ⟨r, hr, -⟩
    exact datesInRange_of_ok hr
  · intro h
    obtain ⟨r, hr, hbounds⟩ := parseRetryAfter_ok cap h
    refine ⟨r, hr, hbounds hcap, ?_, ?_⟩
    · rintro v s rfl hfloat hs
      rw [parseRetryAfter, hfloat] at hr
      simp only [if_neg (not_lt.mpr hs), Except.ok.injEq] at hr
      exact hr.symm
    · rintro v date rfl hfloat hdate
      obtain ⟨hd, href⟩ := (h v rfl hfloat).2 date hdate
      rw [parseRetryAfter_date hfloat hdate hd href] at hr
      cases hr
      rfl

namespace Sample

/-- A header whose date has left the year 9999 in UTC. -/
def lateDate : String := "Fri, 31 Dec 9999 23:59:59 -0001"

/-- `float` and `parsedate_to_datetime` on the headers of the examples. -/
def dates : TransportLib :=
  ReceiverLab.transportLib (fun text => if text = "120" then some (.finite 120) else none)
    (fun text => if text = lateDate then .ok ⟨253402300799, some (-60)⟩ else .error .invalid)
    fun _ _ => "317eb520aff07fc2c4ef1f66ce7b8003bd14857e30073c1011f75180ed19fb0b"

end Sample

theorem retry_after_total_of_seconds :
    ∃ r, parseRetryAfter Sample.dates (some " 120 ") 60 ⟨Sample.epoch, some 0⟩ = .ok r ∧
      ∀ x, r = some x → 0 ≤ x ∧ x ≤ 60 := by
  obtain ⟨r, hr, hbounds, -⟩ := (retry_after_total_iff Sample.dates (some " 120 ")
    (show (0 : ℚ) < 60 by norm_num) Sample.epoch 0).mpr (by
      rintro v ⟨⟩ hfloat
      have : (Sample.dates.float (pyStrip " 120 ")).isSome = true := by decide
      rw [hfloat] at this
      cases this)
  exact ⟨r, hr, hbounds⟩

/-- The conversion of the header's date to UTC raises. -/
theorem retry_after_raises : Sample.dates.parsedateToDatetime (pyStrip Sample.lateDate) =
      .ok ⟨253402300799, some (-60)⟩ ∧
    ¬∃ r, parseRetryAfter Sample.dates (some Sample.lateDate) 60 ⟨Sample.epoch, some 0⟩ = .ok r := by
  have hdate : Sample.dates.parsedateToDatetime (pyStrip Sample.lateDate) =
      .ok ⟨253402300799, some (-60)⟩ := by
    have hstrip : pyStrip Sample.lateDate = Sample.lateDate := by decide
    simp [Sample.dates, ReceiverLab.transportLib, hstrip]
  refine ⟨hdate, ?_⟩
  rintro ⟨r, hr⟩
  have hfloat : Sample.dates.float (pyStrip Sample.lateDate) = none := by decide
  have := ((datesInRange_of_ok hr _ rfl hfloat).2 _ hdate).1
  norm_num [representable, ParsedDate.instant] at this

/-! ## Texts and numbers that the columns take -/

theorem isText_iff {s : String} : isText s = true ↔ '\x00' ∉ s.toList := by
  simp only [isText, List.all_eq_true, decide_eq_true_eq]
  constructor
  · exact fun h hm => h _ hm rfl
  · intro h c hc hzero
    have : c = '\x00' := Char.toNat_inj.mp hzero
    exact h (this ▸ hc)

/-- A message that a text column can hold: UTF-8 encodes it and no character is
U+0000. -/
def PyStr.Sendable (s : PyStr) : Prop := ∀ c ∈ s, c.val ≠ 0 ∧ CodePoint.isSurrogate c = false

theorem PyStr.Sendable.append {s t : PyStr} (hs : s.Sendable) (ht : t.Sendable) :
    PyStr.Sendable (s ++ t) := by
  intro c hc
  rcases List.mem_append.mp hc with hc | hc
  · exact hs c hc
  · exact ht c hc

theorem PyStr.Sendable.take {s : PyStr} (h : s.Sendable) (n : ℕ) : PyStr.Sendable (s.take n) :=
  fun c hc => h c (List.mem_of_mem_take hc)

theorem PyStr.sendable_ofString {s : String} (h : isText s = true) : (PyStr.ofString s).Sendable := by
  intro c hc
  obtain ⟨a, ha, rfl⟩ := List.mem_map.mp hc
  have hzero : a.toNat ≠ 0 := by
    simpa using List.all_eq_true.mp h a ha
  have hvalid : a.toNat < 0xD800 ∨ 0xDFFF < a.toNat ∧ a.toNat < 0x110000 := a.valid
  refine ⟨hzero, ?_⟩
  have hval : (CodePoint.ofChar a).val = a.toNat := rfl
  unfold CodePoint.isSurrogate
  rw [hval, Bool.and_eq_false_iff, decide_eq_false_iff_not, decide_eq_false_iff_not]
  omega

theorem isText_append {s t : String} (hs : isText s = true) (ht : isText t = true) :
    isText (s ++ t) = true := by
  rw [isText_iff] at hs ht ⊢
  simp [hs, ht]

theorem isText_natRepr (n : ℕ) : isText (toString n) = true := by
  rw [isText_iff]
  intro hm
  have hdigit := Nat.isDigit_of_mem_toDigits (b := 10) (n := n) (by decide) (by decide) (c := '\x00')
    (by simpa using hm)
  exact absurd hdigit (by decide)

theorem isText_intRepr (n : ℤ) : isText (toString n) = true := by
  cases n with
  | ofNat n => exact isText_natRepr n
  | negSucc n => exact isText_append (s := "-") (by decide) (isText_natRepr (n + 1))

/-- `int` makes a reading nonnegative from the last second before the epoch on. -/
theorem truncInt_nonneg {q : ℚ} : 0 ≤ truncInt q ↔ -1 < q := by
  unfold truncInt
  split
  · rename_i h
    exact ⟨fun _ => by linarith, fun _ => Int.floor_nonneg.mpr h⟩
  · have : (0 : ℤ) ≤ ⌈q⌉ ↔ -1 < ⌈q⌉ := by omega
    rw [this, Int.lt_ceil]
    norm_num

theorem truncInt_bounds {q : ℚ} {n : ℤ} (hlow : -n ≤ q) (hhigh : q ≤ n) :
    -n ≤ truncInt q ∧ truncInt q ≤ n := by
  have hn : (0 : ℚ) ≤ n := by linarith
  have hn : 0 ≤ n := by exact_mod_cast hn
  unfold truncInt
  split
  · have := Int.floor_nonneg.mpr ‹0 ≤ q›
    have : ⌊q⌋ ≤ n := Int.floor_le_iff.mpr (by linarith)
    omega
  · have : ⌈q⌉ ≤ 0 := Int.ceil_le.mpr (by push_cast; linarith)
    have : -n - 1 < ⌈q⌉ := Int.lt_ceil.mpr (by push_cast; linarith)
    omega

/-- The timestamps of `datetime` are exact to the second. -/
theorem abs_round_le_of_representable {t : Time} (h : representable t = true) :
    |Binary64.round t - t| ≤ 1 := by
  simp only [representable, Bool.and_eq_true, decide_eq_true_eq] at h
  have hlt : |t| < 2 ^ 38 := abs_lt.mpr ⟨by linarith, by linarith⟩
  have hplace : Binary64.lastPlace t ≤ 0 := by
    unfold Binary64.lastPlace
    rcases eq_or_ne t 0 with rfl | hne
    · simp
    · have hlog := (Int.lt_zpow_iff_log_lt (b := 2) (by norm_num) (abs_pos.mpr hne) (x := 38)).mp (by
        exact_mod_cast hlt)
      omega
  calc |Binary64.round t - t| ≤ 2 ^ Binary64.lastPlace t := Binary64.abs_round_sub_le t
    _ ≤ 2 ^ (0 : ℤ) := zpow_le_zpow_right₀ (by norm_num) hplace
    _ = 1 := zpow_zero _

/-- The clock of a `datetime` has twelve digits at most. -/
theorem requestTimestamp_bounds {c : AttemptClock} (h : representable c.started = true) :
    -253402300801 ≤ c.requestTimestamp ∧ c.requestTimestamp ≤ 253402300801 := by
  obtain ⟨hlow, hhigh⟩ := abs_le.mp (abs_round_le_of_representable h)
  simp only [representable, Bool.and_eq_true, decide_eq_true_eq] at h
  exact truncInt_bounds (by push_cast; linarith) (by push_cast; linarith)

theorem isBigInteger_requestTimestamp {c : AttemptClock} (h : representable c.started = true) :
    isBigInteger c.requestTimestamp = true := by
  have := requestTimestamp_bounds h
  simp only [isBigInteger, Bool.and_eq_true, decide_eq_true_eq]
  omega

theorem durationMs_nonneg (c : AttemptClock) : 0 ≤ c.durationMs := le_max_left _ _

/-- The rounded duration fits its column. The product is rounded to a double
first, so half a place is lost below the bound. -/
theorem isInteger_durationMs {c : AttemptClock} : isInteger c.durationMs = true ↔
    Binary64.round (c.finishedMonotonic - c.startedMonotonic) * 1000 <
      2 ^ 31 - 1 / 2 - 1 / 2 ^ 23 := by
  have hnonneg := durationMs_nonneg c
  unfold AttemptClock.durationMs at hnonneg ⊢
  generalize Binary64.round (c.finishedMonotonic - c.startedMonotonic) * 1000 = q at hnonneg ⊢
  have hdouble : Binary64.round q < 2 ^ 31 - 1 / 2 ↔ q < 2 ^ 31 - 1 / 2 - 1 / 2 ^ 23 := by
    have := Binary64.round_lt (q := q) (e := -22) (n := 2 ^ 53 - 2 ^ 21) (by decide) (by decide)
      (by decide) (by decide)
    norm_num at this ⊢
    exact this
  have hinteger := roundHalfEven_lt (q := Binary64.round q) (n := 2 ^ 31) (by decide)
  rw [Int.cast_pow, Int.cast_ofNat, hdouble] at hinteger
  rw [← hinteger]
  simp only [isInteger, Bool.and_eq_true, decide_eq_true_eq]
  omega

/-! ## What the transport returns -/

/-- Clock readings whose evidence can be stored. -/
structure AttemptClock.Recordable (c : AttemptClock) : Prop where
  epoch : -1 < Binary64.round c.started
  ordered : c.started ≤ c.finished
  duration : Binary64.round (c.finishedMonotonic - c.startedMonotonic) * 1000 <
    2 ^ 31 - 1 / 2 - 1 / 2 ^ 23

/-- Outcomes whose evidence can be stored. -/
def HttpOutcome.Recordable (lib : TransportLib) (finished : Time) : HttpOutcome → Prop
  | response statusCode content retryAfter => statusCode ≤ 599 ∧ 0 ∉ content.take 2048 ∧
      (classifyStatusCode statusCode = .ok .retry →
        DatesInRange lib retryAfter ⟨finished, some 0⟩)
  | timeout message | requestError message => PyStr.Sendable (message.take 1024)

section Transport

variable {lib : TransportLib} {cap : ℚ} {w : OutboundWebhook} {clock : AttemptClock}

/-- The columns that the clock readings fill. -/
def AttemptClock.storable (c : AttemptClock) : Bool :=
  isInteger c.durationMs && isBigInteger c.requestTimestamp && 0 ≤ c.requestTimestamp &&
    c.started ≤ c.finished

theorem AttemptClock.storable_iff {c : AttemptClock} (h : representable c.started = true) :
    c.storable = true ↔ c.Recordable := by
  have hpositive : 0 ≤ c.requestTimestamp ↔ -1 < Binary64.round c.started := truncInt_nonneg
  simp only [AttemptClock.storable, isBigInteger_requestTimestamp h, Bool.and_eq_true,
    Bool.and_true, decide_eq_true_eq, isInteger_durationMs, hpositive]
  exact ⟨fun ⟨⟨h₁, h₂⟩, h₃⟩ => ⟨h₂, h₃, h₁⟩, fun h => ⟨⟨h.duration, h.epoch⟩, h.ordered⟩⟩

/-- The error of a call without a response is a text when its message is. -/
theorem lastError_isText {r : AttemptResult} {errorType : String} {message : PyStr}
    (hd : r.disposition = .retry) (he : r.errorType = some errorType)
    (hm : r.errorMessage = some message) (ht : isText errorType = true)
    (htext : message.Sendable) : nullOr isText ((lastError r).map PyStr.toText) = true := by
  simp only [lastError, hd, he, hm, reduceCtorEq, if_false, nullOr, Option.map_some]
  refine isText_toText.mpr (PyStr.Sendable.take (PyStr.Sendable.append
    (PyStr.sendable_ofString (isText_append ht (by decide))) ?_) 2048)
  split
  · exact PyStr.sendable_ofString (by decide)
  · exact PyStr.sendable_ofString (by decide)
  · rename_i heq
    cases heq
    exact htext

/-- The evidence of a call without a response is stored when its message is a text. -/
theorem transportFailure_storable {errorType : String} {message : PyStr}
    (hv : isVarchar 120 errorType = true) (ht : isText errorType = true) :
    (transportFailure errorType message clock.requestTimestamp clock).storable = true ↔
      clock.storable = true ∧ PyStr.Sendable (message.take 1024) := by
  have hlast (hm : PyStr.Sendable (message.take 1024)) := lastError_isText
    (r := transportFailure errorType message clock.requestTimestamp clock) rfl rfl rfl ht hm
  generalize hr : transportFailure errorType message clock.requestTimestamp clock = r at hlast ⊢
  unfold transportFailure at hr
  simp only [AttemptResult.storable, AttemptClock.storable, Bool.and_eq_true]
  generalize lastError r = e at hlast ⊢
  subst hr
  simp only [nullOr, Option.map_some, hv, ht, durationMs_nonneg, isText_toText, decide_true,
    true_and, and_true]
  tauto

/-- The evidence of a response. -/
def responseResult (lib : TransportLib) (clock : AttemptClock) (statusCode : ℤ) (content : Bytes)
    (disposition : DeliveryDisposition) (retryAfter : Option ℚ) : AttemptResult where
  disposition := disposition
  httpStatusCode := some statusCode
  errorType := none
  errorMessage := none
  responseBodyExcerpt := some (lib.decodeReplace (content.take 2048))
  requestTimestamp := clock.requestTimestamp
  retryAfterSeconds := retryAfter
  startedAt := clock.started
  finishedAt := clock.finished
  durationMs := clock.durationMs

/-- The evidence of a response is stored when its status is valid and its body a text. -/
theorem responseResult_storable {n : ℤ} {content : Bytes} {disposition : DeliveryDisposition}
    {retryAfter : Option ℚ} :
    (responseResult lib clock n content disposition retryAfter).storable = true ↔
      clock.storable = true ∧ (100 ≤ n ∧ n ≤ 599) ∧
        isText (lib.decodeReplace (content.take 2048)) = true := by
  have hlast : nullOr isText ((lastError
      (responseResult lib clock n content disposition retryAfter)).map PyStr.toText) = true := by
    have hhttp : nullOr isText ((some (PyStr.ofString s!"HTTP {n}")).map PyStr.toText) = true :=
      isText_toText.mpr (PyStr.sendable_ofString (isText_append (by decide) (isText_intRepr n)))
    cases disposition with
    | succeeded => rfl
    | retry => exact hhttp
    | terminalFailure => exact hhttp
  generalize hr : responseResult lib clock n content disposition retryAfter = r at hlast ⊢
  unfold responseResult at hr
  simp only [AttemptResult.storable, AttemptClock.storable, Bool.and_eq_true, hlast]
  subst hr
  simp only [nullOr, durationMs_nonneg, decide_true, true_and, and_true, Bool.and_eq_true,
    decide_eq_true_eq, isInteger]
  constructor
  · tauto
  · rintro ⟨hclock, ⟨h₁, h₂⟩, htext⟩
    have : -2 ^ 31 ≤ n ∧ n < 2 ^ 31 := by omega
    tauto

/-- The part of `send_webhook` on a response. -/
def received (lib : TransportLib) (cap : ℚ) (clock : AttemptClock) (statusCode : ℤ)
    (content : Bytes) (retryAfterHeader : Option String) : Except Error AttemptResult := do
  let disposition ← classifyStatusCode statusCode
  let retryAfter ←
    if disposition = .retry then
      parseRetryAfter lib retryAfterHeader cap ⟨clock.finished, some 0⟩
    else pure none
  return responseResult lib clock statusCode content disposition retryAfter

/-- Nothing is signed for a time before the epoch. -/
theorem sendWebhook_signed {outcome : HttpOutcome} {result : AttemptResult}
    (h : sendWebhook lib cap w (fun _ _ => outcome) clock = .ok result) :
    0 ≤ clock.requestTimestamp := by
  by_contra hneg
  by_cases hs : w.signingSecret = []
  · simp [sendWebhook, signPayload, hs, bind, Except.bind] at h
  · simp [sendWebhook, signPayload, hs, not_le.mp hneg, bind, Except.bind] at h

theorem hasDecimal_of_representable (h : representable clock.started = true) :
    hasDecimal clock.requestTimestamp.toNat = true := by
  obtain ⟨-, hle⟩ := requestTimestamp_bounds h
  have hdigits : (Nat.toDigits 10 clock.requestTimestamp.toNat).length ≤ 12 :=
    (Nat.length_toDigits_le_iff (by decide) (by decide)).mpr (by omega)
  unfold hasDecimal maxStrDigits
  rw [decide_eq_true_eq]
  omega

theorem sendWebhook_of_signed {outcome : HttpOutcome} (hs : w.signingSecret ≠ [])
    (hstart : 0 ≤ clock.requestTimestamp)
    (hdecimal : hasDecimal clock.requestTimestamp.toNat = true) :
    sendWebhook lib cap w (fun _ _ => outcome) clock = match outcome with
      | .timeout message =>
        .ok (transportFailure "timeout" message clock.requestTimestamp clock)
      | .requestError message =>
        .ok (transportFailure "network_error" message clock.requestTimestamp clock)
      | .response n content header => received lib cap clock n content header := by
  simp only [sendWebhook, signPayload, if_neg hs, if_neg (not_lt.mpr hstart), hdecimal,
    Bool.not_true, Bool.false_eq_true, if_false, bind, Except.bind]
  cases outcome <;> rfl

theorem classifyStatusCode_ok {n : ℤ} :
    (∃ disposition, classifyStatusCode n = .ok disposition) ↔ 100 ≤ n ∧ n ≤ 599 := by
  unfold classifyStatusCode
  split_ifs with h <;> simp at h ⊢ <;> omega

/-- The responses whose result is returned and can be stored. -/
theorem received_storable {n : ℤ} {content : Bytes} {header : Option String}
    (hdecode : ∀ bytes, isText (lib.decodeReplace bytes) = true ↔ 0 ∉ bytes) (hn : 100 ≤ n) :
    (∃ result, received lib cap clock n content header = .ok result ∧ result.storable = true) ↔
    clock.storable = true ∧ n ≤ 599 ∧ 0 ∉ content.take 2048 ∧
      (classifyStatusCode n = .ok .retry →
        DatesInRange lib header ⟨clock.finished, some 0⟩) := by
  unfold received
  cases hc : classifyStatusCode n with
  | error e =>
    refine iff_of_false ?_ fun h => ?_
    · rintro ⟨result, h, -⟩
      cases h
    · obtain ⟨d, hd⟩ := classifyStatusCode_ok.mpr ⟨hn, h.2.1⟩
      rw [hc] at hd
      cases hd
  | ok disposition =>
    have hle : n ≤ 599 := (classifyStatusCode_ok.mp ⟨_, hc⟩).2
    by_cases hretry : disposition = .retry
    · subst hretry
      simp only [bind, Except.bind, if_true, ← parseRetryAfter_ok_iff cap]
      cases hp : parseRetryAfter lib header cap ⟨clock.finished, some 0⟩ with
      | error e => simp
      | ok r =>
        simp only [pure, Except.pure, Except.ok.injEq, exists_eq_left', responseResult_storable,
          hdecode, exists_eq', forall_const]
        tauto
    · simp only [bind, Except.bind, hretry, if_false, pure, Except.pure, Except.ok.injEq,
        exists_eq_left', responseResult_storable, hdecode, false_implies]
      tauto

variable (cap) in
/-- The outcomes whose result is returned and can be stored. -/
theorem sendWebhook_storable_iff {outcome : HttpOutcome} (hs : w.signingSecret ≠ [])
    (hdecode : ∀ bytes, isText (lib.decodeReplace bytes) = true ↔ 0 ∉ bytes)
    (hstart : representable clock.started = true)
    (hcode : ∀ n content header, outcome = .response n content header → 100 ≤ n) :
    (∃ result, sendWebhook lib cap w (fun _ _ => outcome) clock = .ok result ∧
      result.storable = true) ↔ clock.Recordable ∧ outcome.Recordable lib clock.finished := by
  -- A time before the epoch is not signed, and then nothing is sent.
  by_cases hneg : 0 ≤ clock.requestTimestamp
  · rw [sendWebhook_of_signed hs hneg (hasDecimal_of_representable hstart),
      ← AttemptClock.storable_iff hstart]
    cases outcome with
    | timeout message =>
      simp only [Except.ok.injEq, exists_eq_left',
        transportFailure_storable (show isVarchar 120 "timeout" = true by decide) (by decide)]
      rfl
    | requestError message =>
      simp only [Except.ok.injEq, exists_eq_left',
        transportFailure_storable (show isVarchar 120 "network_error" = true by decide) (by decide)]
      rfl
    | response n content header =>
      rw [received_storable hdecode (hcode n content header rfl)]
      rfl
  · refine iff_of_false ?_ fun h => hneg (truncInt_nonneg.mpr h.1.epoch)
    rintro ⟨result, h, -⟩
    exact hneg (sendWebhook_signed h)

end Transport

/-! ## Finalizing -/

/-- What the tables accept of a result can be stored. -/
theorem storable_of_checks {d : Delivery} {a : DeliveryAttempt} {result : AttemptResult}
    {status : DeliveryStatus} {at' : Option Time} {now : Time}
    (hd : violation (settled d result status at' now).checks = none)
    (ha : violation (completed a result at' now).checks = none) : result.storable = true := by
  simp only [violation_eq_none, Delivery.checks, DeliveryAttempt.checks, List.mem_cons,
    List.not_mem_nil, or_false, forall_eq_or_imp, forall_eq, Bool.and_eq_true,
    decide_eq_true_eq] at hd ha
  obtain ⟨-, ⟨-, hlast⟩, -⟩ := hd
  obtain ⟨h1, ⟨⟨h2, h3⟩, h4⟩, ⟨⟨h5, h6⟩, h7⟩, -, h8, h9, h10, h11, -⟩ := ha
  simp only [AttemptResult.storable, Bool.and_eq_true, decide_eq_true_eq]
  refine ⟨⟨⟨⟨⟨⟨⟨⟨⟨⟨⟨h1, h2⟩, h3⟩, h4⟩, hlast⟩, h5⟩, h6⟩, h7⟩, ?_⟩, ?_⟩, h10⟩, ?_⟩
  · simpa [completed, nullOr] using h8
  · simpa [completed, nullOr] using h9
  · simpa [DeliveryAttempt.timestampsOrdered, completed] using h11

section Finalize

variable {lib : Lib} {ls : List Shown} {s : System} {w : DeliveryWorker}
  {webhook : OutboundWebhook} {d : Delivery}

/-- The row of a finalized attempt, and of its delivery when it succeeded. -/
structure Recorded (webhook : OutboundWebhook) (result : AttemptResult) (db : Db) : Prop where
  attempt : ∃ a ∈ db.attempts, a.id = webhook.attemptId ∧ a.status = .completed ∧
    a.disposition = some result.disposition ∧ a.httpStatusCode = result.httpStatusCode ∧
    violation a.checks = none
  delivered : result.disposition = .succeeded →
    ∃ d ∈ db.deliveries, d.id = webhook.deliveryId ∧ d.status = .delivered

/-- The owner of a lease records exactly the results that can be stored. -/
theorem finalize_recorded_iff (hr : Reaches lib ls s) (hw : webhook ∈ issued (history ls))
    (hd : d ∈ ownedDeliveries w webhook s.db) {result : AttemptResult} {draw : FinalizeDraw}
    (hf : FinalizeDraw.Fair draw) :
    (∃ db', (w.finalize webhook result draw).run s.db = .ok (true, db') ∧
      Recorded webhook result db') ↔ result.storable = true := by
  have hinv := reaches_inv hr
  have hissued := trace_issued not_false (reaches_sound hr).trace hw
  have hsafe := (@finalize_safe lib False webhook w result draw s.db (fun _ => hinv) fun _ => hissued).run
  rw [Txn.view_nil] at hsafe
  cases hrun : (w.finalize webhook result draw).run s.db with
  | error e =>
    rw [hrun] at hsafe
    refine iff_of_false (fun ⟨db', h, _⟩ => by cases h) fun hstore => ?_
    exact (hsafe not_false).2 ⟨hstore, hf⟩
  | ok p =>
    obtain ⟨ok, db'⟩ := p
    rw [hrun] at hsafe
    obtain ⟨g, ws, L, rfl, hstep⟩ := hsafe
    generalize Txn.view ws s.db = db' at hstep ⊢
    cases hstep with
    -- The lease stands, so the attempt that it opened is found.
    | stale hstale =>
      obtain ⟨a, ha, hn⟩ := hinv.claimed_of_owned hissued hd
      exact absurd (hn.symm.trans (mem_claimedAttempts.mp ha).2.2.2.1)
        (hstale not_false d hd)
    | @settle _ _ _ _ status delay d' a htarget hd' hcount ha hL hvalid hclose =>
      obtain ⟨ham, haid, -⟩ := mem_claimedAttempts.mp ha
      refine iff_of_true ⟨_, rfl, ⟨?_, fun hsucc => ?_⟩⟩ (storable_of_checks hvalid hclose)
      · refine ⟨completed a result (delay.map (draw.databaseNow + ·)) draw.databaseNow,
          (Table.mem_set_of_mem ham (by rfl)).mpr (.inr rfl), haid, rfl, rfl, rfl, hclose⟩
      · have hstatus : status = .delivered := by
          simp only [target, hsucc, Except.ok.injEq, Prod.mk.injEq] at htarget
          exact htarget.1.symm
        exact ⟨_, (mem_move_deliveries (settle_moves hd' ha _ _ _ _)).mpr (.inr rfl),
          (mem_ownedDeliveries.mp hd').2.1, hstatus⟩

theorem Step.endpoint_checks {cleanup : Prop} {L : List Lock} {r : Request} {a : Response}
    {db db' : Db} (hstep : Step lib cleanup L db r a db')
    (h : ∀ e ∈ db.endpoints, violation e.checks = none) :
    ∀ e ∈ db'.endpoints, violation e.checks = none := by
  intro e he
  cases hstep with
  | register hfresh hL hat hvalid =>
    rcases (Table.mem_insert hfresh).mp he with he | rfl
    · exact h e he
    · exact hvalid
  | enable hrow hid hL =>
    rcases (Table.mem_set_of_mem hrow (by rfl)).mp he with ⟨he, -⟩ | rfl
    · exact h e he
    · have hrow := h _ hrow
      exact hrow
  | _ => exact h e he

/-- A claim hands out the secret of a stored endpoint. -/
theorem Step.issued_secret {L : List Lock} {r : Request} {db db' : Db}
    (hstep : Step lib False L db r (.claimed (some (.webhook webhook))) db')
    (h : ∀ e ∈ db.endpoints, violation e.checks = none) : webhook.signingSecret ≠ [] := by
  have hsecret : ∀ ep ∈ db.endpoints, ep.signingSecret ≠ [] := by
    intro ep hep hnil
    have hchecks := h ep hep
    simp [violation_eq_none, Endpoint.checks, hnil] at hchecks
  cases hstep with
  | claim hd hL hdue hep hepid hc hvalid hclose hopen =>
    cases hc with
    | lease => exact hsecret _ (hep not_false)
    | relet => exact hsecret _ (hep not_false)

/-- Endpoints keep their checks, so a webhook that was issued can be signed. -/
theorem trace_secret {h : List (Request × Response)} {db : Db}
    (ht : (contract lib False).Trace [] Db.empty h db) :
    (∀ e ∈ db.endpoints, violation e.checks = none) ∧
      ∀ webhook ∈ issued h, webhook.signingSecret ≠ [] := by
  induction ht with
  | nil => exact ⟨fun e he => absurd he (Table.not_mem_empty e), fun w hw => by cases hw⟩
  | @snoc h db r a L db' ht hadmitted hinv hstep ih =>
    obtain ⟨hvalid, hsecret⟩ := ih
    refine ⟨Step.endpoint_checks hstep hvalid, fun webhook hw => ?_⟩
    rw [issued_append, List.mem_append] at hw
    rcases hw with hw | hw
    · exact hsecret webhook hw
    · exact Step.issued_secret (mem_issued_singleton.mp hw ▸ hstep) hvalid

end Finalize

/-- The transport's own decoder lets U+0000 through. -/
theorem isText_decodeReplace (bytes : Bytes) :
    isText (String.ofList (decodeReplace bytes)) = true ↔ 0 ∉ bytes := by
  rw [isText_iff, String.toList_ofList, nul_mem_decodeReplace]

/-- While its lease stands, the outcome of a call is recorded exactly when the
clock readings and the outcome are recordable. -/
theorem outcome_recorded_iff {lib : Lib} {ls : List Shown} {s : System} {w : DeliveryWorker}
    {webhook : OutboundWebhook} {d : Delivery} (hr : Reaches lib ls s)
    (hw : webhook ∈ issued (history ls)) (hd : d ∈ ownedDeliveries w webhook s.db)
    (float : String → Option FloatValue)
    (parsedateToDatetime : String → Except ParseDateError ParsedDate)
    (hmacSha256Hex : Bytes → Bytes → String) (outcome : HttpOutcome) (clock : AttemptClock)
    (draw : FinalizeDraw) (hf : FinalizeDraw.Fair draw) (hstart : representable clock.started = true)
    (hcode : ∀ n content header, outcome = .response n content header → 100 ≤ n ∧ n ≤ 999) :
    (∃ result, sendWebhook
        (ReceiverLab.transportLib float parsedateToDatetime hmacSha256Hex)
        w.settings.workerRetryAfterCapSeconds webhook (fun _ _ => outcome) clock = .ok result ∧
      (∃ db', (w.finalize webhook result draw).run s.db = .ok (true, db') ∧
        Recorded webhook result db' ∧
        ∀ n content header, outcome = .response n content header → 200 ≤ n → n ≤ 299 →
          ∃ d' ∈ db'.deliveries, d'.id = webhook.deliveryId ∧ d'.status = .delivered) ∧
      ∀ ls' s' c x r e s'', Continues lib ls s ls' s' → c ∈ s'.sessions →
        c.req = .finalize w webhook result draw →
        s'.act (Request.code lib) x ≠ some (.fail c.id r e, s'')) ↔
    clock.Recordable ∧ outcome.Recordable
      (ReceiverLab.transportLib float parsedateToDatetime hmacSha256Hex) clock.finished := by
  have hsecret := (trace_secret (reaches_sound hr).trace).2 webhook hw
  rw [← sendWebhook_storable_iff w.settings.workerRetryAfterCapSeconds (w := webhook)
    hsecret isText_decodeReplace hstart fun n content header h => (hcode n content header h).1]
  constructor
  · rintro ⟨result, hsend, ⟨db', hrun, hrec, -⟩, -⟩
    exact ⟨result, hsend, (finalize_recorded_iff hr hw hd hf).mp ⟨db', hrun, hrec⟩⟩
  · rintro ⟨result, hsend, hstore⟩
    obtain ⟨db', hrun, hrec⟩ := (finalize_recorded_iff hr hw hd hf).mpr hstore
    refine ⟨result, hsend, ⟨db', hrun, hrec, ?_⟩, ?_⟩
    · rintro n content header rfl hlow hhigh
      refine hrec.delivered ?_
      obtain ⟨headers, ⟨n', content', header', hpost, hclass, -⟩ | ⟨hpost, -⟩⟩ :=
        sendWebhook_cases hsend
      · cases hpost
        rw [classifyStatusCode_succeeded.mpr ⟨hlow, hhigh⟩] at hclass
        exact (Except.ok.inj hclass).symm
      · exact absurd rfl (hpost n content header)
    · intro ls' s' c x r e s'' hc hmem hreq hx
      obtain ⟨-, -, hraises⟩ := reaches_fail (hr.trans hc) hmem hx
      rw [hreq] at hraises
      exact hraises.2 ⟨hstore, hf⟩

namespace Sample

/-- A worker holds the lease of the only delivery. -/
theorem leased_reaches : ∃ ls s d, Reaches lib ls s ∧ webhook 5 4 1 ∈ issued (history ls) ∧
    d ∈ ownedDeliveries (worker "a") (webhook 5 4 1) s.db := by
  have hplay : (Sys.play (Request.code lib) Ordinary [] (.idle Db.empty)
      (Sys.alone 0 register 2 ++ Sys.alone 1 (publish 2 3) 9 ++
        Sys.alone 2 (claim "a" (epoch + 1) 4 5) 12)).any (fun p =>
      webhook 5 4 1 ∈ issued (history p.1) &&
        !(ownedDeliveries (worker "a") (webhook 5 4 1) p.2.db).isEmpty) = true := by
    decide +kernel
  obtain ⟨ls, s, hr, h⟩ := Sys.exists_run hplay
  simp only [Bool.and_eq_true, decide_eq_true_eq, Bool.not_eq_true', List.isEmpty_eq_false_iff] at h
  obtain ⟨d, hd⟩ := List.exists_mem_of_ne_nil _ h.2
  exact ⟨ls, s, d, hr, h.1, hd⟩

theorem clock_recordable : clock.Recordable := by
  refine ⟨?_, ?_, ?_⟩ <;> decide +kernel

theorem representable_clock : representable clock.started = true := by
  norm_num [representable, clock, epoch]

end Sample

/-- A plain answer to the holder of a lease is recorded as delivered. -/
theorem outcome_recorded_of_plain : ∃ s result db', sendWebhook Sample.dates
      (Sample.worker "a").settings.workerRetryAfterCapSeconds (Sample.webhook 5 4 1)
      (fun _ _ => .response 200 [111, 107] none) Sample.clock = .ok result ∧
    ((Sample.worker "a").finalize (Sample.webhook 5 4 1) result ⟨Sample.epoch + 4, 1⟩).run s =
      .ok (true, db') := by
  obtain ⟨ls, s, d, hr, hw, hd⟩ := Sample.leased_reaches
  obtain ⟨result, hsend, ⟨db', hrun, -⟩, -⟩ := (outcome_recorded_iff hr hw hd _ _ _
    (.response 200 [111, 107] none) Sample.clock ⟨Sample.epoch + 4, 1⟩ (by norm_num [FinalizeDraw.Fair])
    Sample.representable_clock (by rintro n content header ⟨⟩; norm_num)).mpr
    ⟨Sample.clock_recordable, by norm_num, by decide, by simp [DatesInRange]⟩
  exact ⟨s.db, result, db', hsend, hrun⟩

/-- A 200 whose body holds a zero byte cannot be recorded by the holder of the
lease. -/
theorem zero_byte_unrecorded : ∃ ls s d, Reaches Sample.lib ls s ∧
    Sample.webhook 5 4 1 ∈ issued (history ls) ∧
    d ∈ ownedDeliveries (Sample.worker "a") (Sample.webhook 5 4 1) s.db ∧
    ¬∃ result db', sendWebhook Sample.dates
      (Sample.worker "a").settings.workerRetryAfterCapSeconds (Sample.webhook 5 4 1)
      (fun _ _ => .response 200 [111, 107, 0] none) Sample.clock = .ok result ∧
    ((Sample.worker "a").finalize (Sample.webhook 5 4 1) result ⟨Sample.epoch + 4, 1⟩).run s.db =
      .ok (true, db') ∧ Recorded (Sample.webhook 5 4 1) result db' := by
  obtain ⟨ls, s, d, hr, hw, hd⟩ := Sample.leased_reaches
  refine ⟨ls, s, d, hr, hw, hd, ?_⟩
  rintro ⟨result, db', hsend, hrun, hrec⟩
  have hstore := (finalize_recorded_iff hr hw hd (by norm_num [FinalizeDraw.Fair])).mp
    ⟨db', hrun, hrec⟩
  have hrecordable := (sendWebhook_storable_iff _ (by decide) isText_decodeReplace
    Sample.representable_clock (by rintro n content header ⟨⟩; norm_num)).mp ⟨result, hsend, hstore⟩
  exact absurd hrecordable.2.2.1 (by decide)

end EventHarbor
