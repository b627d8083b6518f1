import EventHarbor.ReceiverLab.Api
import EventHarbor.Serialization.Canonical

/-!
# Evidence about immutable payloads

What a rejection by Receiver Lab proves about a body, after the answer went
over the wire and was stored as an excerpt.
-/

namespace EventHarbor.ReceiverLab

open EventHarbor

/-! ## From the receiver to the excerpt -/

/-- The transport's library, with the interpreter's own lenient decoder. -/
def transportLib (float : String → Option FloatValue)
    (parsedateToDatetime : String → Except ParseDateError ParsedDate)
    (hmacSha256Hex : Bytes → Bytes → String) : TransportLib where
  float := float
  parsedateToDatetime := parsedateToDatetime
  decodeReplace := fun bytes => String.ofList (decodeReplace bytes)
  hmacSha256Hex := hmacSha256Hex

/-- `json.loads` on a string; an excerpt is too short for its plain `ValueError`. -/
def loadsText (floatOf : List Char → PyFloat) (text : String) : Option Json :=
  (Json.loads floatOf (PyStr.ofString text)).toOption

/-- The object of a `JSONResponse`. -/
def responseObject (code detail : String) : Json :=
  .obj [(PyStr.ofString "code", .str (PyStr.ofString code)),
    (PyStr.ofString "detail", .str (PyStr.ofString detail))]

theorem decodeReplace_cons {b : UInt8} (h : b.toNat < 0x80) (rest : Bytes) :
    decodeReplace (b :: rest) = Char.ofNat b.toNat :: decodeReplace rest := by
  have hlen : utf8Length b = 1 := by simp [utf8Length, h]
  rw [decodeReplace]
  exact hlen

/-- ASCII text survives the wire. -/
theorem decodeReplace_ascii {s : PyStr} (h : ∀ c ∈ s, c.val < 0x80) :
    PyStr.ofChars (decodeReplace (s.flatMap fun c => String.utf8EncodeChar (Char.ofNat c.val))) =
      s := by
  induction s with
  | nil => rfl
  | cons c s ih =>
    have hc := h c (List.mem_cons_self ..)
    have hbyte : (UInt8.ofNat c.val).toNat = c.val := by
      rw [UInt8.toNat_ofNat']
      omega
    rw [List.flatMap_cons, utf8EncodeChar_ascii hc, List.cons_append, List.nil_append,
      decodeReplace_cons (by omega), hbyte]
    have hchar : CodePoint.ofChar (Char.ofNat c.val) = c := by
      have hsurr : c.isSurrogate = false := by
        simp only [CodePoint.isSurrogate, Bool.and_eq_false_iff, decide_eq_false_iff_not]
        omega
      exact Fin.ext (CodePoint.toNat_char hsurr)
    rw [PyStr.ofChars, List.map_cons, hchar]
    exact congrArg (c :: ·) (ih fun d hd => h d (List.mem_cons_of_mem c hd))

/-- A response whose text is short and ASCII. -/
def wireSafe (code detail : String) : Bool :=
  let text := (responseObject code detail).flat fun _ => []
  text.all (·.val < 0x80) && text.length ≤ 2048

/-- The excerpt of a response is read back as the response. -/
theorem loadsText_excerpt (floatOf : List Char → PyFloat) {code detail : String}
    (h : wireSafe code detail = true) :
    loadsText floatOf (String.ofList (decodeReplace ((responseBody code detail).take 2048))) =
      some (responseObject code detail) := by
  obtain ⟨hascii, hlen⟩ := Bool.and_eq_true_iff.mp h
  simp only [List.all_eq_true, decide_eq_true_eq] at hascii hlen
  generalize htext : (responseObject code detail).flat (fun _ => []) = text at hascii hlen
  have hplain : Plain text := by
    intro c hc
    have := hascii c hc
    simp only [CodePoint.isSurrogate, Bool.and_eq_false_iff, decide_eq_false_iff_not]
    omega
  have hbody : responseBody code detail =
      text.flatMap fun c => String.utf8EncodeChar (Char.ofNat c.val) := by
    have hencode : encodeUtf8 text = some _ := encodeUtf8_eq_some.mpr ⟨hplain, rfl⟩
    rw [show responseBody code detail = (encodeUtf8 text).getD [] by rw [← htext]; rfl, hencode]
    rfl
  have hshort : (responseBody code detail).length = text.length := by
    rw [hbody, List.length_flatMap]
    rw [List.map_congr_left fun c hc => by rw [utf8EncodeChar_ascii (hascii c hc)]]
    simp
  have hreads : ReadsBack floatOf (fun _ => []) (responseObject code detail) := by
    have hkeys : [PyStr.ofString "code", PyStr.ofString "detail"].Nodup := by decide
    refine .obj ?_ hkeys
    simp only [List.forall_mem_cons]
    exact ⟨.str _, .str _, by simp⟩
  have hload := hreads.loads
  rw [htext] at hload
  rw [loadsText, PyStr.ofString, String.toList_ofList, List.take_of_length_le (by omega), hbody,
    decodeReplace_ascii hascii, hload]
  rfl

/-! ## Validation errors -/

/-- Every rejection the contracts can produce. -/
def contractErrors (eventType : String) (contract : ReceiverContract) : List (String × String) :=
  ("wrong_receiver_route", s!"{eventType} must be sent to /webhooks/{contract.route}.") ::
    contract.requiredText.map (fun field => (s!"missing_{field}", s!"data.{field} is required.")) ++
    contract.requiredPositiveInteger.map fun field =>
      (s!"invalid_{field}", s!"data.{field} must be a positive integer.")

/-- Every rejection. -/
def validationErrors : List (String × String) :=
  [("invalid_json", "The webhook body must be valid JSON."),
   ("invalid_payload", "The webhook body must be a JSON object."),
   ("unsupported_event_type", "type must name a Receiver Lab event contract."),
   ("invalid_data", "data must be a JSON object."),
   ("invalid_currency", "data.currency must be a three-letter code.")] ++
    receiverContracts.flatMap fun c => contractErrors c.1 c.2

/-- The code makes an unchanged replay pointless. -/
def blocks (code : String) : Bool :=
  PyStr.ofString "missing_" <+: PyStr.ofString code ||
    PyStr.ofString code ∈ receiverPayloadErrorCodes.map PyStr.ofString

/-- An `order.paid` event whose only fault so far is its amount. -/
def amountRejected (loads : Bytes → Except LoadsError Json) (body : Bytes)
    (receiverChannel : Option String) : Bool :=
  match loads body with
  | .ok (.obj payload) =>
    match Json.lookup payload "type", Json.lookup payload "data" with
    | some (.str eventType), some (.obj data) =>
      eventType = PyStr.ofString "order.paid" &&
      (receiverChannel = none || receiverChannel = some "orders") &&
      !blankText (Json.lookup data "order_id") && !blankText (Json.lookup data "customer_id") &&
      !blankText (Json.lookup data "currency") &&
      notPositiveInteger (Json.lookup data "amount_cents")
    | _, _ => false
  | _ => false

theorem wireSafe_validationErrors : ∀ e ∈ validationErrors, wireSafe e.1 e.2 = true := by
  decide

/-- One rejection is missing from the list of the replay command. -/
theorem blocks_validationErrors : ∀ e ∈ validationErrors,
    blocks e.1 = true ∨ e.1 = "wrong_receiver_route" ∨ e.1 = "invalid_amount_cents" := by
  decide

theorem not_blocks_amount : blocks "invalid_amount_cents" = false := by decide

theorem contractOf_mem {payload : List (PyStr × Json)} {c : String × ReceiverContract}
    (h : contractOf payload = some c) : c ∈ receiverContracts ∧
      Json.lookup payload "type" = some (.str (PyStr.ofString c.1)) := by
  unfold contractOf at h
  split at h
  · rename_i eventType htype
    refine ⟨List.mem_of_find?_eq_some h, ?_⟩
    have heq := List.find?_some h
    rw [htype, ← of_decide_eq_true heq]
  · cases h

theorem dataError_cases {eventType : String} {contract : ReceiverContract}
    {data : List (PyStr × Json)} {e : String × String}
    (h : dataError eventType contract data = some e) :
    (∃ f ∈ contract.requiredText, e = (s!"missing_{f}", s!"data.{f} is required.")) ∨
    ((∀ f ∈ contract.requiredText, blankText (Json.lookup data f) = false) ∧
      ∃ f ∈ contract.requiredPositiveInteger, notPositiveInteger (Json.lookup data f) = true ∧
        e = (s!"invalid_{f}", s!"data.{f} must be a positive integer.")) ∨
    e = ("invalid_currency", "data.currency must be a three-letter code.") := by
  unfold dataError at h
  rcases Option.or_eq_some_iff.mp h with htext | ⟨htext, hrest⟩
  · obtain ⟨f, hf, hfe⟩ := List.exists_of_findSome?_eq_some htext
    unfold textError at hfe
    split at hfe
    · exact .inl ⟨f, hf, (Option.some.inj hfe).symm⟩
    · cases hfe
  rcases Option.or_eq_some_iff.mp hrest with hint | ⟨-, hcurrency⟩
  · refine .inr (.inl ⟨fun f hf => ?_, ?_⟩)
    · have hnone := List.findSome?_eq_none_iff.mp htext f hf
      simpa [textError] using hnone
    · obtain ⟨f, hf, hfe⟩ := List.exists_of_findSome?_eq_some hint
      unfold integerError at hfe
      split at hfe
      · rename_i hbad
        exact ⟨f, hf, hbad, (Option.some.inj hfe).symm⟩
      · cases hfe
  · refine .inr (.inr ?_)
    unfold currencyError at hcurrency
    split_ifs at hcurrency
    split at hcurrency
    · split_ifs at hcurrency
      exact (Option.some.inj hcurrency).symm
    · exact (Option.some.inj hcurrency).symm

theorem mem_validationErrors {c : String × ReceiverContract} (hc : c ∈ receiverContracts)
    {e : String × String} (he : e ∈ contractErrors c.1 c.2) : e ∈ validationErrors :=
  List.mem_append_right _ (List.mem_flatMap.mpr ⟨c, hc, he⟩)

/-- Only one contract has an amount. -/
theorem amount_contract : ∀ c ∈ receiverContracts, ∀ f ∈ c.2.requiredPositiveInteger,
    s!"invalid_{f}" = "invalid_amount_cents" → c.1 = "order.paid" ∧ c.2.route = "orders" ∧
      c.2.requiredText = ["order_id", "customer_id", "currency"] ∧ f = "amount_cents" := by
  decide

theorem missing_ne_amount : ∀ c ∈ receiverContracts, ∀ f ∈ c.2.requiredText,
    s!"missing_{f}" ≠ "invalid_amount_cents" := by
  decide

section Validation

variable {loads : Bytes → Except LoadsError Json} {body : Bytes} {receiverChannel : Option String}
  {unknown : Bool} {e : String × String}

theorem contractError_cases {payload : List (PyStr × Json)} {c : String × ReceiverContract}
    (hload : loads body = .ok (.obj payload)) (hc : contractOf payload = some c)
    (h : contractError c.1 c.2 receiverChannel payload = some e) :
    e ∈ validationErrors ∧
      (e.1 = "invalid_amount_cents" → amountRejected loads body receiverChannel = true) := by
  obtain ⟨hmem, htype⟩ := contractOf_mem hc
  unfold contractError at h
  split at h
  · cases h
    have hne : "wrong_receiver_route" ≠ "invalid_amount_cents" := by decide
    exact ⟨mem_validationErrors hmem (List.mem_cons_self ..), fun heq => absurd heq hne⟩
  rename_i hroute
  split at h
  · rename_i data hdata
    rcases dataError_cases h with ⟨f, hf, rfl⟩ | ⟨htext, f, hf, hbad, rfl⟩ | rfl
    · refine ⟨mem_validationErrors hmem (List.mem_append_left _ (List.mem_cons_of_mem _ ?_)),
        fun heq => absurd heq (missing_ne_amount c hmem f hf)⟩
      exact List.mem_map_of_mem hf
    · refine ⟨mem_validationErrors hmem (List.mem_append_right _ (List.mem_map_of_mem hf)),
        fun heq => ?_⟩
      obtain ⟨hname, hr, hfields, rfl⟩ := amount_contract c hmem f hf heq
      rw [hfields] at htext
      rw [hname] at htype
      rw [hr] at hroute
      have hchannel : receiverChannel = none ∨ receiverChannel = some "orders" := by
        cases receiverChannel with
        | none => exact .inl rfl
        | some channel => exact .inr (by simpa using hroute)
      simp only [List.forall_mem_cons] at htext
      simp [amountRejected, hload, htype, hdata, hchannel, htext.1, htext.2.1, htext.2.2.1, hbad]
    · exact ⟨by decide, fun heq => absurd heq (by decide)⟩
  · cases h
    exact ⟨by decide, fun heq => absurd heq (by decide)⟩

/-- A rejection is one of the list, and it is about the amount only when the
amount is what is wrong. -/
theorem payloadValidationError_cases
    (h : payloadValidationError loads body receiverChannel unknown = .ok (some e)) :
    e ∈ validationErrors ∧
      (e.1 = "invalid_amount_cents" → amountRejected loads body receiverChannel = true) := by
  unfold payloadValidationError at h
  split at h
  · cases h
  · cases h
    exact ⟨by decide, fun heq => absurd heq (by decide)⟩
  · rename_i payload hload
    split at h
    · split at h
      · cases h
        exact ⟨by decide, fun heq => absurd heq (by decide)⟩
      · cases h
    · rename_i eventType contract hc
      exact contractError_cases hload hc (Except.ok.inj h)
  · cases h
    exact ⟨by decide, fun heq => absurd heq (by decide)⟩

/-- A wrong amount is reported whatever the configuration. -/
theorem payloadValidationError_amount (h : amountRejected loads body receiverChannel = true) :
    payloadValidationError loads body receiverChannel unknown =
      .ok (some ("invalid_amount_cents", "data.amount_cents must be a positive integer.")) := by
  unfold amountRejected at h
  split at h
  · rename_i payload hload
    split at h
    · rename_i eventType data htype hdata
      simp only [Bool.and_eq_true, Bool.or_eq_true, decide_eq_true_eq, Bool.not_eq_true'] at h
      obtain ⟨⟨⟨⟨⟨rfl, hchannel⟩, horder⟩, hcustomer⟩, hcurrency⟩, hamount⟩ := h
      have hcontract : contractOf payload = receiverContracts.head? := by
        simp only [contractOf, htype]
        exact List.find?_cons_of_pos (by decide)
      have hroute : ¬(receiverChannel.isSome && receiverChannel ≠ some "orders") = true := by
        rcases hchannel with rfl | rfl <;> decide
      have herror : dataError "order.paid"
          ⟨"orders", ["order_id", "customer_id", "currency"], ["amount_cents"]⟩ data =
          some ("invalid_amount_cents", "data.amount_cents must be a positive integer.") := by
        have htexts : ["order_id", "customer_id", "currency"].findSome? (textError data) = none := by
          simp [textError, horder, hcustomer, hcurrency]
        have hinteger : integerError data "amount_cents" =
            some ("invalid_amount_cents", "data.amount_cents must be a positive integer.") := by
          rw [integerError, if_pos hamount]
          decide
        simp [dataError, htexts, hinteger]
      simp only [payloadValidationError, hload, hcontract, receiverContracts, List.head?_cons,
        contractError, if_neg hroute, hdata, herror]
    · cases h
  · cases h

/-- Without an unknown type on the generic route the configuration does not matter. -/
theorem payloadValidationError_unknown {unknown' : Bool}
    (h : ∀ payload, loads body = .ok (.obj payload) → (contractOf payload).isSome = true) :
    payloadValidationError loads body receiverChannel unknown =
      payloadValidationError loads body receiverChannel unknown' := by
  unfold payloadValidationError
  split
  · rfl
  · rfl
  · rename_i payload hload
    obtain ⟨c, hc⟩ := Option.isSome_iff_exists.mp (h payload hload)
    simp only [hc]
  · rfl

end Validation

/-! ## Answers -/

/-- The status a client sees. -/
def statusOf : Handled → ℤ
  | .ok r => r.statusCode
  | .error _ => 500

/-- The receiver as the endpoint of a webhook. -/
def answers (lib : ReceiverLib) (run : ReceiverRunState) (w : Webhook) (body : Bytes)
    (_headers : List (String × String)) : HttpOutcome :=
  outcome (run.receive lib { w with body := body }).2

/-- The block code of the evidence that the transport stores. -/
def evidenceCode (floatOf : List Char → PyFloat) (result : AttemptResult) :
    Option ReplayBlockCode :=
  replayBlockCode (loadsText floatOf) result.httpStatusCode result.responseBodyExcerpt

/-- The validation a webhook meets on a run. -/
def validation (lib : ReceiverLib) (run : ReceiverRunState) (body : Bytes)
    (receiverChannel : Option String) : Except LoadsError (Option (String × String)) :=
  payloadValidationError lib.loads body receiverChannel
    (validateUnknown receiverChannel run.configuration)

section Answers

variable {lib : ReceiverLib} {run : ReceiverRunState} {w : Webhook}

theorem scenarioStatus_ne (configuration : ReceiverConfiguration) (attempt : ℕ) :
    scenarioStatus configuration attempt ≠ 400 := by
  unfold scenarioStatus
  split
  · split_ifs <;> decide
  · split_ifs <;> decide
  · decide

/-- A rejection is a 400 that carries its code. -/
theorem receive_rejected {e : String × String}
    (h : validation lib run w.body w.receiverChannel = .ok (some e)) :
    (run.receive lib w).2 = .ok ⟨400, e.1, e.2, none⟩ := by
  rw [validation] at h
  simp [ReceiverRunState.receive, h, responseEvidence]

/-- Only a rejection is a 400. -/
theorem receive_status : statusOf (run.receive lib w).2 = 400 ↔
    ∃ e, validation lib run w.body w.receiverChannel = .ok (some e) := by
  refine ⟨fun h => ?_, fun ⟨e, he⟩ => by rw [receive_rejected he]; rfl⟩
  cases hv : validation lib run w.body w.receiverChannel with
  | error err =>
    rw [validation] at hv
    simp [ReceiverRunState.receive, hv, statusOf] at h
  | ok o =>
    cases o with
    | some e => exact ⟨e, rfl⟩
    | none =>
      rw [validation] at hv
      simp only [ReceiverRunState.receive, hv, statusOf] at h
      exact absurd h (scenarioStatus_ne _ _)

variable {tlib : TransportLib} {floatOf : List Char → PyFloat} {cap : ℚ} {o : OutboundWebhook}
  {clock : AttemptClock} {result : AttemptResult}

variable (floatOf) in
/-- A stored rejection blocks when its code does. -/
theorem evidenceCode_rejected (hlib : tlib.decodeReplace = fun b => String.ofList (decodeReplace b))
    (hsend : sendWebhook tlib cap o (answers lib run w) clock = .ok result) {e : String × String}
    (h : validation lib run o.payloadBytes w.receiverChannel = .ok (some e)) :
    evidenceCode floatOf result =
      if blocks e.1 then some .payloadCorrectionRequired else none := by
  have hanswer : ∀ headers, answers lib run w o.payloadBytes headers =
      .response 400 (responseBody e.1 e.2) none := by
    intro headers
    rw [answers, receive_rejected (w := { w with body := o.payloadBytes }) h]
    rfl
  have hsafe := wireSafe_validationErrors e (payloadValidationError_cases h).1
  obtain ⟨headers, ⟨n, content, retryAfter, hpost, -, hstatus, hexcerpt⟩ | ⟨hno, -⟩⟩ :=
    sendWebhook_cases hsend
  · rw [hanswer, HttpOutcome.response.injEq] at hpost
    obtain ⟨rfl, rfl, -⟩ := hpost
    have hload := loadsText_excerpt floatOf hsafe
    have hlookup : Json.lookup [(PyStr.ofString "code", Json.str (PyStr.ofString e.1)),
        (PyStr.ofString "detail", .str (PyStr.ofString e.2))] "code" =
        some (.str (PyStr.ofString e.1)) := by
      simp [Json.lookup]
    rw [evidenceCode, hstatus, hexcerpt, hlib]
    simp only [replayBlockCode, hload, responseObject, hlookup, blocks, Bool.or_eq_true,
      decide_eq_true_eq]
  · exact absurd (hanswer headers) (hno _ _ _)

variable (lib run w) in
/-- The receiver always answers, with the status of its handler. -/
theorem answers_response (body : Bytes) (headers : List (String × String)) :
    ∃ content retryAfter, answers lib run w body headers =
      .response (statusOf (run.receive lib { w with body := body }).2) content retryAfter := by
  unfold answers outcome
  cases (run.receive lib { w with body := body }).2 with
  | ok r => exact ⟨_, _, rfl⟩
  | error e => exact ⟨_, _, rfl⟩

/-- Evidence that blocks comes from a rejection. -/
theorem rejected_of_evidenceCode
    (hsend : sendWebhook tlib cap o (answers lib run w) clock = .ok result)
    (h : evidenceCode floatOf result = some .payloadCorrectionRequired) :
    ∃ e, validation lib run o.payloadBytes w.receiverChannel = .ok (some e) := by
  have hblocked : result.httpStatusCode = some 400 := by
    unfold evidenceCode replayBlockCode at h
    split at h
    · assumption
    · cases h
  obtain ⟨headers, ⟨n, content, retryAfter, hpost, -, hstatus, -⟩ | ⟨hno, -⟩⟩ :=
    sendWebhook_cases hsend
  · obtain ⟨content', retryAfter', hanswer⟩ :=
      answers_response lib run w o.payloadBytes headers
    rw [hanswer, HttpOutcome.response.injEq] at hpost
    rw [hstatus, Option.some.injEq] at hblocked
    exact receive_status.mp (hpost.1.trans hblocked)
  · obtain ⟨content', retryAfter', hanswer⟩ := answers_response lib run w o.payloadBytes headers
    exact absurd hanswer (hno _ _ _)

variable (tlib cap) in
/-- A rejection is delivered to a worker that can sign. -/
theorem sendWebhook_of_rejected {c : AttemptClock} {e : String × String}
    (h : validation lib run o.payloadBytes w.receiverChannel = .ok (some e))
    (hsecret : o.signingSecret ≠ []) (hclock : 0 ≤ c.requestTimestamp)
    (hdecimal : hasDecimal c.requestTimestamp.toNat = true) :
    ∃ result, sendWebhook tlib cap o (answers lib run w) c = .ok result := by
  have hanswer : ∀ headers, answers lib run w o.payloadBytes headers =
      .response 400 (responseBody e.1 e.2) none := by
    intro headers
    rw [answers, receive_rejected (w := { w with body := o.payloadBytes }) h]
    rfl
  have hsign : ∃ signature,
      signPayload tlib o.signingSecret c.requestTimestamp o.payloadBytes = .ok signature := by
    rw [signPayload, if_neg hsecret, if_neg (by omega), if_neg (by rw [hdecimal]; decide)]
    exact ⟨_, rfl⟩
  obtain ⟨signature, hsign⟩ := hsign
  have hclass : classifyStatusCode 400 = .ok .terminalFailure := rfl
  simp only [sendWebhook, hsign, bind, Except.bind, hanswer, hclass]
  exact ⟨_, rfl⟩

end Answers

/-! ## What the evidence proves -/

/-- An object whose type names no contract. -/
def unknownType (loads : Bytes → Except LoadsError Json) (body : Bytes) : Bool :=
  match loads body with
  | .ok (.obj payload) => (contractOf payload).isNone
  | _ => false

/-- A webhook with no headers. -/
def plainWebhook (body : Bytes) (receiverChannel : Option String) : Webhook where
  body := body
  receiverChannel := receiverChannel
  eventId := none
  deliveryId := none
  eventType := none
  deliveryAttempt := none
  requestTimestamp := none
  signature := none
  demoRunId := none
  receivedAt := 0

/-- A webhook to send, signed with some secret. -/
def plainOutbound (body : Bytes) : OutboundWebhook where
  attemptId := 0
  deliveryId := 0
  eventId := 0
  eventType := "order.paid"
  endpointUrl := "http://receiver-lab:8080/webhooks"
  signingSecret := [1]
  payloadBytes := body
  attemptNumber := 1
  leaseToken := 0
  demoRunId := none

namespace Sample

/-- `json.loads` on ASCII bytes. -/
def receiverLib : ReceiverLib where
  loads := fun body => Json.loads (fun _ => ⟨0⟩) (PyStr.ofChars (decodeReplace body))
  sha256Hex := fun body => String.ofList (body.flatMap fun b => hexDigits 2 b.toNat)

def transport : TransportLib :=
  transportLib (fun _ => none) (fun _ => .error .invalid) fun _ _ => ""

/-- An order that is complete but for its amount. -/
def freeOrder : Bytes :=
  ("\x7b\"type\":\"order.paid\",\"data\":\x7b\"order_id\":\"o-1\",\"customer_id\":\"c-1\"," ++
    "\"currency\":\"EUR\",\"amount_cents\":0\x7d\x7d").toUTF8.toList

/-- An order without a customer. -/
def strayOrder : Bytes :=
  ("\x7b\"type\":\"order.paid\",\"data\":\x7b\"order_id\":\"o-1\"\x7d\x7d").toUTF8.toList

/-- An event that no contract describes. -/
def unknownEvent : Bytes := "\x7b\"type\":\"order.refunded\"\x7d".toUTF8.toList

/-- A call that takes the first second of 1970. -/
def firstSecond : AttemptClock := ⟨0, 1, 0, 1, AttemptClock.finite_of_second⟩

/-- What the transport stores when a run answers a body. -/
def stored (run : ReceiverRunState) (body : Bytes) (receiverChannel : Option String) :
    Except Error AttemptResult :=
  sendWebhook transport 300 (plainOutbound body)
    (answers receiverLib run (plainWebhook body receiverChannel)) firstSecond

end Sample

section Evidence

variable (float : String → Option FloatValue) (parsedateToDatetime : String → Except ParseDateError ParsedDate)
  (hmacSha256Hex : Bytes → Bytes → String) (floatOf : List Char → PyFloat) (lib : ReceiverLib)

/-- The stored rejections that are about the body block its replay, unless the
amount of an order is what is wrong. -/
theorem payload_evidence_complete (run : ReceiverRunState) (w : Webhook) (cap : ℚ)
    (o : OutboundWebhook) (clock : AttemptClock) (result : AttemptResult)
    (hsend : sendWebhook (transportLib float parsedateToDatetime hmacSha256Hex) cap o
      (answers lib run w) clock = .ok result) :
    (∀ code detail, validation lib run o.payloadBytes w.receiverChannel = .ok (some (code, detail)) →
      code ≠ "wrong_receiver_route" →
      evidenceCode floatOf result = some .payloadCorrectionRequired) ↔
    amountRejected lib.loads o.payloadBytes w.receiverChannel = false := by
  constructor
  · intro hall
    by_contra hamount
    rw [Bool.not_eq_false] at hamount
    have hv : validation lib run o.payloadBytes w.receiverChannel = .ok (some _) :=
      payloadValidationError_amount hamount
    have hcode := evidenceCode_rejected floatOf rfl hsend hv
    rw [hall _ _ hv (by decide), not_blocks_amount] at hcode
    cases hcode
  · intro hamount code detail hv hroute
    obtain ⟨hmem, himp⟩ := payloadValidationError_cases hv
    rw [evidenceCode_rejected floatOf rfl hsend hv, if_pos]
    rcases blocks_validationErrors _ hmem with hblocks | hcode | hcode
    · exact hblocks
    · exact absurd hcode hroute
    · rw [himp hcode] at hamount
      cases hamount

/-- Evidence that blocks proves the body invalid for every configuration, unless
an unknown type came in on the generic route. -/
theorem payload_evidence_sound (body : Bytes) (receiverChannel : Option String) :
    ((∃ (run : ReceiverRunState) (w : Webhook) (cap : ℚ) (o : OutboundWebhook)
        (clock : AttemptClock) (result : AttemptResult),
        w.receiverChannel = receiverChannel ∧ o.payloadBytes = body ∧
        sendWebhook (transportLib float parsedateToDatetime hmacSha256Hex) cap o
          (answers lib run w) clock = .ok result ∧
        evidenceCode floatOf result = some .payloadCorrectionRequired) →
      ∀ (run : ReceiverRunState) (w : Webhook), w.body = body →
        w.receiverChannel = receiverChannel → statusOf (run.receive lib w).2 = 400) ↔
    ¬(receiverChannel = none ∧ unknownType lib.loads body = true) := by
  constructor
  · rintro hsound ⟨rfl, hunknown⟩
    have hrejects : ∀ configuration : ReceiverConfiguration,
        validation lib { configuration := configuration } body none =
          if configuration.mode = .permanentFailure then
            .ok (some ("unsupported_event_type", "type must name a Receiver Lab event contract."))
          else .ok none := by
      intro configuration
      unfold unknownType at hunknown
      split at hunknown
      · rename_i payload hload
        simp [validation, payloadValidationError, hload, Option.isNone_iff_eq_none.mp hunknown,
          validateUnknown]
      · cases hunknown
    have hv := hrejects { mode := .permanentFailure }
    rw [if_pos rfl] at hv
    obtain ⟨result, hsend⟩ := sendWebhook_of_rejected
      (transportLib float parsedateToDatetime hmacSha256Hex) 0 (w := plainWebhook body none)
      (o := plainOutbound body) (c := Sample.firstSecond) hv (by simp [plainOutbound])
      (by decide +kernel) (by decide +kernel)
    have hcode := evidenceCode_rejected floatOf rfl hsend hv
    have hstatus := hsound ⟨_, _, 0, _, _, result, rfl, rfl, hsend,
      hcode.trans (if_pos (by decide))⟩ {} (plainWebhook body none) rfl rfl
    obtain ⟨e, he⟩ := receive_status.mp hstatus
    have hnone := hrejects {}
    rw [if_neg (by decide)] at hnone
    cases hnone.symm.trans he
  · rintro hknown ⟨run, w, cap, o, clock, result, rfl, rfl, hsend, hcode⟩ run' w' hbody hchannel
    obtain ⟨e, he⟩ := rejected_of_evidenceCode hsend hcode
    refine receive_status.mpr ⟨e, ?_⟩
    rw [hbody, hchannel, ← he]
    cases hw : w.receiverChannel with
    | some channel => rfl
    | none =>
      refine payloadValidationError_unknown fun payload hload => ?_
      by_contra hnone
      refine hknown ⟨hw, ?_⟩
      simpa [unknownType, hload] using hnone

end Evidence

/-- An order without a customer is blocked. -/
theorem payload_evidence_complete_of_stray : ∃ result,
    Sample.stored {} Sample.strayOrder none = .ok result ∧
      evidenceCode (fun _ => ⟨0⟩) result = some .payloadCorrectionRequired := by
  obtain ⟨result, hsend⟩ : ∃ result, Sample.stored {} Sample.strayOrder none = .ok result :=
    sendWebhook_of_rejected Sample.transport 300 (e := ("missing_customer_id",
      "data.customer_id is required.")) (by decide +kernel) (by decide) (by decide +kernel)
      (by decide +kernel)
  refine ⟨result, hsend, ?_⟩
  exact (payload_evidence_complete _ _ _ (fun _ => ⟨0⟩) _ _ _ _ _ _ result hsend).mpr
    (by decide +kernel) "missing_customer_id" "data.customer_id is required." (by decide +kernel)
    (by decide)

/-- A free order is rejected, and its replay is not blocked. -/
theorem free_order_not_blocked :
    ¬∀ result, Sample.stored {} Sample.freeOrder none = .ok result → ∀ code detail,
      validation Sample.receiverLib {} Sample.freeOrder none = .ok (some (code, detail)) →
      code ≠ "wrong_receiver_route" →
      evidenceCode (fun _ => ⟨0⟩) result = some .payloadCorrectionRequired := by
  intro hall
  have hv : validation Sample.receiverLib {} Sample.freeOrder none =
      .ok (some ("invalid_amount_cents", "data.amount_cents must be a positive integer.")) := by
    decide +kernel
  obtain ⟨result, hsend⟩ : ∃ result, Sample.stored {} Sample.freeOrder none = .ok result :=
    sendWebhook_of_rejected Sample.transport 300 hv (by decide) (by decide +kernel)
      (by decide +kernel)
  have hcode := evidenceCode_rejected (fun _ => ⟨0⟩) rfl hsend hv
  rw [hall result hsend _ _ hv (by decide), not_blocks_amount] at hcode
  cases hcode

/-- An unknown event is blocked by one configuration and accepted by another. -/
theorem unknown_event_accepted :
    ¬∀ run run' : ReceiverRunState,
      (Sample.stored run Sample.unknownEvent none).toOption.bind (evidenceCode fun _ => ⟨0⟩) =
        some .payloadCorrectionRequired →
      statusOf (run'.receive Sample.receiverLib (plainWebhook Sample.unknownEvent none)).2 = 400 := by
  intro hall
  have hblocked := hall { configuration := { mode := .permanentFailure } } {} (by decide +kernel)
  have haccepted : statusOf (({} : ReceiverRunState).receive Sample.receiverLib
      (plainWebhook Sample.unknownEvent none)).2 = 200 := by
    decide +kernel
  rw [haccepted] at hblocked
  cases hblocked

end EventHarbor.ReceiverLab
