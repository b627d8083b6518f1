import EventHarbor.ReceiverLab.Exchange
import EventHarbor.Serialization.Uuid
import Mathlib.Data.List.Basic

/-!
# Signatures

A signature covers the decimal text of a timestamp, a dot and the payload. The
digits contain no dot, so the first dot ends the timestamp, whatever the payload
contains, and one signature verifies for one request.
-/

namespace EventHarbor

/-! ## The signed content -/

theorem byte_of_digit : ∀ d < 10, UInt8.ofNat (Nat.digitChar d).toNat ≠ UInt8.ofNat '.'.toNat ∧
    Char.ofNat (UInt8.ofNat (Nat.digitChar d).toNat).toNat = Nat.digitChar d := by
  decide

theorem exists_digit {n : ℕ} {c : Char} (h : c ∈ Nat.toDigits 10 n) :
    ∃ d < 10, c = Nat.digitChar d := by
  induction n using Nat.strongRecOn with
  | ind n ih =>
    by_cases hn : n < 10
    · rw [Nat.toDigits_of_lt_base hn] at h
      exact ⟨n, hn, List.mem_singleton.mp h⟩
    · rw [Nat.toDigits_of_base_le (by omega) (by omega)] at h
      rcases List.mem_append.mp h with h | h
      · exact ih (n / 10) (by omega) h
      · exact ⟨n % 10, Nat.mod_lt _ (by omega), List.mem_singleton.mp h⟩

theorem dot_not_mem_decimalBytes (n : ℕ) : UInt8.ofNat '.'.toNat ∉ decimalBytes n := by
  intro h
  obtain ⟨c, hc, hdot⟩ := List.mem_map.mp h
  obtain ⟨d, hd, rfl⟩ := exists_digit hc
  exact (byte_of_digit d hd).1 hdot

/-- The digits are read back from their bytes. -/
theorem map_decimalBytes (n : ℕ) :
    (decimalBytes n).map (fun b => Char.ofNat b.toNat) = Nat.toDigits 10 n := by
  calc (decimalBytes n).map (fun b => Char.ofNat b.toNat)
      = (Nat.toDigits 10 n).map fun c => Char.ofNat (UInt8.ofNat c.toNat).toNat := List.map_map
    _ = (Nat.toDigits 10 n).map id := by
        refine List.map_congr_left fun c hc => ?_
        obtain ⟨d, hd, rfl⟩ := exists_digit hc
        exact (byte_of_digit d hd).2
    _ = Nat.toDigits 10 n := List.map_id _

theorem decimalBytes_inj {m n : ℕ} (h : decimalBytes m = decimalBytes n) : m = n := by
  have hdigits : Nat.toDigits 10 m = Nat.toDigits 10 n := by
    rw [← map_decimalBytes, h, map_decimalBytes]
  calc m = Nat.ofDigitChars 10 (Nat.toDigits 10 m) 0 := Nat.ofDigitChars_ten_toDigits.symm
    _ = Nat.ofDigitChars 10 (Nat.toDigits 10 n) 0 := by rw [hdigits]
    _ = n := Nat.ofDigitChars_ten_toDigits

/-- Two lists split at the first occurrence of an element. -/
theorem append_cons_cancel {α : Type} {a : α} {x y p q : List α} (hx : a ∉ x) (hy : a ∉ y) :
    x ++ a :: p = y ++ a :: q ↔ x = y ∧ p = q := by
  induction x generalizing y with
  | nil =>
    cases y with
    | nil => simp
    | cons b y =>
      have hne : a ≠ b := fun h => hy (h ▸ List.mem_cons_self)
      simp [hne]
  | cons b x ih =>
    cases y with
    | nil =>
      have hne : b ≠ a := fun h => hx (h ▸ List.mem_cons_self)
      simp [hne]
    | cons c y =>
      have hrec := ih (fun h => hx (List.mem_cons_of_mem _ h)) fun h => hy (List.mem_cons_of_mem c h)
      rw [List.cons_append, List.cons_append, List.cons.injEq, List.cons.injEq, hrec, and_assoc]

theorem signedContent_inj {t t' : ℕ} {p p' : Bytes} :
    signedContent t p = signedContent t' p' ↔ t = t' ∧ p = p' := by
  unfold signedContent
  rw [append_cons_cancel (dot_not_mem_decimalBytes t) (dot_not_mem_decimalBytes t')]
  constructor
  · rintro ⟨ht, hp⟩
    exact ⟨decimalBytes_inj ht, hp⟩
  · rintro ⟨rfl, rfl⟩
    exact ⟨rfl, rfl⟩

/-! ## Signing and verifying -/

section Verify

variable {lib : TransportLib} {secret : Bytes}

/-- What a signature is made of. -/
theorem signPayload_natCast (hsecret : secret ≠ []) (t : ℕ) (p : Bytes) :
    (hasDecimal t = true ∧ signPayload lib secret t p =
      .ok s!"v1={lib.hmacSha256Hex secret (signedContent t p)}") ∨
    (hasDecimal t = false ∧ ∃ e, signPayload lib secret t p = .error e) := by
  have ht : ¬((t : ℤ) < 0) := by omega
  unfold signPayload
  rw [if_neg hsecret, if_neg ht, Int.toNat_natCast]
  cases h : hasDecimal t with
  | true => exact .inl ⟨rfl, rfl⟩
  | false => exact .inr ⟨rfl, _, rfl⟩

theorem signPayload_ok_iff (hsecret : secret ≠ []) (t : ℤ) (p : Bytes) :
    (∃ signature, signPayload lib secret t p = .ok signature) ↔
      0 ≤ t ∧ hasDecimal t.toNat = true := by
  by_cases ht : t < 0
  · refine iff_of_false ?_ fun h => absurd h.1 (by omega)
    rintro ⟨signature, h⟩
    rw [signPayload, if_neg hsecret, if_pos ht] at h
    cases h
  · obtain ⟨n, rfl⟩ := Int.eq_ofNat_of_zero_le (Int.not_lt.mp ht)
    rw [Int.toNat_natCast]
    obtain ⟨hdecimal, hok⟩ | ⟨hdecimal, e, herror⟩ := @signPayload_natCast lib _ hsecret n p
    · exact iff_of_true ⟨_, hok⟩ ⟨Int.natCast_nonneg n, hdecimal⟩
    · simp [herror, hdecimal]

theorem toList_signature (digest : String) :
    s!"v1={digest}".toList = 'v' :: '1' :: '=' :: digest.toList := by
  simp [toString]

theorem signature_inj {a b : String} : s!"v1={a}" = s!"v1={b}" ↔ a = b := by
  rw [← String.toList_inj, toList_signature, toList_signature]
  simp [String.toList_inj]

theorem isAscii_signature {digest : String} (h : isAscii digest = true) :
    isAscii s!"v1={digest}" = true := by
  rw [isAscii] at h ⊢
  rw [toList_signature, List.all_cons, List.all_cons, List.all_cons, h]
  decide

variable (hsecret : secret ≠ []) (hinj : Function.Injective (lib.hmacSha256Hex secret))
  (hhex : ∀ content, isAscii (lib.hmacSha256Hex secret content) = true)

include hsecret hinj hhex in
theorem verifySignature_iff {t' : ℕ} {p' : Bytes} {signature : String}
    (hsign : signPayload lib secret t' p' = .ok signature) (t : ℕ) (p : Bytes) :
    verifySignature lib secret t p signature = .ok true ↔ t = t' ∧ p = p' := by
  obtain ⟨hdecimal', hok'⟩ | ⟨-, e, herror⟩ := @signPayload_natCast lib _ hsecret t' p'
  · obtain rfl := Except.ok.inj (hsign.symm.trans hok')
    obtain ⟨hdecimal, hok⟩ | ⟨hdecimal, e, herror⟩ := @signPayload_natCast lib _ hsecret t p
    · rw [← signedContent_inj, ← hinj.eq_iff, ← signature_inj]
      simp only [verifySignature, hok, bind, Except.bind, compareDigest, isAscii_signature (hhex _),
        Bool.and_self, if_true, Except.ok.injEq, decide_eq_true_eq]
    · simp only [verifySignature, herror, bind, Except.bind, reduceCtorEq, false_iff]
      rintro ⟨rfl, -⟩
      rw [hdecimal] at hdecimal'
      cases hdecimal'
  · rw [hsign] at herror
    cases herror

end Verify

/-! ## What the transport emits -/

section Emits

variable (lib : TransportLib) (cap : ℚ) (w : OutboundWebhook) (clock : AttemptClock)

/-- The transport posts this request: the call can return, and it returns what
the answer to this request makes of it. -/
structure Emits (body : Bytes) (headers : List (String × String)) : Prop where
  returns : ∃ post result, sendWebhook lib cap w post clock = .ok result
  answered : ∀ post, sendWebhook lib cap w post clock =
    sendWebhook lib cap w (fun _ _ => post body headers) clock

variable {lib cap w clock}

theorem sendWebhook_timeout {signature : String}
    (hsign : signPayload lib w.signingSecret clock.requestTimestamp w.payloadBytes =
      .ok signature) {post : Bytes → List (String × String) → HttpOutcome} {message : PyStr}
    (hpost : post w.payloadBytes (requestHeaders w clock.requestTimestamp signature) =
      .timeout message) :
    sendWebhook lib cap w post clock =
      .ok (transportFailure "timeout" message clock.requestTimestamp clock) := by
  simp only [sendWebhook, hsign, bind, Except.bind, hpost]
  rfl

theorem sendWebhook_signs {post : Bytes → List (String × String) → HttpOutcome}
    {result : AttemptResult} (h : sendWebhook lib cap w post clock = .ok result) :
    ∃ signature, signPayload lib w.signingSecret clock.requestTimestamp w.payloadBytes =
      .ok signature := by
  unfold sendWebhook at h
  cases hsign : signPayload lib w.signingSecret clock.requestTimestamp w.payloadBytes with
  | error e => simp [hsign, bind, Except.bind] at h
  | ok signature => exact ⟨signature, rfl⟩

/-- The one request of a call. -/
theorem emits_iff {signature : String}
    (hsign : signPayload lib w.signingSecret clock.requestTimestamp w.payloadBytes =
      .ok signature) {body : Bytes} {headers : List (String × String)} :
    Emits lib cap w clock body headers ↔ body = w.payloadBytes ∧
      headers = requestHeaders w clock.requestTimestamp signature := by
  constructor
  · intro h
    by_contra hne
    -- an endpoint that answers this request and no other
    obtain ⟨post, hpost⟩ : ∃ post : Bytes → List (String × String) → HttpOutcome, ∀ b hs,
        post b hs = if b = body ∧ hs = headers then .timeout [97] else .timeout [98] :=
      ⟨_, fun _ _ => rfl⟩
    have hother := hpost w.payloadBytes (requestHeaders w clock.requestTimestamp signature)
    rw [if_neg fun heq => hne ⟨heq.1.symm, heq.2.symm⟩] at hother
    have hthis := hpost body headers
    rw [if_pos ⟨rfl, rfl⟩] at hthis
    have hsame := h.answered post
    rw [sendWebhook_timeout hsign hother, sendWebhook_timeout hsign hthis] at hsame
    have hmessage : some ([98] : PyStr) = some [97] :=
      congrArg AttemptResult.errorMessage (Except.ok.inj hsame)
    exact absurd hmessage (by decide)
  · rintro ⟨rfl, rfl⟩
    refine ⟨⟨fun _ _ => .timeout [], _, sendWebhook_timeout hsign rfl⟩, fun post => ?_⟩
    simp only [sendWebhook, hsign, bind, Except.bind]

end Emits

theorem requestHeaders_timestamp (w : OutboundWebhook) (timestamp : ℤ) (signature : String) :
    ReceiverLab.header (requestHeaders w timestamp signature) "X-EventHarbor-Timestamp" =
      some (toString timestamp) := by
  simp [ReceiverLab.header, requestHeaders]

theorem requestHeaders_signature (w : OutboundWebhook) (timestamp : ℤ) (signature : String) :
    ReceiverLab.header (requestHeaders w timestamp signature) "X-EventHarbor-Signature" =
      some signature := by
  simp [ReceiverLab.header, requestHeaders]

/-! ## What a signature covers -/

/-- One signature verifies for one timestamp and one payload, and what the
transport sends verifies for the time of the call and the stored bytes. -/
theorem signature_binds (lib : TransportLib) (secret : Bytes) (hsecret : secret ≠ [])
    (hinj : Function.Injective (lib.hmacSha256Hex secret))
    (hhex : ∀ content, isAscii (lib.hmacSha256Hex secret content) = true) :
    (∀ (t t' : ℕ) (p p' : Bytes), signedContent t p = signedContent t' p' ↔ t = t' ∧ p = p') ∧
    (∀ (t t' : ℕ) (p p' : Bytes),
      (signPayload lib secret t' p' >>= verifySignature lib secret t p) = .ok true ↔
        t = t' ∧ p = p' ∧ hasDecimal t = true) ∧
    ∀ (cap : ℚ) (w : OutboundWebhook) (clock : AttemptClock), w.signingSecret = secret →
      ((∃ body headers, Emits lib cap w clock body headers) ↔
        0 ≤ clock.requestTimestamp ∧ hasDecimal clock.requestTimestamp.toNat = true) ∧
      ∀ body headers, Emits lib cap w clock body headers →
        body = w.payloadBytes ∧
        ∃ (t' : ℕ) (signature : String), (t' : ℤ) = clock.requestTimestamp ∧
          ReceiverLab.header headers "X-EventHarbor-Timestamp" = some (toString t') ∧
          ReceiverLab.header headers "X-EventHarbor-Signature" = some signature ∧
          ∀ (t : ℕ) (p : Bytes), verifySignature lib secret t p signature = .ok true ↔
            t = t' ∧ p = w.payloadBytes := by
  refine ⟨fun t t' p p' => signedContent_inj, fun t t' p p' => ?_, fun cap w clock hw => ?_⟩
  · obtain ⟨hdecimal, hok⟩ | ⟨hdecimal, e, herror⟩ := @signPayload_natCast lib _ hsecret t' p'
    · rw [hok]
      refine (verifySignature_iff hsecret hinj hhex hok t p).trans ?_
      constructor
      · rintro ⟨rfl, rfl⟩
        exact ⟨rfl, rfl, hdecimal⟩
      · rintro ⟨rfl, rfl, -⟩
        exact ⟨rfl, rfl⟩
    · rw [herror]
      refine iff_of_false (fun h => by cases h) ?_
      rintro ⟨rfl, -, h⟩
      rw [hdecimal] at h
      cases h
  · subst hw
    refine ⟨?_, fun body headers hemits => ?_⟩
    · rw [← @signPayload_ok_iff lib _ hsecret clock.requestTimestamp w.payloadBytes]
      constructor
      · rintro ⟨body, headers, ⟨post, result, hsend⟩, -⟩
        exact sendWebhook_signs hsend
      · rintro ⟨signature, hsign⟩
        exact ⟨_, _, (emits_iff hsign).mpr ⟨rfl, rfl⟩⟩
    · obtain ⟨post, result, hsend⟩ := hemits.returns
      obtain ⟨signature, hsign⟩ := sendWebhook_signs hsend
      obtain ⟨rfl, rfl⟩ := (emits_iff hsign).mp hemits
      obtain ⟨hpos, -⟩ := (signPayload_ok_iff hsecret _ _).mp ⟨signature, hsign⟩
      obtain ⟨t', ht'⟩ := Int.eq_ofNat_of_zero_le hpos
      rw [ht'] at hsign ⊢
      exact ⟨rfl, t', signature, rfl, requestHeaders_timestamp w t' signature,
        requestHeaders_signature w t' signature, verifySignature_iff hsecret hinj hhex hsign⟩

namespace Sample

/-- `b"development-secret"` -/
def signingSecret : Bytes :=
  [100, 101, 118, 101, 108, 111, 112, 109, 101, 110, 116, 45, 115, 101, 99, 114, 101, 116]

/-- An object whose type is `invoice.paid`. -/
def invoiceBytes : Bytes :=
  [123, 34, 116, 121, 112, 101, 34, 58, 34, 105, 110, 118, 111, 105, 99, 101, 46, 112, 97, 105, 100,
    34, 125]

/-- The HMAC of the invoice under `signingSecret`, and no collision elsewhere. -/
def invoiceHmac (_ content : Bytes) : String :=
  if content = signedContent 1700000000 invoiceBytes then
    "0dbd60e4d53625bae9daa0e8b14b70d103bc5590deb60fdad121e2bf9a58ddfa"
  else String.ofList ('x' :: content.flatMap fun b => hexDigits 2 b.toNat)

theorem invoiceHmac_inj (secret : Bytes) : Function.Injective (invoiceHmac secret) := by
  have hfirst : ∀ cs : List Char,
      "0dbd60e4d53625bae9daa0e8b14b70d103bc5590deb60fdad121e2bf9a58ddfa" ≠
        String.ofList ('x' :: cs) := by
    intro cs h
    have hhead : (String.ofList ('x' :: cs)).toList.head? = some '0' := by
      rw [← h]
      rfl
    rw [String.toList_ofList, List.head?_cons] at hhead
    exact absurd hhead (by decide)
  intro content content' h
  unfold invoiceHmac at h
  split at h
  · rename_i hc
    split at h
    · rename_i hc'
      rw [hc, hc']
    · exact absurd h (hfirst _)
  · split at h
    · exact absurd h.symm (hfirst _)
    · rw [String.ofList_inj, List.cons.injEq] at h
      exact flatMap_hexDigits_inj h.2

theorem isAscii_invoiceHmac (secret content : Bytes) : isAscii (invoiceHmac secret content) = true := by
  unfold invoiceHmac
  split
  · decide
  · have hdigit : ∀ d < 16, (Nat.digitChar d).toNat < 128 := by decide
    rw [isAscii, String.toList_ofList, List.all_eq_true]
    intro c hc
    rw [decide_eq_true_eq]
    rcases List.mem_cons.mp hc with rfl | hc
    · decide
    · obtain ⟨b, -, hb⟩ := List.mem_flatMap.mp hc
      obtain ⟨d, hd, rfl⟩ := digit_cases hb
      exact hdigit d hd

def signer : TransportLib where
  float := fun _ => none
  parsedateToDatetime := fun _ => .error .invalid
  decodeReplace := fun _ => ""
  hmacSha256Hex := invoiceHmac

end Sample

theorem signature_binds_invoice : Sample.signingSecret ≠ [] ∧
    (signPayload Sample.signer Sample.signingSecret 1700000000 Sample.invoiceBytes >>=
      verifySignature Sample.signer Sample.signingSecret 1700000000 Sample.invoiceBytes) =
        .ok true ∧
    (signPayload Sample.signer Sample.signingSecret 1700000000 Sample.invoiceBytes >>=
      verifySignature Sample.signer Sample.signingSecret 1700000000 (Sample.invoiceBytes ++ [32])) ≠
        .ok true := by
  have hsecret : Sample.signingSecret ≠ [] := by decide
  obtain ⟨-, hiff, -⟩ := signature_binds Sample.signer Sample.signingSecret hsecret
    (Sample.invoiceHmac_inj Sample.signingSecret)
    (Sample.isAscii_invoiceHmac Sample.signingSecret)
  have hdecimal : hasDecimal 1700000000 = true := by decide
  refine ⟨hsecret, (hiff 1700000000 1700000000 _ _).mpr ⟨rfl, rfl, hdecimal⟩, fun h => ?_⟩
  obtain ⟨-, hsame, -⟩ := (hiff 1700000000 1700000000 _ _).mp h
  exact absurd hsame (by decide)

theorem not_hasDecimal {n : ℕ} (h : 10 ^ maxStrDigits ≤ n) : hasDecimal n = false := by
  rw [hasDecimal, decide_eq_false_iff_not, Nat.length_toDigits_le_iff (by decide) (by decide),
    Nat.not_lt]
  exact h

/-- Timestamps with more digits have no text, so nothing is signed for them. -/
theorem long_timestamp_unsigned :
    Sample.signingSecret ≠ [] ∧
    Function.Injective (Sample.signer.hmacSha256Hex Sample.signingSecret) ∧
    ¬∀ (t t' : ℕ) (p p' : Bytes), (signPayload Sample.signer Sample.signingSecret t' p' >>=
      verifySignature Sample.signer Sample.signingSecret t p) = .ok true ↔ t = t' ∧ p = p' := by
  refine ⟨by decide, Sample.invoiceHmac_inj Sample.signingSecret, fun hall => ?_⟩
  have hok := (hall (10 ^ maxStrDigits) (10 ^ maxStrDigits) [] []).mpr ⟨rfl, rfl⟩
  obtain ⟨n, hn⟩ : ∃ n : ℕ, n = 10 ^ maxStrDigits := ⟨_, rfl⟩
  rw [← hn] at hok
  obtain ⟨hdecimal, -⟩ | ⟨-, e, herror⟩ :=
    @signPayload_natCast Sample.signer Sample.signingSecret (by decide) n []
  · rw [not_hasDecimal hn.ge] at hdecimal
    cases hdecimal
  · rw [herror] at hok
    cases hok

end EventHarbor
