import EventHarbor.Properties.Cursors

/-!
# Accepted cursors

A cursor that a client sends passes base64, UTF-8, JSON, an ISO timestamp with
any offset and a UUID. Each of these is more lenient than the encoder, and what
passes all of them need not have a UTC value in the calendar.
-/

namespace EventHarbor

open Datetime

section Accepted

variable (floatOf : List Char → PyFloat)
-- `timestamptz` parameter of a query, with `none` for a range error
variable (bind : AwareDatetime → Option Time)

/-- What the queries and the next page need of a cursor. -/
structure AwareCursor.Usable (c : AwareCursor) : Prop where
  representable : c.timestamp.Representable
  encoded : ∃ text c', c.encode = some text ∧
    AwareCursor.decode floatOf (some text) = .ok (some c') ∧
      c'.timestamp.instant = c.timestamp.instant ∧ c'.rowId = c.rowId
  bound : bind c.timestamp = some c.timestamp.instant

/-- A version 1 cursor on the wire: every stage of the decoder accepts it. -/
inductive WireCursor (value : PyStr) (timestamp : AwareDatetime) (rowId : UUID) : Prop
  | mk {bytes : List UInt8} {text : PyStr} {members : List (PyStr × Json)}
    {timestampValue rowIdValue : PyStr}
    (base64 : urlsafeB64decode (value ++ PyStr.ofChars (Base64.padding value.length)) = some bytes)
    (utf8 : decodeUtf8 bytes = some text)
    (json : Json.loads floatOf text = .ok (.obj members))
    (version : (Json.lookup members "v").any Json.isOne = true)
    (timestamp_mem : Json.lookup members "timestamp" = some (.str timestampValue))
    (id_mem : Json.lookup members "id" = some (.str rowIdValue))
    (isoformat : AwareDatetime.fromisoformat timestampValue = some timestamp)
    (uuid : UUID.parse rowIdValue = some rowId)

/-- The clock of a timestamp reads less than its offset ahead of UTC, or so much
that its offset behind UTC leads beyond year 9999. -/
def AwareDatetime.OutOfRange (d : AwareDatetime) : Prop :=
  (d.wall : ℤ) < d.utcoffset ∨ (maxOrdinal * microsPerDay : ℕ) ≤ d.wall + -d.utcoffset

theorem AwareDatetime.outOfRange_iff (d : AwareDatetime) : d.OutOfRange ↔ ¬d.Representable := by
  unfold OutOfRange Representable utc
  omega

variable {floatOf bind}

theorem Json.str?_eq_some {j : Json} {s : PyStr} (h : j.str? = some s) : j = .str s := by
  cases j with
  | str t => rw [Json.str?, Option.some.injEq] at h; rw [h]
  | _ => cases h

theorem toOption_eq_some {ε α : Type} {x : Except ε α} {a : α} (h : x.toOption = some a) :
    x = .ok a := by
  cases x with
  | error e => cases h
  | ok b => rw [Except.toOption, Option.some.injEq] at h; rw [h]

/-- The decoder returns exactly the cursors on the wire. -/
theorem AwareCursor.read_iff {value : PyStr} {c : AwareCursor} :
    AwareCursor.read floatOf value = some c ↔ WireCursor floatOf value c.timestamp c.rowId := by
  constructor
  · intro h
    unfold AwareCursor.read at h
    obtain ⟨bytes, hbytes, h⟩ := Option.bind_eq_some_iff.mp h
    obtain ⟨text, htext, h⟩ := Option.bind_eq_some_iff.mp h
    obtain ⟨payload, hpayload, h⟩ := Option.bind_eq_some_iff.mp h
    cases payload with
    | obj members =>
      dsimp only at h
      split at h
      · cases h
      · rename_i hv
        obtain ⟨t, ht, h⟩ := Option.bind_eq_some_iff.mp h
        obtain ⟨timestampValue, htv, h⟩ := Option.bind_eq_some_iff.mp h
        obtain ⟨i, hi, h⟩ := Option.bind_eq_some_iff.mp h
        obtain ⟨rowIdValue, hiv, h⟩ := Option.bind_eq_some_iff.mp h
        obtain ⟨timestamp, hiso, h⟩ := Option.bind_eq_some_iff.mp h
        obtain ⟨rowId, huuid, h⟩ := Option.bind_eq_some_iff.mp h
        obtain rfl := Option.some.inj h
        obtain rfl := Json.str?_eq_some htv
        obtain rfl := Json.str?_eq_some hiv
        rw [Bool.not_eq_true', Bool.not_eq_false] at hv
        exact .mk hbytes htext (toOption_eq_some hpayload) hv ht hi hiso huuid
    | _ => cases h
  · rintro ⟨hbytes, htext, hjson, hv, ht, hi, hiso, huuid⟩
    simp only [AwareCursor.read, hbytes, htext, hjson, hv, ht, hi, hiso, huuid, Json.str?,
      Except.toOption, Option.bind_eq_bind, Option.bind_some, Bool.not_true, Bool.false_eq_true,
      if_false]
    rfl

theorem AwareCursor.decode_cases (value : PyStr) :
    (AwareCursor.decode floatOf (some value) = .error invalidCursor ∧
      AwareCursor.read floatOf value = none) ∨
    ∃ c, AwareCursor.decode floatOf (some value) = .ok (some c) ∧
      AwareCursor.read floatOf value = some c := by
  cases h : AwareCursor.read floatOf value with
  | none => exact .inl ⟨by rw [AwareCursor.decode, h], rfl⟩
  | some c => exact .inr ⟨c, by rw [AwareCursor.decode, h], rfl⟩

theorem AwareCursor.usable_of_representable {c : AwareCursor}
    (hbind : ∀ d : AwareDatetime, d.Representable → bind d = some d.instant)
    (h : c.timestamp.Representable) : c.Usable floatOf bind := by
  obtain ⟨t, hutc, hencode⟩ := AwareCursor.encode_some h
  refine ⟨h, ⟨_, ⟨t, c.rowId⟩, hencode, ?_, hutc.instant, rfl⟩, hbind _ h⟩
  rw [AwareCursor.decode, AwareCursor.read_encodeCursor floatOf hutc.offset c.rowId]

variable (floatOf)

theorem accepted_cursor_usable_iff (bind : AwareDatetime → Option Time)
    (hbind : ∀ d : AwareDatetime, d.Representable → bind d = some d.instant) (value : PyStr) :
    (AwareCursor.decode floatOf (some value) = .error invalidCursor ∨
      ∃ c, AwareCursor.decode floatOf (some value) = .ok (some c) ∧ c.Usable floatOf bind) ↔
    ¬∃ timestamp rowId, WireCursor floatOf value timestamp rowId ∧ timestamp.OutOfRange := by
  obtain ⟨hdecode, hread⟩ | ⟨c, hdecode, hread⟩ :=
    @AwareCursor.decode_cases floatOf value
  · refine iff_of_true (.inl hdecode) ?_
    rintro ⟨timestamp, rowId, hwire, -⟩
    have hread' : AwareCursor.read floatOf value = some ⟨timestamp, rowId⟩ :=
      AwareCursor.read_iff.mpr hwire
    rw [hread] at hread'
    cases hread'
  · rw [hdecode]
    constructor
    · rintro (herror | ⟨c', hc', husable⟩) ⟨timestamp, rowId, hwire, hrange⟩
      · cases herror
      · have hread' : AwareCursor.read floatOf value = some ⟨timestamp, rowId⟩ :=
          AwareCursor.read_iff.mpr hwire
        obtain rfl : c = c' := by simpa using hc'
        obtain rfl : c = ⟨timestamp, rowId⟩ := Option.some.inj (hread.symm.trans hread')
        exact (AwareDatetime.outOfRange_iff _).mp hrange husable.representable
    · intro hno
      have h : c.timestamp.Representable := by
        by_contra hrange
        exact hno ⟨c.timestamp, c.rowId, AwareCursor.read_iff.mp hread,
          (AwareDatetime.outOfRange_iff _).mpr hrange⟩
      exact .inr ⟨c, rfl, AwareCursor.usable_of_representable hbind h⟩

end Accepted

namespace Sample

/-- The driver moves a timestamp to UTC before it sends it. -/
def bindTimestamptz (d : AwareDatetime) : Option Time := d.astimezoneUTC.map AwareDatetime.instant

theorem bindTimestamptz_eq (d : AwareDatetime) (h : d.Representable) :
    bindTimestamptz d = some d.instant := by
  obtain ⟨t, ht, hutc⟩ := AwareDatetime.astimezoneUTC_some h
  rw [bindTimestamptz, ht, Option.map_some, hutc.instant]

/-- Half past midnight on the first day of year 1, one hour ahead of UTC, with id 1. -/
def beforeYearOne : PyStr := PyStr.ofString
  ("eyJ2IjoxLCJ0aW1lc3RhbXAiOiIwMDAxLTAxLTAxVDAwOjMwOjAwKzAxOjAwIiwiaWQiOiIwMDAwMDAwMC0wMDAwLTAw" ++
    "MDAtMDAwMC0wMDAwMDAwMDAwMDEifQ")

/-- The cursor is accepted, and its timestamp is out of the calendar. -/
def acceptsUnrepresentable (value : PyStr) : Bool :=
  match AwareCursor.read (fun _ => ⟨0⟩) value with
  | some c => decide ¬c.timestamp.Representable
  | none => false

end Sample

theorem accepted_cursor_out_of_range : Sample.beforeYearOne.length ≤ 512 ∧
    ¬(AwareCursor.decode (fun _ => ⟨0⟩) (some Sample.beforeYearOne) = .error invalidCursor ∨
      ∃ c, AwareCursor.decode (fun _ => ⟨0⟩) (some Sample.beforeYearOne) = .ok (some c) ∧
        c.Usable (fun _ => ⟨0⟩) Sample.bindTimestamptz) := by
  obtain ⟨hlen, hcheck⟩ : Sample.beforeYearOne.length ≤ 512 ∧
    Sample.acceptsUnrepresentable Sample.beforeYearOne = true := by decide +kernel
  refine ⟨hlen, ?_⟩
  obtain ⟨-, hread⟩ | ⟨c, hdecode, hread⟩ :=
    @AwareCursor.decode_cases (fun _ => ⟨0⟩) Sample.beforeYearOne
  · rw [Sample.acceptsUnrepresentable, hread] at hcheck
    cases hcheck
  · rw [Sample.acceptsUnrepresentable, hread, decide_eq_true_eq] at hcheck
    rw [hdecode]
    rintro (herror | ⟨c', hc', husable⟩)
    · cases herror
    · obtain rfl : c = c' := by simpa using hc'
      exact hcheck husable.representable

theorem accepted_cursor_usable_of_noon :
    (∀ d : AwareDatetime, d.Representable → Sample.bindTimestamptz d = some d.instant) ∧
    ∃ text c, Sample.localNoon.encode = some text ∧
      AwareCursor.decode (fun _ => ⟨0⟩) (some text) = .ok (some c) ∧
        c.Usable (fun _ => ⟨0⟩) Sample.bindTimestamptz := by
  obtain ⟨t, hutc, hencode⟩ := AwareCursor.encode_some (c := Sample.localNoon) (by decide)
  have hread := AwareCursor.read_encodeCursor (fun _ => ⟨0⟩) hutc.offset Sample.localNoon.rowId
  have hinside : ¬∃ timestamp rowId, WireCursor (fun _ => ⟨0⟩)
      (encodeCursor ⟨t.instant, Sample.localNoon.rowId⟩) timestamp rowId ∧
        timestamp.OutOfRange := by
    rintro ⟨timestamp, rowId, hwire, hrange⟩
    have hsame := hread.symm.trans (AwareCursor.read_iff (c := ⟨timestamp, rowId⟩).mpr hwire)
    obtain rfl : t = timestamp := congrArg AwareCursor.timestamp (Option.some.inj hsame)
    have hlt := t.wall_lt
    unfold AwareDatetime.OutOfRange at hrange
    rw [hutc.offset] at hrange
    omega
  refine ⟨Sample.bindTimestamptz_eq, _, ⟨t, Sample.localNoon.rowId⟩, hencode, ?_⟩
  obtain herror | ⟨c, hdecode, husable⟩ := (accepted_cursor_usable_iff (fun _ => ⟨0⟩)
    Sample.bindTimestamptz Sample.bindTimestamptz_eq _).mpr hinside
  · rw [AwareCursor.decode, hread] at herror
    cases herror
  · rw [AwareCursor.decode, hread] at hdecode ⊢
    obtain rfl : ⟨t, Sample.localNoon.rowId⟩ = c := by simpa using hdecode
    exact ⟨rfl, husable⟩

end EventHarbor
