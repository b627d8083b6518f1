import EventHarbor.Serialization.Cursor

/-!
# Cursors with timezone-aware timestamps

The timestamp of a cursor is a `datetime` with an offset from UTC. It is written
in UTC, and what a client sends may come with any offset.
-/

namespace EventHarbor

open Datetime

/-- A timezone-aware `datetime`: its wall clock, in microseconds from year 1, and
how far that is ahead of UTC. -/
structure AwareDatetime where
  wall : ℕ
  utcoffset : ℤ
  wall_lt : wall < maxOrdinal * microsPerDay
  utcoffset_lt : utcoffset.natAbs < microsPerDay
deriving DecidableEq

namespace AwareDatetime

/-- Microseconds from year 1 in UTC, which may lie outside the calendar. -/
def utc (d : AwareDatetime) : ℤ := d.wall - d.utcoffset

def instant (d : AwareDatetime) : Time := Datetime.instant d.utc

/-- The UTC value lies in the calendar. -/
def Representable (d : AwareDatetime) : Prop :=
  0 ≤ d.utc ∧ d.utc < (maxOrdinal * microsPerDay : ℕ)

instance (d : AwareDatetime) : Decidable d.Representable :=
  inferInstanceAs (Decidable (_ ∧ _))

/-- `d.astimezone(UTC)`; out of the calendar it is an `OverflowError`. -/
def astimezoneUTC (d : AwareDatetime) : Option AwareDatetime :=
  if h : d.Representable then
    some { wall := d.utc.toNat, utcoffset := 0, wall_lt := by
             obtain ⟨hpos, hlt⟩ := h
             omega
           utcoffset_lt := by decide }
  else none

end AwareDatetime

/-- A cursor as the code holds it. -/
structure AwareCursor where
  timestamp : AwareDatetime
  rowId : UUID
deriving DecidableEq

namespace AwareCursor

/-- The sort key that a cursor stands for. -/
def key (c : AwareCursor) : PageCursor := ⟨c.timestamp.instant, c.rowId⟩

/-- `encode_cursor` -/
def encode (c : AwareCursor) : Option PyStr :=
  c.timestamp.astimezoneUTC.map fun t => encodeCursor ⟨t.instant, c.rowId⟩

end AwareCursor

/-! ## What `fromisoformat` returns -/

namespace Datetime

theorem daysBefore_add : ∀ leap : Bool, ∀ month < 13, ∀ day < 32, 1 ≤ month →
    day ≤ daysInMonth leap month →
      daysBeforeMonth leap month + day ≤ 365 + if leap then 1 else 0 := by
  decide

theorem daysInMonth_lt : ∀ leap : Bool, ∀ month < 13, daysInMonth leap month < 32 := by decide

theorem ymd2ord_le {year month day : ℕ} (hy : 1 ≤ year ∧ year ≤ 9999) (hm : 1 ≤ month ∧ month ≤ 12)
    (hd : 1 ≤ day ∧ day ≤ daysInMonth (isLeap year) month) :
    1 ≤ ymd2ord year month day ∧ ymd2ord year month day ≤ maxOrdinal := by
  have hlt := daysInMonth_lt (isLeap year) month (by omega)
  have hday := daysBefore_add (isLeap year) month (by omega) day (by omega) hm.1 hd.2
  have hleap : isLeap year = true → year % 4 = 0 := by
    intro h
    simp only [isLeap, Bool.and_eq_true, decide_eq_true_eq] at h
    exact h.1
  unfold ymd2ord daysBeforeYear maxOrdinal
  cases h : isLeap year with
  | true =>
    have := hleap h
    simp only [h, if_true] at hday
    omega
  | false =>
    simp only [h, Bool.false_eq_true, if_false] at hday
    omega

theorem ofComponents_lt {date : ℕ × ℕ × ℕ} {clock : Clock} {us : ℕ}
    (h : ofComponents date clock = some us) : us < maxOrdinal * microsPerDay := by
  obtain ⟨year, month, day⟩ := date
  simp only [ofComponents] at h
  split at h
  · rename_i hc
    obtain ⟨hy, hy', hm, hm', hd, hd', hh, hmin, hsec, hmicro⟩ := hc
    obtain ⟨hpos, hle⟩ := ymd2ord_le ⟨hy, hy'⟩ ⟨hm, hm'⟩ ⟨hd, hd'⟩
    obtain rfl := Option.some.inj h
    have htotal : clock.total < microsPerDay := by
      unfold Clock.total microsPerDay
      omega
    calc (ymd2ord year month day - 1) * microsPerDay + clock.total
        < (ymd2ord year month day - 1) * microsPerDay + microsPerDay := by omega
      _ = (ymd2ord year month day - 1 + 1) * microsPerDay := by rw [Nat.succ_mul]
      _ ≤ maxOrdinal * microsPerDay := Nat.mul_le_mul_right _ (by omega)
  · cases h

theorem parseZone_lt {tz : List UInt8} {offset : ℤ} (h : parseZone tz = some offset) :
    offset.natAbs < microsPerDay := by
  have hzero : (0 : ℤ).natAbs < microsPerDay := by decide
  simp only [parseZone] at h
  split at h
  · split at h
    · obtain rfl := Option.some.inj h
      exact hzero
    · cases h
  · obtain ⟨⟨clock, rest⟩, -, h⟩ := Option.bind_eq_some_iff.mp h
    dsimp only at h
    split at h
    · cases h
    · split at h
      · obtain rfl := Option.some.inj h
        exact hzero
      · split at h
        · rename_i hlt
          obtain rfl := Option.some.inj h
          split
          · rwa [Int.natAbs_neg, Int.natAbs_natCast]
          · rwa [Int.natAbs_natCast]
        · cases h

theorem parseIsoformatTime_lt {p : List UInt8} {clock : Clock} {offset : ℤ}
    (h : parseIsoformatTime p = some (clock, some offset)) : offset.natAbs < microsPerDay := by
  unfold parseIsoformatTime at h
  split at h
  · obtain ⟨⟨c, rest⟩, -, h⟩ := Option.bind_eq_some_iff.mp h
    dsimp only at h
    split at h
    · cases h
    · cases h
  · obtain ⟨c, -, h⟩ := Option.bind_eq_some_iff.mp h
    obtain ⟨z, hz, h⟩ := Option.bind_eq_some_iff.mp h
    cases h
    exact parseZone_lt hz

theorem fromisoformat_lt {s : PyStr} {us : ℕ} {offset : Option ℤ}
    (h : fromisoformat s = some (us, offset)) : us < maxOrdinal * microsPerDay ∧
      ∀ z, offset = some z → z.natAbs < microsPerDay := by
  unfold fromisoformat at h
  split at h
  · cases h
  · obtain ⟨dtstr, -, h⟩ := Option.bind_eq_some_iff.mp h
    obtain ⟨separator, -, h⟩ := Option.bind_eq_some_iff.mp h
    obtain ⟨date, -, h⟩ := Option.bind_eq_some_iff.mp h
    dsimp only at h
    split at h
    · obtain ⟨_, hnone, h⟩ := Option.bind_eq_some_iff.mp h
      obtain ⟨us', hus, h⟩ := Option.bind_eq_some_iff.mp h
      cases hnone
      cases h
      exact ⟨ofComponents_lt hus, by simp⟩
    · obtain ⟨⟨clock, zone⟩, htime, h⟩ := Option.bind_eq_some_iff.mp h
      obtain ⟨us', hus, h⟩ := Option.bind_eq_some_iff.mp h
      cases h
      refine ⟨ofComponents_lt hus, ?_⟩
      rintro z rfl
      exact parseIsoformatTime_lt htime

end Datetime

/-! ## Decoding -/

/-- `datetime.fromisoformat(text)`, when it has a timezone. -/
def AwareDatetime.fromisoformat (s : PyStr) : Option AwareDatetime :=
  match h : Datetime.fromisoformat s with
  | some (us, some offset) =>
    some ⟨us, offset, (fromisoformat_lt h).1, (fromisoformat_lt h).2 offset rfl⟩
  | _ => none

section Decode

variable (floatOf : List Char → PyFloat)

/-- The cursor of a text, or `none` where the code raises a `ValueError`,
`KeyError` or `TypeError`. -/
def AwareCursor.read (value : PyStr) : Option AwareCursor := do
  let decoded ← urlsafeB64decode (value ++ PyStr.ofChars (Base64.padding value.length))
  let payload ← (Json.loads floatOf (← decodeUtf8 decoded)).toOption
  match payload with
  | .obj members =>
    if !(Json.lookup members "v").any Json.isOne then none
    else
      let timestampValue ← (← Json.lookup members "timestamp").str?
      let rowIdValue ← (← Json.lookup members "id").str?
      return ⟨← AwareDatetime.fromisoformat timestampValue, ← UUID.parse rowIdValue⟩
  | _ => none

/-- `decode_cursor` -/
def AwareCursor.decode : Option PyStr → Except Error (Option AwareCursor)
  | none => .ok none
  | some value =>
    match read floatOf value with
    | some cursor => .ok (some cursor)
    | none => .error invalidCursor

theorem AwareDatetime.fromisoformat_of {s : PyStr} {us : ℕ} {offset : ℤ}
    (h : Datetime.fromisoformat s = some (us, some offset)) : ∃ d : AwareDatetime,
      AwareDatetime.fromisoformat s = some d ∧ d.wall = us ∧ d.utcoffset = offset := by
  unfold AwareDatetime.fromisoformat
  split
  · rename_i us' offset' h'
    cases h.symm.trans h'
    exact ⟨_, rfl, rfl, rfl⟩
  · rename_i hno
    exact absurd h (hno us offset)

theorem AwareDatetime.fromisoformat_none {s : PyStr}
    (h : ∀ us offset, Datetime.fromisoformat s ≠ some (us, some offset)) :
    AwareDatetime.fromisoformat s = none := by
  unfold AwareDatetime.fromisoformat
  split
  · rename_i us offset h'
    exact absurd h' (h us offset)
  · rfl

theorem bind_eq_map {α β γ : Type} {k : β → γ} {o : Option α} {f : α → Option γ}
    {g : α → Option β} (h : ∀ a, f a = (g a).map k) : o.bind f = (o.bind g).map k := by
  cases o with
  | none => rfl
  | some a => exact h a

/-- The queries sort by the instants that the cursors of the code stand for. -/
theorem readCursor_eq (value : PyStr) :
    readCursor floatOf value = (AwareCursor.read floatOf value).map AwareCursor.key := by
  refine bind_eq_map fun decoded => bind_eq_map fun text => bind_eq_map fun payload => ?_
  cases payload with
  | obj members =>
    dsimp only
    split
    · rfl
    · refine bind_eq_map fun t => bind_eq_map fun timestamp => bind_eq_map fun i =>
        bind_eq_map fun rowId => ?_
      cases h : Datetime.fromisoformat timestamp with
      | none => rw [AwareDatetime.fromisoformat_none (by simp [h])]; rfl
      | some x =>
        obtain ⟨us, zone⟩ := x
        cases zone with
        | none => rw [AwareDatetime.fromisoformat_none (by simp [h])]; rfl
        | some offset =>
          obtain ⟨d, hd, rfl, rfl⟩ := AwareDatetime.fromisoformat_of h
          rw [hd]
          cases UUID.parse rowId <;> rfl
  | _ => rfl

end Decode

end EventHarbor
