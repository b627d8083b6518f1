import EventHarbor.Serialization.Canonical

/-!
# Timestamps as text

`datetime.isoformat` of an instant in UTC and `datetime.fromisoformat`, over
the proleptic Gregorian calendar of the `datetime` module. A datetime is a
number of microseconds since the start of year 1.
-/

namespace EventHarbor

namespace Datetime

/-! ## The calendar -/

def isLeap (year : ℕ) : Bool := year % 4 = 0 && (year % 100 ≠ 0 || year % 400 = 0)

def daysBeforeYear (year : ℕ) : ℕ :=
  (year - 1) * 365 + (year - 1) / 4 - (year - 1) / 100 + (year - 1) / 400

def daysInMonth (leap : Bool) (month : ℕ) : ℕ :=
  if month = 2 && leap then 29
  else [0, 31, 28, 31, 30, 31, 30, 31, 31, 30, 31, 30, 31].getD month 0

def daysBeforeMonth (leap : Bool) (month : ℕ) : ℕ :=
  [0, 0, 31, 59, 90, 120, 151, 181, 212, 243, 273, 304, 334].getD month 0 +
    if 2 < month && leap then 1 else 0

/-- The day number of a date; 1 is the first day of year 1. -/
def ymd2ord (year month day : ℕ) : ℕ :=
  daysBeforeYear year + daysBeforeMonth (isLeap year) month + day

/-- The month and the day of the `n`-th day of a year, from 0. -/
def monthDay (leap : Bool) (n : ℕ) : ℕ × ℕ :=
  let month := (n + 50) / 32
  let preceding := daysBeforeMonth leap month
  -- The estimate is at most one month too large.
  if n < preceding then (month - 1, n - (preceding - daysInMonth leap (month - 1)) + 1)
  else (month, n - preceding + 1)

def ord2ymd (ordinal : ℕ) : ℕ × ℕ × ℕ :=
  let n := ordinal - 1
  let n400 := n / 146097
  let n := n % 146097
  let n100 := n / 36524
  let n := n % 36524
  let n4 := n / 1461
  let n := n % 1461
  let n1 := n / 365
  let n := n % 365
  let year := n400 * 400 + 1 + n100 * 100 + n4 * 4 + n1
  if n1 = 4 || n100 = 4 then (year - 1, 12, 31)
  else (year, monthDay (n1 = 3 && (n4 ≠ 24 || n100 = 3)) n)

/-! ## Writing -/

/-- The last day a datetime can have, 9999-12-31. -/
def maxOrdinal : ℕ := 3652059

def microsPerDay : ℕ := 86400000000

/-- From the start of year 1 to the start of 1970. -/
def unixEpoch : Time := 62135596800

/-- The instant of a datetime in UTC. -/
def instant (us : ℤ) : Time := us / 1000000 - unixEpoch

def microseconds (t : Time) : ℕ := ((t + unixEpoch) * 1000000).floor.toNat

/-- The `width` lowest decimal digits, most significant first. -/
def decDigits : (width : ℕ) → ℕ → List Char
  | 0, _ => []
  | w + 1, n => decDigits w (n / 10) ++ [Nat.digitChar (n % 10)]

def dateText (date : ℕ × ℕ × ℕ) : List Char :=
  decDigits 4 date.1 ++ '-' :: decDigits 2 date.2.1 ++ '-' :: decDigits 2 date.2.2

/-- `HH:MM:SS`, with the microseconds when there are any. -/
def timeText (us : ℕ) : List Char :=
  decDigits 2 (us / 3600000000) ++ ':' :: decDigits 2 (us / 60000000 % 60) ++
    ':' :: decDigits 2 (us / 1000000 % 60) ++
    if us % 1000000 = 0 then [] else '.' :: decDigits 6 (us % 1000000)

/-- `t.astimezone(UTC).isoformat()` -/
def isoformat (t : Time) : List Char :=
  dateText (ord2ymd (microseconds t / microsPerDay + 1)) ++
    'T' :: timeText (microseconds t % microsPerDay) ++ ['+', '0', '0', ':', '0', '0']

/-! ## Reading

`datetime.fromisoformat` runs over the UTF-8 bytes of the text, which end in a NUL.
A pointer is what is left from it on. -/

/-- The byte at a pointer. -/
def peek (p : List UInt8) : UInt8 := p.headD 0

def asciiByte (a : Char) : UInt8 := UInt8.ofNat a.toNat

def byteDigit (b : UInt8) : Option ℕ :=
  if 48 ≤ b.toNat ∧ b.toNat ≤ 57 then some (b.toNat - 48) else none

/-- `parse_digits`, which adds digits to `var`. -/
def parseDigits : (numDigits : ℕ) → (var : ℕ) → List UInt8 → Option (ℕ × List UInt8)
  | 0, var, p => some (var, p)
  | n + 1, var, p => do parseDigits n (var * 10 + (← byteDigit (peek p))) p.tail

/-- `_sanitize_isoformat_str`: one surrogate may separate the date from the time. -/
def sanitizeIsoformatStr (s : PyStr) : PyStr :=
  match [7, 8, 10].find? fun pos => s[pos]?.any CodePoint.isSurrogate with
  | some pos => s.set pos (CodePoint.ofChar 'T')
  | none => s

/-- `_find_isoformat_datetime_separator` -/
def findSeparator (dtstr : List UInt8) : Option ℕ :=
  let at' (i : ℕ) := peek (dtstr.drop i)
  if dtstr.length = 7 then some 7
  else if at' 4 = asciiByte '-' then
    if at' 5 = asciiByte 'W' then
      if dtstr.length < 8 then none
      else if at' 8 = asciiByte '-' then
        if dtstr.length = 9 then none
        -- A second digit after the dash makes it the separator before an hour.
        else if (byteDigit (at' 10)).isSome then some 8
        else some 10
      else some 8
    else some 10
  else if at' 4 = asciiByte 'W' then
    -- A week with or without a day: the run of digits that follows decides.
    let pos := 7 + ((dtstr.drop 7).takeWhile fun b => (byteDigit b).isSome).length
    if pos < 9 then some pos
    else if pos % 2 = 0 then some 7
    else some 8
  else some 8

def isoWeek1Monday (year : ℕ) : ℕ :=
  let firstDay := ymd2ord year 1 1
  let firstWeekday := (firstDay + 6) % 7
  firstDay - firstWeekday + if 3 < firstWeekday then 7 else 0

/-- `iso_to_ymd` -/
def isoToYmd (isoYear isoWeek isoDay : ℕ) : Option (ℕ × ℕ × ℕ) :=
  let firstWeekday := (ymd2ord isoYear 1 1 + 6) % 7
  if ¬(1 ≤ isoYear ∧ isoYear ≤ 9999) then none
  else if ¬(0 < isoWeek ∧ isoWeek < 53) ∧
      ¬(isoWeek = 53 ∧ (firstWeekday = 3 ∨ firstWeekday = 2 ∧ isLeap isoYear = true)) then none
  else if ¬(0 < isoDay ∧ isoDay < 8) then none
  else some (ord2ymd (isoWeek1Monday isoYear + ((isoWeek - 1) * 7 + (isoDay - 1))))

/-- `parse_isoformat_date`: `YYYY-MM-DD` or `YYYY-Www-D`, with or without the dashes. A
week without a day ends at `len`. -/
def parseIsoformatDate (dtstr : List UInt8) (len : ℕ) : Option (ℕ × ℕ × ℕ) := do
  let (year, p) ← parseDigits 4 0 dtstr
  let usesSeparator := peek p = asciiByte '-'
  let dash := if usesSeparator then 1 else 0
  let p := p.drop dash
  if peek p = asciiByte 'W' then
    let (isoWeek, p) ← parseDigits 2 0 p.tail
    if dash + 7 < len then
      if usesSeparator ∧ peek p ≠ asciiByte '-' then none
      else
        let (isoDay, _) ← parseDigits 1 0 (p.drop dash)
        isoToYmd year isoWeek isoDay
    else isoToYmd year isoWeek 1
  else
    let (month, p) ← parseDigits 2 0 p
    if usesSeparator ∧ peek p ≠ asciiByte '-' then none
    else
      let (day, _) ← parseDigits 2 0 (p.drop dash)
      return (year, month, day)

/-- The fractional part of a time that ends after `left` bytes, and whether more text
follows. Digits after the sixth are skipped, wherever the time ends. -/
def parseFraction (p : List UInt8) (left : ℕ) : Option (ℕ × Bool) := do
  let toParse := min left 6
  let (microsecond, p) ← parseDigits toParse 0 p
  return (microsecond * 10 ^ (6 - toParse), peek (p.dropWhile fun b => (byteDigit b).isSome) ≠ 0)

/-- The components that are still to come, the microseconds, and whether more text follows. -/
def parseComponents (hasSeparator : Bool) :
    (more : ℕ) → List UInt8 → (left : ℕ) → Option (List ℕ × ℕ × Bool)
  | 0, p, left => do
    let (microsecond, rest) ← parseFraction p left
    return ([], microsecond, rest)
  | more + 1, p, left => do
    let (n, p) ← parseDigits 2 0 p
    let left := left - 2
    let c := peek p
    -- The end of the time, or one byte before it, whatever that byte is.
    if left ≤ 1 then return ([n], 0, c ≠ 0)
    else if hasSeparator ∧ c = asciiByte ':' then
      let (ns, microsecond, rest) ← parseComponents hasSeparator more p.tail (left - 1)
      return (n :: ns, microsecond, rest)
    else if c = asciiByte '.' ∨ c = asciiByte ',' then
      let (microsecond, rest) ← parseFraction p.tail (left - 1)
      return ([n], microsecond, rest)
    else if !hasSeparator then
      let (ns, microsecond, rest) ← parseComponents hasSeparator more p left
      return (n :: ns, microsecond, rest)
    else none

/-- Hours, minutes, seconds and microseconds. -/
structure Clock where
  hour : ℕ
  minute : ℕ
  second : ℕ
  microsecond : ℕ
deriving DecidableEq

def Clock.total (c : Clock) : ℕ :=
  ((c.hour * 60 + c.minute) * 60 + c.second) * 1000000 + c.microsecond

/-- `parse_hh_mm_ss_ff` of the `len` bytes from `tstr` on: the clock, and whether more
text follows where the parser stopped. -/
def parseHhMmSsFf (tstr : List UInt8) (len : ℕ) : Option (Clock × Bool) := do
  let hasSeparator := peek (tstr.drop 2) = asciiByte ':'
  let (fields, microsecond, rest) ← parseComponents hasSeparator 3 tstr len
  return (⟨fields.getD 0 0, fields.getD 1 0, fields.getD 2 0, microsecond⟩, rest)

def startsZone (b : UInt8) : Bool := b = asciiByte '+' || b = asciiByte '-' || b = asciiByte 'Z'

/-- The zone from `tz` on, as its offset in microseconds. An offset of no seconds is
UTC, whatever its microseconds. -/
def parseZone (tz : List UInt8) : Option ℤ :=
  if peek tz = asciiByte 'Z' then if peek tz.tail = 0 then some 0 else none
  else do
    let (clock, rest) ← parseHhMmSsFf tz.tail tz.tail.length
    if rest then none
    -- The zone is made of its seconds first, and none of them is UTC.
    else if clock.total / 1000000 = 0 then return 0
    else if clock.total < microsPerDay then
      return if peek tz = asciiByte '-' then -(clock.total : ℤ) else clock.total
    else none

/-- `parse_isoformat_time`: the time of day and the offset, when there is one. Text
between the time and the zone is not noticed. -/
def parseIsoformatTime (dtstr : List UInt8) : Option (Clock × Option ℤ) :=
  match dtstr.findIdx? startsZone with
  | none => do
    let (clock, rest) ← parseHhMmSsFf dtstr dtstr.length
    if rest then none else return (clock, none)
  | some tzinfoPos => do
    let (clock, _) ← parseHhMmSsFf dtstr tzinfoPos
    return (clock, some (← parseZone (dtstr.drop tzinfoPos)))

/-- The length of the character whose first byte is given. -/
def charWidth (b : UInt8) : ℕ :=
  if b.toNat < 0x80 then 1
  else if b.toNat / 16 = 0xE then 3
  else if b.toNat / 16 = 0xF then 4
  else 2

/-- The checks of the `datetime` constructor. -/
def ofComponents (date : ℕ × ℕ × ℕ) (clock : Clock) : Option ℕ :=
  let (year, month, day) := date
  if 1 ≤ year ∧ year ≤ 9999 ∧ 1 ≤ month ∧ month ≤ 12 ∧ 1 ≤ day ∧
      day ≤ daysInMonth (isLeap year) month ∧ clock.hour < 24 ∧ clock.minute < 60 ∧
      clock.second < 60 ∧ clock.microsecond < 1000000 then
    some ((ymd2ord year month day - 1) * microsPerDay + clock.total)
  else none

/-- `datetime.fromisoformat(text)`: the datetime with its offset from UTC. -/
def fromisoformat (s : PyStr) : Option (ℕ × Option ℤ) := do
  if s.length < 7 then none
  else
    -- A surrogate anywhere else has no UTF-8.
    let dtstr ← encodeUtf8 (sanitizeIsoformatStr s)
    let separator ← findSeparator dtstr
    let date ← parseIsoformatDate dtstr separator
    let p := dtstr.drop separator
    let (clock, offset) ←
      if p = [] then some (⟨0, 0, 0, 0⟩, none)
      else parseIsoformatTime (p.drop (charWidth (peek p)))
    return (← ofComponents date clock, offset)

/-! ## The calendar inverts -/

/-- What the `datetime` constructor accepts as a date. -/
structure ValidDate (date : ℕ × ℕ × ℕ) : Prop where
  year : 1 ≤ date.1 ∧ date.1 ≤ 9999
  month : 1 ≤ date.2.1 ∧ date.2.1 ≤ 12
  day : 1 ≤ date.2.2 ∧ date.2.2 ≤ daysInMonth (isLeap date.1) date.2.1

theorem monthDay_spec : ∀ leap : Bool, ∀ n < 365,
    daysBeforeMonth leap (monthDay leap n).1 + (monthDay leap n).2 = n + 1 ∧
    (1 ≤ (monthDay leap n).1 ∧ (monthDay leap n).1 ≤ 12) ∧ 1 ≤ (monthDay leap n).2 ∧
    (monthDay leap n).2 ≤ daysInMonth leap (monthDay leap n).1 := by
  decide +kernel

/-- The years of a 400-year cycle: `b` centuries, `c` leap cycles and `d` years. -/
theorem isLeap_cycle {a b c d : ℕ} (hb : b ≤ 3) (hc : c ≤ 24) (hd : d ≤ 3) :
    isLeap (400 * a + 100 * b + 4 * c + d + 1) = (d = 3 && (c ≠ 24 || b = 3)) := by
  unfold isLeap
  rw [Bool.eq_iff_iff]
  simp only [Bool.and_eq_true, Bool.or_eq_true, decide_eq_true_eq, ne_eq]
  omega

theorem daysBeforeYear_cycle {a b c d : ℕ} (hb : b ≤ 3) (hc : c ≤ 24) (hd : d ≤ 3) :
    daysBeforeYear (400 * a + 100 * b + 4 * c + d + 1) =
      146097 * a + 36524 * b + 1461 * c + 365 * d := by
  unfold daysBeforeYear
  omega

theorem ord2ymd_valid {n : ℕ} (h : 1 ≤ n) (hmax : n ≤ maxOrdinal) : ValidDate (ord2ymd n) ∧
    ymd2ord (ord2ymd n).1 (ord2ymd n).2.1 (ord2ymd n).2.2 = n := by
  unfold maxOrdinal at hmax
  simp only [ord2ymd]
  generalize ha : (n - 1) / 146097 = a
  generalize hr : (n - 1) % 146097 = r
  generalize hb : r / 36524 = b
  generalize hs : r % 36524 = s
  generalize hc : s / 1461 = c
  generalize hu : s % 1461 = u
  generalize hd : u / 365 = d
  generalize hv : u % 365 = v
  split
  · -- The last day of a leap year that ends a cycle of 4 or of 400 years.
    rename_i hlast
    simp only [Bool.or_eq_true, decide_eq_true_eq] at hlast
    obtain ⟨b', c', hb', hc', hcycle, hyear, hn⟩ : ∃ b' c', b' ≤ 3 ∧ c' ≤ 24 ∧
        (c' ≠ 24 ∨ b' = 3) ∧
        a * 400 + 1 + b * 100 + c * 4 + d - 1 = 400 * a + 100 * b' + 4 * c' + 3 + 1 ∧
        n = 146097 * a + 36524 * b' + 1461 * c' + 365 * 3 + 366 := by
      rcases hlast with hlast | hlast
      · exact ⟨b, c, by omega, by omega, by omega, by omega, by omega⟩
      · exact ⟨3, 24, by omega, by omega, by omega, by omega, by omega⟩
    have hleap : isLeap (400 * a + 100 * b' + 4 * c' + 3 + 1) = true := by
      rw [isLeap_cycle hb' hc' le_rfl]
      simpa using hcycle
    rw [hyear]
    refine ⟨⟨⟨by simp, ?_⟩, ⟨by simp, le_rfl⟩, ⟨by simp, ?_⟩⟩, ?_⟩
    · show 400 * a + 100 * b' + 4 * c' + 3 + 1 ≤ 9999
      omega
    · show 31 ≤ daysInMonth (isLeap (400 * a + 100 * b' + 4 * c' + 3 + 1)) 12
      rw [hleap]
      decide
    · show daysBeforeYear (400 * a + 100 * b' + 4 * c' + 3 + 1) +
        daysBeforeMonth (isLeap (400 * a + 100 * b' + 4 * c' + 3 + 1)) 12 + 31 = n
      rw [hleap, daysBeforeYear_cycle hb' hc' le_rfl, hn]
      rfl
  · rename_i hlast
    simp only [Bool.or_eq_true, decide_eq_true_eq, not_or] at hlast
    have hyear : a * 400 + 1 + b * 100 + c * 4 + d = 400 * a + 100 * b + 4 * c + d + 1 := by omega
    have hb3 : b ≤ 3 := by omega
    have hc24 : c ≤ 24 := by omega
    have hd3 : d ≤ 3 := by omega
    rw [hyear, ← isLeap_cycle (a := a) hb3 hc24 hd3]
    obtain ⟨hsum, hmonth, hday⟩ := monthDay_spec (isLeap (400 * a + 100 * b + 4 * c + d + 1)) v
      (by omega)
    refine ⟨⟨⟨by omega, ?_⟩, hmonth, hday⟩, ?_⟩
    · simp only
      omega
    · simp only [ymd2ord, daysBeforeYear_cycle hb3 hc24 hd3]
      omega

/-! ## The characters of the text -/

theorem length_decDigits (w n : ℕ) : (decDigits w n).length = w := by
  induction w generalizing n with
  | zero => rfl
  | succ w ih => simp [decDigits, ih]

theorem mem_decDigits {w n : ℕ} {c : Char} (hc : c ∈ decDigits w n) :
    ∃ k, c = Nat.digitChar (k % 10) := by
  induction w generalizing n with
  | zero => cases hc
  | succ w ih =>
    rcases List.mem_append.mp hc with hc | hc
    · exact ih hc
    · exact ⟨n, List.mem_singleton.mp hc⟩

theorem mem_dateText {date : ℕ × ℕ × ℕ} {c : Char} (hc : c ∈ dateText date) :
    (∃ k, c = Nat.digitChar (k % 10)) ∨ c = '-' := by
  simp only [dateText, List.mem_append, List.mem_cons] at hc
  rcases hc with (hc | rfl | hc) | rfl | hc
  · exact .inl (mem_decDigits hc)
  · exact .inr rfl
  · exact .inl (mem_decDigits hc)
  · exact .inr rfl
  · exact .inl (mem_decDigits hc)

theorem mem_timeText {us : ℕ} {c : Char} (hc : c ∈ timeText us) :
    (∃ k, c = Nat.digitChar (k % 10)) ∨ c = ':' ∨ c = '.' := by
  simp only [timeText, List.mem_append, List.mem_cons] at hc
  rcases hc with ((hc | rfl | hc) | rfl | hc) | hc
  · exact .inl (mem_decDigits hc)
  · exact .inr (.inl rfl)
  · exact .inl (mem_decDigits hc)
  · exact .inr (.inl rfl)
  · exact .inl (mem_decDigits hc)
  · split at hc
    · cases hc
    · rcases List.mem_cons.mp hc with rfl | hc
      · exact .inr (.inr rfl)
      · exact .inl (mem_decDigits hc)

/-- Digits and punctuation. -/
theorem mem_isoformat {t : Time} {c : Char} (hc : c ∈ isoformat t) :
    (∃ k, c = Nat.digitChar (k % 10)) ∨ c ∈ ['-', 'T', ':', '.', '+'] := by
  simp only [isoformat, List.mem_append, List.mem_cons, List.not_mem_nil, or_false] at hc
  rcases hc with (hc | rfl | hc) | hc
  · exact (mem_dateText hc).imp_right fun h => by simp [h]
  · exact .inr (by simp)
  · exact (mem_timeText hc).imp_right fun h => by rcases h with rfl | rfl <;> simp
  · rcases hc with rfl | rfl | rfl | rfl | rfl | rfl
    · exact .inr (by simp)
    · exact .inl ⟨0, rfl⟩
    · exact .inl ⟨0, rfl⟩
    · exact .inr (by simp)
    · exact .inl ⟨0, rfl⟩
    · exact .inl ⟨0, rfl⟩

theorem ascii_decDigit (k : ℕ) : (Nat.digitChar (k % 10)).toNat < 0x80 := by
  rw [Nat.toNat_digitChar_of_lt_ten (Nat.mod_lt k (by decide))]
  omega

theorem ascii_isoformat {t : Time} {c : Char} (hc : c ∈ isoformat t) : c.toNat < 0x80 := by
  rcases mem_isoformat hc with ⟨k, rfl⟩ | hc
  · exact ascii_decDigit k
  · simp only [List.mem_cons, List.not_mem_nil, or_false] at hc
    rcases hc with rfl | rfl | rfl | rfl | rfl <;> decide

/-! ## Reading back -/

/-- The bytes of an ASCII text. -/
def asciiBytes (cs : List Char) : List UInt8 := cs.map asciiByte

theorem asciiBytes_append (a b : List Char) :
    asciiBytes (a ++ b) = asciiBytes a ++ asciiBytes b := List.map_append

theorem asciiBytes_cons (a : Char) (b : List Char) :
    asciiBytes (a :: b) = asciiByte a :: asciiBytes b := rfl

theorem length_asciiBytes (cs : List Char) : (asciiBytes cs).length = cs.length := List.length_map _

theorem encodeUtf8_ascii {cs : List Char} (h : ∀ c ∈ cs, c.toNat < 0x80) :
    encodeUtf8 (PyStr.ofChars cs) = some (asciiBytes cs) := by
  refine encodeUtf8_eq_some.mpr ⟨plain_ofChars cs, ?_⟩
  induction cs with
  | nil => rfl
  | cons c cs ih =>
    have hcons : PyStr.ofChars (c :: cs) = CodePoint.ofChar c :: PyStr.ofChars cs := rfl
    rw [hcons, List.flatMap_cons, utf8EncodeChar_ascii (h c List.mem_cons_self),
      ih fun x hx => h x (List.mem_cons_of_mem _ hx)]
    rfl

theorem sanitizeIsoformatStr_plain {s : PyStr} (h : Plain s) : sanitizeIsoformatStr s = s := by
  have hnone : [7, 8, 10].find? (fun pos => s[pos]?.any CodePoint.isSurrogate) = none := by
    refine List.find?_eq_none.mpr fun pos _ => ?_
    cases hc : s[pos]? with
    | none => simp
    | some c => simp [h c (List.mem_of_getElem? hc)]
  rw [sanitizeIsoformatStr, hnone]

theorem peek_cons (b : UInt8) (p : List UInt8) : peek (b :: p) = b := rfl

theorem byteDigit_decDigit (n : ℕ) : byteDigit (asciiByte (Nat.digitChar (n % 10))) = some (n % 10) := by
  have hlt : n % 10 < 10 := Nat.mod_lt n (by decide)
  have htoNat : (asciiByte (Nat.digitChar (n % 10))).toNat = 48 + n % 10 := by
    rw [asciiByte, Nat.toNat_digitChar_of_lt_ten hlt, UInt8.toNat_ofNat']
    omega
  rw [byteDigit, htoNat, if_pos (by omega), Nat.add_sub_cancel_left]

theorem asciiByte_decDigit_ne {b : UInt8} (h : byteDigit b = none) (n : ℕ) :
    asciiByte (Nat.digitChar (n % 10)) ≠ b := by
  rintro rfl
  rw [byteDigit_decDigit] at h
  cases h

/-- The last digit comes last. -/
theorem parseDigits_succ (w var : ℕ) (p : List UInt8) : parseDigits (w + 1) var p =
    (parseDigits w var p).bind fun x =>
      (byteDigit (peek x.2)).bind fun d => some (x.1 * 10 + d, x.2.tail) := by
  induction w generalizing var p with
  | zero => rfl
  | succ w ih =>
    rw [parseDigits, parseDigits]
    cases byteDigit (peek p) with
    | none => rfl
    | some d => exact ih (var * 10 + d) p.tail

/-- The text of a number is read back. -/
theorem parseDigits_decDigits (w n : ℕ) (rest : List UInt8) :
    parseDigits w 0 (asciiBytes (decDigits w n) ++ rest) = some (n % 10 ^ w, rest) := by
  induction w generalizing n rest with
  | zero => simp [parseDigits, decDigits, asciiBytes, Nat.mod_one]
  | succ w ih =>
    rw [parseDigits_succ, decDigits, asciiBytes_append, List.append_assoc, ih]
    simp only [asciiBytes_cons, List.cons_append, Option.bind_some, peek_cons, byteDigit_decDigit,
      List.tail_cons]
    rw [Nat.pow_succ', Nat.mod_mul]
    congr 2
    omega

theorem parseDigits_of_lt {w n : ℕ} (h : n < 10 ^ w) (rest : List UInt8) :
    parseDigits w 0 (asciiBytes (decDigits w n) ++ rest) = some (n, rest) := by
  rw [parseDigits_decDigits, Nat.mod_eq_of_lt h]

theorem peek_decDigits (w n : ℕ) (rest : List UInt8) {b : UInt8} (h : byteDigit b = none) :
    peek (asciiBytes (decDigits (w + 1) n) ++ rest) ≠ b := by
  obtain ⟨c, cs, hcs⟩ := List.exists_cons_of_length_eq_add_one (length_decDigits (w + 1) n)
  obtain ⟨k, rfl⟩ := mem_decDigits (hcs ▸ List.mem_cons_self : c ∈ decDigits (w + 1) n)
  rw [hcs]
  exact asciiByte_decDigit_ne h k

theorem parseIsoformatDate_dateText {date : ℕ × ℕ × ℕ} (h : ValidDate date) (rest : List UInt8)
    (len : ℕ) : parseIsoformatDate (asciiBytes (dateText date) ++ rest) len = some date := by
  obtain ⟨y, m, d⟩ := date
  have hd : d ≤ 31 := by
    refine h.day.2.trans ?_
    have : ∀ leap : Bool, ∀ m ≤ 12, daysInMonth leap m ≤ 31 := by decide
    exact this _ _ h.month.2
  have hy : y < 10 ^ 4 := Nat.lt_succ_of_le h.year.2
  have hm : m < 10 ^ 2 := Nat.lt_of_le_of_lt h.month.2 (by decide)
  have hnotWeek : ∀ q, peek (asciiBytes (decDigits 2 m) ++ q) ≠ asciiByte 'W' :=
    fun q => peek_decDigits 1 m q (by decide)
  simp only [dateText, asciiBytes_append, asciiBytes_cons, List.append_assoc, List.cons_append,
    parseIsoformatDate, parseDigits_of_lt hy, Option.bind_eq_bind, Option.bind_some, peek_cons,
    if_true, List.drop_succ_cons, List.drop_zero, if_neg (hnotWeek _), parseDigits_of_lt hm, ne_eq, not_true_eq_false, and_false, if_false,
    parseDigits_of_lt (show d < 10 ^ 2 by omega)]
  rfl

/-- The time of day of a number of microseconds. -/
def Clock.ofMicros (us : ℕ) : Clock :=
  ⟨us / 3600000000, us / 60000000 % 60, us / 1000000 % 60, us % 1000000⟩

theorem Clock.total_ofMicros (us : ℕ) : (ofMicros us).total = us := by
  simp only [total, ofMicros]
  omega

/-- A component before a separator. -/
theorem parseComponents_separator {n left : ℕ} (h : n < 10 ^ 2) (hleft : 3 < left) (more : ℕ)
    (p : List UInt8) :
    parseComponents true (more + 1) (asciiBytes (decDigits 2 n) ++ asciiByte ':' :: p) left =
      (parseComponents true more p (left - 3)).map fun x => (n :: x.1, x.2) := by
  rw [parseComponents, parseDigits_of_lt h]
  have hmore : ¬left - 2 ≤ 1 := by omega
  simp only [Option.bind_eq_bind, Option.bind_some, peek_cons, if_neg hmore, and_self, if_true,
    List.tail_cons]
  rw [show left - 2 - 1 = left - 3 by omega]
  cases parseComponents true more p (left - 3) <;> rfl

def utcText : List Char := ['+', '0', '0', ':', '0', '0']

theorem parseFraction_decDigits {f : ℕ} (h : f < 10 ^ 6) :
    parseFraction (asciiBytes (decDigits 6 f) ++ asciiBytes utcText) 6 = some (f, true) := by
  rw [parseFraction]
  simp only [min_self, parseDigits_of_lt h, Option.bind_eq_bind, Option.bind_some, Nat.sub_self,
    Nat.pow_zero, Nat.mul_one]
  rfl

/-- The seconds, with the microseconds when there are any. -/
theorem parseComponents_seconds {n f : ℕ} (hn : n < 10 ^ 2) (hf : f < 10 ^ 6) {fraction : List Char}
    (hfraction : fraction = if f = 0 then [] else '.' :: decDigits 6 f) :
    parseComponents true 1 (asciiBytes (decDigits 2 n) ++ asciiBytes (fraction ++ utcText))
      (2 + fraction.length) = some ([n], f, true) := by
  rw [parseComponents, parseDigits_of_lt hn, Nat.add_sub_cancel_left]
  by_cases hzero : f = 0
  · rw [if_pos hzero] at hfraction
    rw [hfraction, hzero]
    rfl
  · rw [if_neg hzero] at hfraction
    have hlen : ('.' :: decDigits 6 f).length = 7 := by rw [List.length_cons, length_decDigits]
    have hcolon : asciiByte '.' ≠ asciiByte ':' := by decide
    rw [hfraction, hlen, List.cons_append, asciiBytes_cons, asciiBytes_append]
    simp only [Option.bind_eq_bind, Option.bind_some, peek_cons, List.tail_cons, hcolon, and_false,
      true_or, if_false, if_true, if_neg (show ¬7 ≤ 1 by decide), Nat.add_one_sub_one,
      parseFraction_decDigits hf]
    rfl

/-- The text after the time of day is still there. -/
theorem parseHhMmSsFf_timeText {us : ℕ} (h : us < microsPerDay) :
    parseHhMmSsFf (asciiBytes (timeText us ++ utcText)) (timeText us).length =
      some (.ofMicros us, true) := by
  unfold microsPerDay at h
  obtain ⟨fraction, hfraction⟩ : ∃ fraction, fraction =
    if us % 1000000 = 0 then [] else '.' :: decDigits 6 (us % 1000000) := ⟨_, rfl⟩
  have htext : timeText us = decDigits 2 (us / 3600000000) ++
      ':' :: (decDigits 2 (us / 60000000 % 60) ++
        ':' :: (decDigits 2 (us / 1000000 % 60) ++ fraction)) := by
    rw [hfraction, timeText]
    simp only [List.append_assoc, List.cons_append]
  have hlen : (timeText us).length = 3 + (3 + (2 + fraction.length)) := by
    rw [htext]
    simp only [List.length_append, List.length_cons, length_decDigits]
    omega
  have hcolon : peek ((asciiBytes (timeText us ++ utcText)).drop 2) = asciiByte ':' := by
    rw [htext]
    rfl
  rw [parseHhMmSsFf, hcolon, hlen, htext]
  simp only [List.append_assoc, List.cons_append, asciiBytes_append, asciiBytes_cons, decide_true]
  rw [parseComponents_separator (by omega) (by omega), Nat.add_sub_cancel_left,
    parseComponents_separator (by omega) (by omega), Nat.add_sub_cancel_left,
    ← asciiBytes_append, parseComponents_seconds (by omega) (by omega) hfraction]
  rfl

theorem findIdx?_timeText (us : ℕ) :
    (asciiBytes (timeText us ++ utcText)).findIdx? startsZone = some (timeText us).length := by
  have hnone : (asciiBytes (timeText us)).findIdx? startsZone = none := by
    refine List.findIdx?_eq_none_iff.mpr fun b hb => ?_
    obtain ⟨c, hc, rfl⟩ := List.mem_map.mp hb
    rcases mem_timeText hc with ⟨k, rfl⟩ | rfl | rfl
    · have hne : ∀ b, byteDigit b = none → asciiByte (Nat.digitChar (k % 10)) ≠ b :=
        fun b hb => asciiByte_decDigit_ne hb k
      simp only [startsZone, hne (asciiByte '+') (by decide), hne (asciiByte '-') (by decide),
        hne (asciiByte 'Z') (by decide), decide_false, Bool.or_self]
    · decide
    · decide
  have hzero : (asciiBytes utcText).findIdx? startsZone = some 0 := by decide
  rw [asciiBytes_append, List.findIdx?_append, hnone, hzero, length_asciiBytes]
  simp

theorem parseIsoformatTime_timeText {us : ℕ} (h : us < microsPerDay) :
    parseIsoformatTime (asciiBytes (timeText us ++ utcText)) = some (.ofMicros us, some 0) := by
  have hdrop : (asciiBytes (timeText us ++ utcText)).drop (timeText us).length =
      asciiBytes utcText := by
    rw [asciiBytes_append, ← length_asciiBytes, List.drop_left]
  have hzone : parseZone (asciiBytes utcText) = some 0 := by decide
  simp only [parseIsoformatTime, findIdx?_timeText, parseHhMmSsFf_timeText h, hdrop, hzone]
  rfl

/-- The instants a `datetime` in UTC can have. -/
def IsDatetime (t : Time) : Prop := ∃ us : ℕ, us < maxOrdinal * microsPerDay ∧ t = instant us

theorem microseconds_instant (us : ℕ) : microseconds (instant us) = us := by
  have : (instant us + unixEpoch) * 1000000 = ((us : ℤ) : ℚ) := by
    rw [instant, sub_add_cancel, Rat.div_mul_cancel (by decide)]
  rw [microseconds, this, Rat.floor_intCast]
  rfl

theorem findSeparator_dateText (date : ℕ × ℕ × ℕ) (rest : List UInt8) :
    findSeparator (asciiBytes (dateText date) ++ rest) = some 10 := by
  have hlen : (asciiBytes (dateText date) ++ rest).length ≠ 7 := by
    rw [List.length_append, length_asciiBytes, show (dateText date).length = 10 from rfl]
    omega
  have hdash : peek ((asciiBytes (dateText date) ++ rest).drop 4) = asciiByte '-' := rfl
  have hnotWeek : peek ((asciiBytes (dateText date) ++ rest).drop 5) ≠ asciiByte 'W' :=
    asciiByte_decDigit_ne (by decide) (date.2.1 / 10)
  simp only [findSeparator, if_neg hlen, if_pos hdash, if_neg hnotWeek]

theorem ofComponents_ofMicros {date : ℕ × ℕ × ℕ} (h : ValidDate date) {us : ℕ}
    (hus : us < microsPerDay) : ofComponents date (.ofMicros us) =
      some ((ymd2ord date.1 date.2.1 date.2.2 - 1) * microsPerDay + us) := by
  have hclock : us / 3600000000 < 24 := by
    unfold microsPerDay at hus
    omega
  simp only [ofComponents]
  rw [if_pos ⟨h.year.1, h.year.2, h.month.1, h.month.2, h.day.1, h.day.2, hclock,
    Nat.mod_lt _ (by decide), Nat.mod_lt _ (by decide), Nat.mod_lt _ (by decide)⟩,
    Clock.total_ofMicros]

/-- An instant is read back from its text. -/
theorem fromisoformat_isoformat {t : Time} (h : IsDatetime t) :
    fromisoformat (PyStr.ofChars (isoformat t)) = some (microseconds t, some 0) := by
  have hascii : ∀ c ∈ isoformat t, c.toNat < 0x80 := fun c hc => ascii_isoformat hc
  obtain ⟨us, hus, rfl⟩ := h
  have hday : us / microsPerDay < maxOrdinal := Nat.div_lt_of_lt_mul (by rwa [Nat.mul_comm])
  have hmod : us % microsPerDay < microsPerDay := Nat.mod_lt _ (by decide)
  obtain ⟨hvalid, hord⟩ := ord2ymd_valid (Nat.le_add_left 1 _) (Nat.succ_le_of_lt hday)
  have htext : isoformat (instant us) = dateText (ord2ymd (us / microsPerDay + 1)) ++
      'T' :: (timeText (us % microsPerDay) ++ utcText) := by
    rw [isoformat, microseconds_instant]
    simp only [utcText, List.append_assoc, List.cons_append]
  rw [htext] at hascii ⊢
  rw [microseconds_instant]
  generalize ord2ymd (us / microsPerDay + 1) = date at hvalid hord hascii
  have hlen : (dateText date).length = 10 := rfl
  have hshort : ¬(PyStr.ofChars (dateText date ++
      'T' :: (timeText (us % microsPerDay) ++ utcText))).length < 7 := by
    rw [PyStr.ofChars, List.length_map, List.length_append, hlen]
    omega
  have hdrop : (asciiBytes (dateText date) ++ asciiByte 'T' ::
      asciiBytes (timeText (us % microsPerDay) ++ utcText)).drop 10 =
        asciiByte 'T' :: asciiBytes (timeText (us % microsPerDay) ++ utcText) := by
    rw [← hlen, ← length_asciiBytes, List.drop_left]
  have hwidth : charWidth (peek (asciiByte 'T' ::
      asciiBytes (timeText (us % microsPerDay) ++ utcText))) = 1 := by
    rw [peek_cons]
    decide
  rw [fromisoformat, if_neg hshort, sanitizeIsoformatStr_plain (plain_ofChars _),
    encodeUtf8_ascii hascii, asciiBytes_append, asciiBytes_cons]
  simp only [Option.bind_eq_bind, Option.bind_some, findSeparator_dateText,
    parseIsoformatDate_dateText hvalid, hdrop, hwidth, List.drop_succ_cons, List.drop_zero,
    parseIsoformatTime_timeText hmod, reduceCtorEq, if_false, ofComponents_ofMicros hvalid hmod,
    hord, Nat.add_sub_cancel, Nat.div_add_mod']
  rfl

end Datetime

end EventHarbor
