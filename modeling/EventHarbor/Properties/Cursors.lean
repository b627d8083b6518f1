import EventHarbor.Serialization.AwareCursor

/-!
# Cursors round trip

A cursor is written in an alphabet that needs no quoting in a URL, within the
length that the endpoints accept, and it is read back as the same instant and the
same row, so no two sort keys share their text.
-/

namespace EventHarbor

open Datetime

/-! ## What is read back -/

/-- The same instant with its wall clock in UTC. -/
structure AwareDatetime.IsUTC (d t : AwareDatetime) : Prop where
  offset : t.utcoffset = 0
  instant : t.instant = d.instant

theorem AwareDatetime.astimezoneUTC_some {d : AwareDatetime} (h : d.Representable) :
    ∃ t, d.astimezoneUTC = some t ∧ d.IsUTC t := by
  refine ⟨_, dif_pos h, rfl, ?_⟩
  have hpos := h.1
  simp only [AwareDatetime.instant, AwareDatetime.utc] at hpos ⊢
  rw [Int.toNat_of_nonneg hpos, Int.sub_zero]

section Read

variable (floatOf : List Char → PyFloat)

theorem AwareDatetime.fromisoformat_instant {t : AwareDatetime} (h : t.utcoffset = 0) :
    AwareDatetime.fromisoformat (PyStr.ofChars (isoformat t.instant)) = some t := by
  have hinstant : t.instant = Datetime.instant t.wall := by
    rw [AwareDatetime.instant, AwareDatetime.utc, h, Int.sub_zero]
  have hread := fromisoformat_isoformat ⟨t.wall, t.wall_lt, hinstant⟩
  rw [hinstant, microseconds_instant, ← hinstant] at hread
  obtain ⟨d, hd, hwall, hoffset⟩ := AwareDatetime.fromisoformat_of hread
  rw [hd]
  obtain ⟨wall, utcoffset, _, _⟩ := d
  obtain ⟨wall', utcoffset', _, _⟩ := t
  subst hwall hoffset
  dsimp only at h
  subst h
  rfl

theorem AwareCursor.read_encodeCursor {t : AwareDatetime} (h : t.utcoffset = 0) (rowId : UUID) :
    AwareCursor.read floatOf (encodeCursor ⟨t.instant, rowId⟩) = some ⟨t, rowId⟩ := by
  obtain ⟨c, hc⟩ : ∃ c : PageCursor, c = ⟨t.instant, rowId⟩ := ⟨_, rfl⟩
  have hencode : encodeUtf8 c.json = some (c.json.flatMap fun x =>
    String.utf8EncodeChar (Char.ofNat x.val)) := encodeUtf8_eq_some.mpr ⟨c.plain_json, rfl⟩
  have hv : (Json.lookup c.members "v").any Json.isOne = true := rfl
  have htimestamp : Json.lookup c.members "timestamp" =
    some (.str (PyStr.ofChars (isoformat c.timestamp))) := rfl
  have hid : Json.lookup c.members "id" = some (.str (PyStr.ofChars c.rowId.chars)) := rfl
  have hiso : AwareDatetime.fromisoformat (PyStr.ofChars (isoformat c.timestamp)) = some t := by
    rw [hc]
    exact AwareDatetime.fromisoformat_instant h
  rw [← hc]
  simp only [AwareCursor.read, encodeCursor, hencode, Option.getD_some, urlsafeB64decode_rstrip,
    Option.bind_eq_bind, Option.bind_some, decodeUtf8_encode hencode, c.loads_json,
    Except.toOption, hv, htimestamp, hid, Json.str?, hiso, UUID.parse_chars, Bool.not_true,
    Bool.false_eq_true, if_false]
  rw [hc]
  rfl

/-- The queries get back the sort key of a cursor that was handed out. -/
theorem decodeCursor_encodeCursor {c : PageCursor} (h : IsDatetime c.timestamp) :
    decodeCursor floatOf (some (encodeCursor c)) = .ok (some c) := by
  obtain ⟨t, hoffset, hinstant⟩ : ∃ t : AwareDatetime,
      t.utcoffset = 0 ∧ t.instant = c.timestamp := by
    obtain ⟨us, hus, ht⟩ := h
    refine ⟨⟨us, 0, hus, by decide⟩, rfl, ?_⟩
    rw [ht, AwareDatetime.instant, AwareDatetime.utc, Int.sub_zero]
  have hread := AwareCursor.read_encodeCursor floatOf hoffset c.rowId
  rw [hinstant] at hread
  rw [decodeCursor, readCursor_eq, hread, Option.map_some, AwareCursor.key, hinstant]

theorem AwareCursor.encode_some {c : AwareCursor} (h : c.timestamp.Representable) :
    ∃ t, c.timestamp.IsUTC t ∧ c.encode = some (encodeCursor ⟨t.instant, c.rowId⟩) := by
  obtain ⟨t, ht, hutc⟩ := AwareDatetime.astimezoneUTC_some h
  exact ⟨t, hutc, by rw [AwareCursor.encode, ht, Option.map_some]⟩

end Read

/-! ## Its alphabet and its length -/

/-- The alphabet of `base64.urlsafe_b64encode`; the padding is not in it. -/
def urlSafe (c : CodePoint) : Prop :=
  (65 ≤ c.val ∧ c.val ≤ 90) ∨ (97 ≤ c.val ∧ c.val ≤ 122) ∨ (48 ≤ c.val ∧ c.val ≤ 57) ∨
    isCode c '-' = true ∨ isCode c '_' = true

instance (c : CodePoint) : Decidable (urlSafe c) := inferInstanceAs (Decidable (_ ∨ _))

theorem urlSafe_sextet : ∀ n < 64, urlSafe (CodePoint.ofChar (Base64.sextet n)) := by decide

theorem urlSafe_encodeCursor (c : PageCursor) : ∀ x ∈ encodeCursor c, urlSafe x := by
  intro x hx
  rw [encodeCursor, Base64.rstrip_encode] at hx
  obtain ⟨a, ha, rfl⟩ := List.mem_map.mp hx
  obtain ⟨n, hn, rfl⟩ := Base64.mem_body ha
  exact urlSafe_sextet n hn

/-- A character that JSON and UTF-8 write as it is. -/
def Bare (c : Char) : Prop := 43 ≤ c.toNat ∧ c.toNat < 91 ∨ 97 ≤ c.toNat ∧ c.toNat < 123

instance (c : Char) : Decidable (Bare c) := inferInstanceAs (Decidable (_ ∨ _))

/-- A property of the characters of a literal, checked character by character. -/
theorem forall_of_all {p : Char → Prop} [DecidablePred p] {cs : List Char}
    (h : (cs.all fun c => p c) = true) : ∀ c ∈ cs, p c :=
  fun c hc => of_decide_eq_true (List.all_eq_true.mp h c hc)

theorem bare_hexDigit : ∀ n < 16, Bare (Nat.digitChar n) := by decide

theorem bare_isoformat (t : Time) : ∀ c ∈ isoformat t, Bare c := by
  have hpunct : ∀ c ∈ ['-', 'T', ':', '.', '+'], Bare c := forall_of_all (by decide)
  intro c hc
  rcases mem_isoformat hc with ⟨k, rfl⟩ | hc
  · exact bare_hexDigit _ (by omega)
  · exact hpunct c hc

/-- With its microseconds the text has 32 characters. -/
theorem length_isoformat (t : Time) : (isoformat t).length ≤ 32 := by
  simp only [isoformat, dateText, timeText, List.length_append, List.length_cons,
    length_decDigits, List.length_nil]
  split
  · simp only [List.length_nil]
    omega
  · simp only [List.length_cons, length_decDigits]
    omega

theorem bare_chars (u : UUID) : ∀ c ∈ u.chars, Bare c := by
  intro c hc
  by_cases hdash : c = '-'
  · rw [hdash]
    decide
  · have hmem : c ∈ hexDigits 32 u.val := by
      rw [← u.filter_chars]
      exact List.mem_filter.mpr ⟨hc, by simpa using hdash⟩
    obtain ⟨d, hd, rfl⟩ := digit_cases hmem
    exact bare_hexDigit _ hd

theorem length_chars (u : UUID) : u.chars.length = 36 := by
  simp only [UUID.chars, List.length_append, List.length_cons, List.length_take, List.length_drop,
    hexDigits_length]
  omega

theorem escape_bare {c : Char} (h : Bare c) :
    escapeCodePoint (CodePoint.ofChar c) = [CodePoint.ofChar c] := by
  have hval : (CodePoint.ofChar c).val = c.toNat := CodePoint.val_ofChar c
  unfold Bare at h
  rw [← hval] at h
  unfold escapeCodePoint
  split_ifs <;> first | omega | rfl

theorem quote_bare {cs : List Char} (h : ∀ c ∈ cs, Bare c) :
    quote (PyStr.ofChars cs) = PyStr.ofChars ('"' :: (cs ++ ['"'])) := by
  have hbody : (PyStr.ofChars cs).flatMap escapeCodePoint = PyStr.ofChars cs := by
    induction cs with
    | nil => rfl
    | cons c cs ih =>
      have hcons : PyStr.ofChars (c :: cs) = CodePoint.ofChar c :: PyStr.ofChars cs := rfl
      rw [hcons, List.flatMap_cons, escape_bare (h c List.mem_cons_self),
        ih fun x hx => h x (List.mem_cons_of_mem _ hx)]
      rfl
  rw [quote, hbody]
  simp [PyStr.ofChars]

/-- The JSON of a cursor before and between its two values. -/
def cursorText (timestamp rowId : List Char) : List Char :=
  ['{', '"', 'v', '"', ':', '1', ',', '"', 't', 'i', 'm', 'e', 's', 't', 'a', 'm', 'p', '"', ':',
    '"'] ++ timestamp ++ ['"', ',', '"', 'i', 'd', '"', ':', '"'] ++ rowId ++ ['"', '}']

theorem PageCursor.json_eq (c : PageCursor) :
    c.json = PyStr.ofChars (cursorText (isoformat c.timestamp) c.rowId.chars) := by
  have hv : quote (PyStr.ofString "v") = PyStr.ofChars ['"', 'v', '"'] := by decide
  have htimestamp : quote (PyStr.ofString "timestamp") =
    PyStr.ofChars ['"', 't', 'i', 'm', 'e', 's', 't', 'a', 'm', 'p', '"'] := by decide
  have hid : quote (PyStr.ofString "id") = PyStr.ofChars ['"', 'i', 'd', '"'] := by decide
  have hone : intText 1 = PyStr.ofChars ['1'] := by decide
  simp only [PageCursor.json, List.map_cons, List.map_nil, joinComma, memberText, hv, htimestamp,
    hid, hone, quote_bare (bare_isoformat c.timestamp), quote_bare (bare_chars c.rowId), cursorText]
  simp only [PyStr.ofChars, List.map_append, List.map_cons, List.map_nil, List.cons_append,
    List.nil_append, List.append_assoc]

/-- Four characters for three bytes. -/
theorem length_body (bytes : List UInt8) : 3 * (Base64.body bytes).length ≤ 4 * bytes.length + 2 := by
  induction bytes using Base64.body.induct with
  | case1 a b c rest ih =>
    simp only [Base64.body, List.length_cons]
    omega
  | case2 a b => simp [Base64.body]
  | case3 a => simp [Base64.body]
  | case4 => simp [Base64.body]

theorem ascii_cursorText (c : PageCursor) :
    ∀ a ∈ cursorText (isoformat c.timestamp) c.rowId.chars, a.toNat < 0x80 := by
  intro a ha
  simp only [cursorText, List.mem_append] at ha
  rcases ha with (((ha | ha) | ha) | ha) | ha
  · exact forall_of_all (p := (·.toNat < 0x80)) (by decide) a ha
  · exact ascii_isoformat ha
  · exact forall_of_all (p := (·.toNat < 0x80)) (by decide) a ha
  · have hbare := bare_chars c.rowId a ha
    unfold Bare at hbare
    omega
  · exact forall_of_all (p := (·.toNat < 0x80)) (by decide) a ha

theorem length_encodeCursor (c : PageCursor) : (encodeCursor c).length ≤ 131 := by
  have hencode := encodeUtf8_ascii (ascii_cursorText c)
  rw [← c.json_eq] at hencode
  have hlen : (asciiBytes (cursorText (isoformat c.timestamp) c.rowId.chars)).length ≤ 98 := by
    have := length_isoformat c.timestamp
    simp only [length_asciiBytes, cursorText, List.length_append, List.length_cons,
      List.length_nil, length_chars]
    omega
  have hbody := length_body (asciiBytes (cursorText (isoformat c.timestamp) c.rowId.chars))
  rw [encodeCursor, hencode, Option.getD_some, Base64.rstrip_encode, PyStr.ofChars, List.length_map]
  omega

/-! ## The round trip -/

section Main

variable (floatOf : List Char → PyFloat)

theorem cursor_round_trip (c : AwareCursor) (h : c.timestamp.Representable) :
    ∃ text, c.encode = some text ∧ (∀ x ∈ text, urlSafe x) ∧ text.length ≤ 512 ∧
      (∃ t, c.timestamp.IsUTC t ∧
        AwareCursor.decode floatOf (some text) = .ok (some ⟨t, c.rowId⟩)) ∧
      ∀ c' : AwareCursor, c'.timestamp.Representable →
        (c'.encode = some text ↔
          c'.timestamp.instant = c.timestamp.instant ∧ c'.rowId = c.rowId) := by
  obtain ⟨t, hutc, hencode⟩ := AwareCursor.encode_some h
  have hread := AwareCursor.read_encodeCursor floatOf hutc.offset c.rowId
  have hlen := length_encodeCursor ⟨t.instant, c.rowId⟩
  refine ⟨_, hencode, urlSafe_encodeCursor _, by omega, ⟨t, hutc, ?_⟩, ?_⟩
  · rw [AwareCursor.decode, hread]
  · intro c' h'
    obtain ⟨t', hutc', hencode'⟩ := AwareCursor.encode_some h'
    rw [hencode', ← hutc.instant, ← hutc'.instant]
    constructor
    · intro heq
      have hread' := AwareCursor.read_encodeCursor floatOf hutc'.offset c'.rowId
      rw [Option.some.inj heq, hread] at hread'
      obtain ⟨rfl, hid⟩ := AwareCursor.mk.injEq .. ▸ Option.some.inj hread'
      exact ⟨rfl, hid.symm⟩
    · rintro ⟨hinstant, hid⟩
      rw [hinstant, hid]

end Main

/-- Half past midnight in year 1, one hour ahead of UTC: not in the calendar. -/
example : (⟨1800000000, 3600000000, by decide, by decide⟩ : AwareDatetime).astimezoneUTC = none :=
  rfl

namespace Sample

/-- 2026-08-23T12:00:00.000001+02:00 -/
def localNoon : AwareCursor where
  timestamp := ⟨63923083200000001, 7200000000, by decide, by decide⟩
  rowId := ⟨7, by decide⟩

end Sample

theorem cursor_round_trip_of_noon : Sample.localNoon.timestamp.Representable ∧
    ∃ text, Sample.localNoon.encode = some text ∧ text.length ≤ 512 := by
  have h : Sample.localNoon.timestamp.Representable := by decide
  obtain ⟨text, hencode, -, hlen, -⟩ := cursor_round_trip (fun _ => ⟨0⟩) Sample.localNoon h
  exact ⟨h, text, hencode, hlen⟩

end EventHarbor
