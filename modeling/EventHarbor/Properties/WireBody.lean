import EventHarbor.Frontend.EventJourney
import EventHarbor.Properties.CanonicalForm
import EventHarbor.Refinement.Writes

/-!
# The body that the event page shows

On data that both languages write alike, the page's canonical JSON of an event has
the bytes that were stored when the event was accepted.
-/

namespace EventHarbor

open Relational EventService JavaScript
open Frontend hiding Delivery

/-! ## Portable values -/

/-- A key inside the Basic Multilingual Plane. -/
def PyStr.bmp (s : PyStr) : Bool := s.all (·.val < 0x10000)

mutual

/-- Without floats, with integers that are JavaScript numbers of their own and keys
inside the Basic Multilingual Plane. -/
def Json.portable : Json → Bool
  | .int n => n.natAbs ≤ 2 ^ 53 - 1
  | .float _ => false
  | .arr xs => Json.itemsPortable xs
  | .obj ms => Json.membersPortable ms
  | _ => true

def Json.itemsPortable : List Json → Bool
  | [] => true
  | x :: xs => x.portable && Json.itemsPortable xs

def Json.membersPortable : List (PyStr × Json) → Bool
  | [] => true
  | (k, v) :: ms => k.bmp && v.portable && Json.membersPortable ms

end

theorem Json.portable_arr {xs : List Json} :
    (Json.arr xs).portable = true ↔ ∀ x ∈ xs, x.portable = true := by
  rw [portable]
  induction xs with
  | nil => simp [itemsPortable]
  | cons x xs ih => rw [itemsPortable, Bool.and_eq_true, ih, List.forall_mem_cons]

theorem Json.portable_obj {ms : List (PyStr × Json)} :
    (Json.obj ms).portable = true ↔ ∀ m ∈ ms, m.1.bmp = true ∧ m.2.portable = true := by
  rw [portable]
  induction ms with
  | nil => simp [membersPortable]
  | cons m ms ih =>
    rw [membersPortable, Bool.and_eq_true, Bool.and_eq_true, ih, List.forall_mem_cons]

/-- The order of members does not matter. -/
theorem Json.Same.portable {a b : Json} (h : a.Same b) : a.portable = true → b.portable = true := by
  induction h with
  | refl j => exact id
  | trans _ _ ih₁ ih₂ => exact fun h => ih₂ (ih₁ h)
  | perm hp =>
    intro h
    rw [portable_obj] at h ⊢
    exact fun m hm => h m (hp.mem_iff.mpr hm)
  | item xs ys _ ih =>
    intro h
    simp only [portable_arr, List.forall_mem_append, List.forall_mem_cons] at h ⊢
    exact ⟨h.1, ih h.2.1, h.2.2⟩
  | member ms ns k _ ih =>
    intro h
    simp only [portable_obj, List.forall_mem_append, List.forall_mem_cons] at h ⊢
    exact ⟨h.1, ⟨h.2.1.1, ih h.2.1.2⟩, h.2.2⟩

/-! ## Keys in the order of code units -/

theorem units_of_bmp {c : CodePoint} (h : c.val < 0x10000) : units c = [CodeUnit.ofNat c.val] := by
  rw [units, if_pos h]

theorem ofNat_lt_iff {c d : CodePoint} (hc : c.val < 0x10000) (hd : d.val < 0x10000) :
    CodeUnit.ofNat c.val < CodeUnit.ofNat d.val ↔ c < d := by
  rw [Fin.lt_def, Fin.lt_def, CodeUnit.val_ofNat, CodeUnit.val_ofNat, Nat.mod_eq_of_lt hc,
    Nat.mod_eq_of_lt hd]

theorem ofNat_inj_iff {c d : CodePoint} (hc : c.val < 0x10000) (hd : d.val < 0x10000) :
    CodeUnit.ofNat c.val = CodeUnit.ofNat d.val ↔ c = d := by
  rw [Fin.ext_iff, Fin.ext_iff, CodeUnit.val_ofNat, CodeUnit.val_ofNat, Nat.mod_eq_of_lt hc,
    Nat.mod_eq_of_lt hd]

/-- Inside the Basic Multilingual Plane the two orders agree. -/
theorem utf16_lt_iff {s t : PyStr} (hs : s.bmp = true) (ht : t.bmp = true) :
    utf16 s < utf16 t ↔ s < t := by
  induction s generalizing t with
  | nil =>
    cases t with
    | nil => simp
    | cons d t =>
      rw [PyStr.bmp, List.all_cons, Bool.and_eq_true, decide_eq_true_eq] at ht
      rw [utf16_cons, units_of_bmp ht.1]
      simp
  | cons c s ih =>
    rw [PyStr.bmp, List.all_cons, Bool.and_eq_true, decide_eq_true_eq] at hs
    cases t with
    | nil =>
      rw [utf16_cons, units_of_bmp hs.1]
      simp
    | cons d t =>
      rw [PyStr.bmp, List.all_cons, Bool.and_eq_true, decide_eq_true_eq] at ht
      rw [utf16_cons, utf16_cons, units_of_bmp hs.1, units_of_bmp ht.1, List.singleton_append,
        List.singleton_append, List.cons_lt_cons_iff, List.cons_lt_cons_iff, ih hs.2 ht.2,
        ofNat_lt_iff hs.1 ht.1, ofNat_inj_iff hs.1 ht.1]

/-- A member's text in JavaScript. -/
def toEntry (m : PyStr × PyStr) : JsStr × JsStr := (utf16 m.1, utf16 m.2)

theorem sortEntries_toEntry {ms : List (PyStr × PyStr)} (h : ∀ m ∈ ms, m.1.bmp = true) :
    sortEntries (ms.map toEntry) = (sortMembers ms).map toEntry := by
  refine (List.map_insertionSort _ _ toEntry ms fun a ha b hb => ?_).symm
  rw [← not_lt, ← not_lt]
  exact not_congr (utf16_lt_iff (h b hb) (h a ha)).symm

/-! ## The texts agree -/

theorem js_eq (s : String) : js s = utf16 (PyStr.ofString s) := rfl

theorem join_utf16 (ts : List PyStr) : join (ts.map utf16) = utf16 (joinComma ts) := by
  induction ts with
  | nil => rfl
  | cons t ts ih =>
    cases ts with
    | nil => rfl
    | cons t' ts =>
      rw [List.map_cons, List.map_cons, join, joinComma, utf16_append, utf16_cons, ← ih,
        List.map_cons, List.append_assoc]
      · rfl
      · simp
      · simp

theorem entryText_toEntry {m : PyStr × PyStr} (h : m.1.any CodePoint.isSurrogate = false) :
    entryText (toEntry m) = utf16 (memberText m) := by
  rw [entryText, toEntry, memberText, utf16_append, utf16_cons, stringify_utf16 h,
    List.append_assoc]
  rfl

theorem json_ofRat_intCast {n : ℤ} (h : n.natAbs ≤ 2 ^ 53 - 1) :
    ofChars (JsNumber.ofRat n).json = utf16 (intText n) := by
  have hlt : n.natAbs < 2 ^ 53 := by omega
  rw [JsNumber.ofRat_intCast hlt, JsNumber.json, JsNumber.finiteText]
  cases n with
  | ofNat m =>
    rw [Int.ofNat_eq_natCast, Int.cast_natCast]
    rcases Nat.eq_zero_or_pos m with rfl | hpos
    · simp [intText, ofChars]
    · rw [if_neg (by exact_mod_cast hpos.ne'), if_neg (by simp),
        JsNumber.text_shortest hpos (by simpa using hlt)]
      rfl
  | negSucc m =>
    have hneg : ((Int.negSucc m : ℤ) : ℚ) = -((m + 1 : ℕ) : ℚ) := Int.cast_negSucc m
    have hpos : (0 : ℚ) < (m + 1 : ℕ) := by positivity
    rw [hneg, if_neg (by linarith), if_pos (by linarith), neg_neg,
      JsNumber.text_shortest (Nat.succ_pos m) (by simpa using hlt)]
    rfl

theorem memberTexts_map {floatRepr : PyFloat → List Char} (ms : List (PyStr × Json)) :
    Json.memberTexts floatRepr ms = ms.map fun m => (m.1, m.2.text floatRepr) := by
  induction ms with
  | nil => rfl
  | cons m ms ih =>
    obtain ⟨k, v⟩ := m
    rw [Json.memberTexts, ih, List.map_cons]

theorem keys_scalar {ms : List (PyStr × Json)} (h : Json.membersScalar ms = true) :
    ∀ m ∈ ms, m.1.any CodePoint.isSurrogate = false := by
  induction ms with
  | nil => exact fun m hm => absurd hm List.not_mem_nil
  | cons m ms ih =>
    obtain ⟨k, v⟩ := m
    rw [Json.membersScalar, Bool.and_eq_true, Bool.and_eq_true, Bool.not_eq_true'] at h
    exact List.forall_mem_cons.mpr ⟨h.1.1, ih h.2⟩

mutual

/-- The page's text of a portable value is the stored one. -/
theorem canonicalJson_ofJson {floatRepr : PyFloat → List Char} : ∀ j : Json, j.portable = true →
    j.scalar = true → canonicalJson (.ofJson j) = utf16 (j.text floatRepr)
  | .null, _, _ => rfl
  | .bool true, _, _ => rfl
  | .bool false, _, _ => rfl
  | .int n, hp, _ => by
    rw [Json.portable, decide_eq_true_eq] at hp
    rw [JsValue.ofJson, canonicalJson, Json.text, json_ofRat_intCast hp]
  | .float x, hp, _ => by cases hp
  | .str s, _, hs => by
    rw [Json.scalar, Bool.not_eq_true'] at hs
    rw [JsValue.ofJson, canonicalJson, Json.text, stringify_utf16 hs]
  | .arr xs, hp, hs => by
    rw [JsValue.ofJson, canonicalJson, Json.text, itemTexts_ofItems xs hp hs, join_utf16,
      utf16_cons, utf16_append, List.append_assoc]
    rfl
  | .obj ms, hp, hs => by
    have hkeys : ∀ m ∈ Json.memberTexts floatRepr ms,
        m.1.bmp = true ∧ m.1.any CodePoint.isSurrogate = false := by
      intro m hm
      rw [memberTexts_map] at hm
      obtain ⟨m', hm', rfl⟩ := List.mem_map.mp hm
      exact ⟨(Json.portable_obj.mp hp m' hm').1, keys_scalar hs m' hm'⟩
    have hentries : ∀ m ∈ sortMembers (Json.memberTexts floatRepr ms),
        entryText (toEntry m) = utf16 (memberText m) := fun m hm =>
      entryText_toEntry (hkeys m ((List.perm_insertionSort _ _).mem_iff.mp hm)).2
    rw [JsValue.ofJson, canonicalJson, Json.text, entryTexts_ofMembers ms hp hs,
      sortEntries_toEntry fun m hm => (hkeys m hm).1, utf16_cons, utf16_append, ← join_utf16,
      List.map_map, List.map_map, List.append_assoc]
    rw [List.map_congr_left (f := entryText ∘ toEntry) (g := utf16 ∘ memberText) hentries]
    rfl

theorem itemTexts_ofItems {floatRepr : PyFloat → List Char} : ∀ xs : List Json,
    Json.itemsPortable xs = true → Json.itemsScalar xs = true →
      itemTexts (JsValue.ofItems xs) = (Json.itemTexts floatRepr xs).map utf16
  | [], _, _ => rfl
  | x :: xs, hp, hs => by
    rw [Json.itemsPortable, Bool.and_eq_true] at hp
    rw [Json.itemsScalar, Bool.and_eq_true] at hs
    rw [JsValue.ofItems, itemTexts, Json.itemTexts, List.map_cons,
      canonicalJson_ofJson x hp.1 hs.1, itemTexts_ofItems xs hp.2 hs.2]

theorem entryTexts_ofMembers {floatRepr : PyFloat → List Char} : ∀ ms : List (PyStr × Json),
    Json.membersPortable ms = true → Json.membersScalar ms = true →
      entryTexts (JsValue.ofMembers ms) = (Json.memberTexts floatRepr ms).map toEntry
  | [], _, _ => rfl
  | (k, v) :: ms, hp, hs => by
    rw [Json.membersPortable, Bool.and_eq_true, Bool.and_eq_true] at hp
    rw [Json.membersScalar, Bool.and_eq_true, Bool.and_eq_true] at hs
    rw [JsValue.ofMembers, entryTexts, Json.memberTexts, List.map_cons,
      canonicalJson_ofJson v hp.1.2 hs.1.2, entryTexts_ofMembers ms hp.2 hs.2]
    rfl

end

/-! ## Stored events -/

/-- An event as the API answers it: its datetime is written by `timestamp`, and its data
is read back as `data`. -/
def apiEvent (timestamp : Time → String) (e : Event) (data : List (PyStr × Json))
    (deliveries : List Frontend.Delivery) : EventDetail where
  id := utf16 (PyStr.ofChars e.id.chars)
  type := utf16 (PyStr.ofString e.eventType)
  createdAt := utf16 (PyStr.ofString (timestamp e.createdAt))
  data := JsValue.ofMembers data
  deliveries := deliveries

section Body

variable {lib : Lib} {request : EventPublishRequest} {draw : PublishDraw}

/-- The outbound body with other data. -/
def bodyWith (lib : Lib) (request : EventPublishRequest) (draw : PublishDraw)
    (data : List (PyStr × Json)) : Json :=
  .obj [(PyStr.ofString "id", .str (PyStr.ofChars draw.eventId.chars)),
    (PyStr.ofString "type", .str (PyStr.ofString request.type)),
    (PyStr.ofString "created_at", .str (PyStr.ofString (lib.jsonTimestamp draw.createdAt))),
    (PyStr.ofString "data", .obj data)]

theorem bodyDocument_distinct : (bodyDocument lib request draw).distinct = true := by
  have hkeys : ([PyStr.ofString "id", PyStr.ofString "type", PyStr.ofString "created_at",
    PyStr.ofString "data"] : List PyStr).Nodup := by decide
  refine (membersDistinct_iff _).mpr ⟨hkeys, ?_⟩
  simp only [List.forall_mem_cons]
  exact ⟨rfl, rfl, rfl, request.distinct, by simp⟩

theorem bodyDocument_same {data : List (PyStr × Json)} (h : (Json.obj request.data).Same (.obj data)) :
    (bodyDocument lib request draw).Same (bodyWith lib request draw data) :=
  .member [_, _, _] [] (PyStr.ofString "data") h

theorem bodyDocument_portable (h : (Json.obj request.data).portable = true) :
    (bodyDocument lib request draw).portable = true := by
  have hkeys : ([PyStr.ofString "id", PyStr.ofString "type", PyStr.ofString "created_at",
    PyStr.ofString "data"] : List PyStr).all PyStr.bmp = true := by decide
  simp only [List.all_cons, List.all_nil, Bool.and_true, Bool.and_eq_true] at hkeys
  refine Json.portable_obj.mpr ?_
  simp only [List.forall_mem_cons]
  exact ⟨⟨hkeys.1, rfl⟩, ⟨hkeys.2.1, rfl⟩, ⟨hkeys.2.2.1, rfl⟩, ⟨hkeys.2.2.2, h⟩, by simp⟩

/-- The page shows the bytes of the body, in whichever order the data comes back. -/
theorem wireBody_bodyWith {bytes : Bytes} {data : List (PyStr × Json)} {event : EventDetail}
    (hbytes : canonicalJsonBytes lib.floatRepr (bodyDocument lib request draw) = .ok bytes)
    (hportable : (Json.obj request.data).portable = true)
    (hdata : (Json.obj request.data).Same (.obj data))
    (hevent : wirePayload event = .ofJson (bodyWith lib request draw data)) :
    utf8 (wireBody event) = bytes := by
  have hsame := @bodyDocument_same lib request draw data hdata
  have hcongr : canonicalJsonBytes lib.floatRepr _ = canonicalJsonBytes lib.floatRepr _ :=
    canonicalJsonBytes_congr (hsame.sorted_eq bodyDocument_distinct).2
  obtain ⟨-, hencode⟩ := canonicalJsonBytes_ok.mp (hcongr.symm.trans hbytes)
  have hscalar : (bodyWith lib request draw data).scalar = true :=
    (Json.plain_text _).mp (encodeUtf8_eq_some.mp hencode).1
  rw [wireBody, hevent, canonicalJson_ofJson _ (hsame.portable (bodyDocument_portable hportable))
    hscalar]
  exact utf8_utf16 hencode

end Body

/-- The page shows the delivered body of every portable event whose datetime the API
writes as `publish` does, in every interleaving of transactions and in whichever order
its members come back. -/
theorem wire_body_exact (lib : Lib) (P : List Shown → System → Shown → System → Prop)
    (ls : List Shown) (s : System)
    (hr : Sys.Run (Request.code lib) P [] (.idle Db.empty) ls s) (e : Event)
    (he : e ∈ s.db.events) (hportable : (Json.obj e.payload).portable = true)
    (timestamp : Time → String) (htimestamp : timestamp e.createdAt = lib.jsonTimestamp e.createdAt)
    (data : List (PyStr × Json)) (hdata : (Json.obj e.payload).Same (.obj data))
    (deliveries : List Frontend.Delivery) :
    utf8 (wireBody (apiEvent timestamp e data deliveries)) = e.payloadBytes := by
  obtain ⟨request, key, draw, digest, -, hbytes, heq⟩ := (events_authentic hr e he).recorded
  have hid : e.id = draw.eventId := congrArg Event.id heq
  have htype : e.eventType = request.type := congrArg Event.eventType heq
  have hcreated : timestamp e.createdAt = lib.jsonTimestamp draw.createdAt := by
    rw [htimestamp, show e.createdAt = draw.createdAt from congrArg Event.createdAt heq]
  have hpayload : e.payload = request.data := congrArg Event.payload heq
  rw [hpayload] at hportable hdata
  refine wireBody_bodyWith hbytes hportable hdata ?_
  simp only [apiEvent, wirePayload, bodyWith, JsValue.ofJson, JsValue.ofMembers, js_eq, hid, htype,
    hcreated]

/-- The members of the published order, the last one first. -/
theorem wire_body_exact_of_order : ∃ ls s, Reaches Sample.lib ls s ∧ ∃ e ∈ s.db.events, e.id = 2 ∧
    utf8 (wireBody (apiEvent Sample.lib.jsonTimestamp e e.payload.reverse [])) = e.payloadBytes := by
  have hplay : (Sys.play (Request.code Sample.lib) Ordinary [] (.idle Db.empty)
      (Sys.alone 0 Sample.register 2 ++ Sys.alone 1 (Sample.publish 2 3) 9)).any (fun p =>
        p.2.db.events.rows.any fun e => e.id = 2 && (Json.obj e.payload).portable) = true := by
    decide +kernel
  obtain ⟨ls, s, hr, h⟩ := Sys.exists_run hplay
  obtain ⟨e, he, hcond⟩ := List.any_eq_true.mp h
  rw [Bool.and_eq_true, decide_eq_true_eq] at hcond
  exact ⟨ls, s, hr, e, he, hcond.1, wire_body_exact Sample.lib Ordinary ls s hr e he hcond.2
    Sample.lib.jsonTimestamp rfl _ (.perm (List.reverse_perm _).symm) []⟩

end EventHarbor
