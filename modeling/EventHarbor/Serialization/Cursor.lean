import EventHarbor.Serialization.Base64
import EventHarbor.Serialization.Datetime
import EventHarbor.Serialization.Uuid
import EventHarbor.Deliveries.Retry

/-!
# Pagination cursors

The opaque text that a page hands to its reader, and what is read from the
text that comes back.
-/

namespace EventHarbor

open Datetime

/-- Stable descending keyset cursor shared by bounded list endpoints. -/
structure PageCursor where
  timestamp : Time
  rowId : UUID
deriving DecidableEq

/-- The JSON of a cursor, as `json.dumps` writes it. Its strings are ASCII, so
nothing in them is escaped. -/
def PageCursor.json (c : PageCursor) : PyStr :=
  CodePoint.ofChar '{' ::
    (joinComma ([(PyStr.ofString "v", intText 1),
      (PyStr.ofString "timestamp", quote (PyStr.ofChars (isoformat c.timestamp))),
      (PyStr.ofString "id", quote (PyStr.ofChars c.rowId.chars))].map memberText) ++
    [CodePoint.ofChar '}'])

/-- Encode a non-secret cursor without leaking query implementation details. -/
def encodeCursor (c : PageCursor) : PyStr :=
  PyStr.ofChars (Base64.rstrip (Base64.encode ((encodeUtf8 c.json).getD [])))

/-- `base64.urlsafe_b64decode(text)`; other than ASCII text is a `ValueError`. -/
def urlsafeB64decode (s : PyStr) : Option (List UInt8) :=
  if s.all (·.val < 128) then Base64.decode (PyStr.chars s) else none

/-- `value == 1`, which also holds of `True` and `1.0`. -/
def Json.isOne : Json → Bool
  | .int n => n = 1
  | .bool b => b
  | .float x => x = ⟨0x3FF0000000000000⟩
  | _ => false

def Json.str? : Json → Option PyStr
  | .str s => some s
  | _ => none

section Decode

-- `float(text)` on a JSON number
variable (floatOf : List Char → PyFloat)

/-- The cursor of a text, or `none` where the code raises a `ValueError`,
`KeyError` or `TypeError`. -/
def readCursor (value : PyStr) : Option PageCursor := do
  let decoded ← urlsafeB64decode (value ++ PyStr.ofChars (Base64.padding value.length))
  let payload ← (Json.loads floatOf (← decodeUtf8 decoded)).toOption
  match payload with
  | .obj members =>
    if !(Json.lookup members "v").any Json.isOne then none
    else
      let timestampValue ← (← Json.lookup members "timestamp").str?
      let rowIdValue ← (← Json.lookup members "id").str?
      match ← fromisoformat timestampValue with
      | (_, none) => none
      | (us, some offset) => return ⟨instant (us - offset), ← UUID.parse rowIdValue⟩
  | _ => none

def invalidCursor : Error := .domain {
  statusCode := 422
  code := "invalid_cursor"
  title := "Cursor is invalid"
  detail := "The pagination cursor is malformed or uses an unsupported version." }

/-- Decode and validate an opaque cursor into strongly typed sort keys. -/
def decodeCursor : Option PyStr → Except Error (Option PageCursor)
  | none => .ok none
  | some value =>
    match readCursor floatOf value with
    | some cursor => .ok (some cursor)
    | none => .error invalidCursor

end Decode

/-! ## Reading back -/

variable (floatOf : List Char → PyFloat)

/-- What `json.loads` reads from the JSON of a cursor. -/
def PageCursor.members (c : PageCursor) : List (PyStr × Json) :=
  [(PyStr.ofString "v", .int 1),
   (PyStr.ofString "timestamp", .str (PyStr.ofChars (isoformat c.timestamp))),
   (PyStr.ofString "id", .str (PyStr.ofChars c.rowId.chars))]

theorem PageCursor.loads_json (c : PageCursor) :
    Json.loads floatOf c.json = .ok (.obj c.members) := by
  -- There is no float in it.
  have hread : ReadsBack floatOf (fun _ => []) (.obj c.members) := by
    refine .obj (fun m hm => ?_) (show (c.members.map Prod.fst).Nodup by
      simp only [members, List.map_cons, List.map_nil]
      decide)
    simp only [members, List.mem_cons, List.not_mem_nil, or_false] at hm
    rcases hm with rfl | rfl | rfl
    · exact .int (by decide)
    · exact .str _
    · exact .str _
  exact hread.loads

theorem PageCursor.plain_json (c : PageCursor) : Plain c.json := by
  have hint : Plain (intText 1) := plain_ofChars _
  simp only [json, plain_cons, plain_append, isSurrogate_ofChar, true_and, plain_joinComma,
    List.forall_mem_map, memberText, plain_quote]
  refine ⟨fun m hm => ?_, by simp [Plain]⟩
  simp only [List.mem_cons, List.not_mem_nil, or_false] at hm
  rcases hm with rfl | rfl | rfl
  · exact ⟨plain_ofChars _, hint⟩
  · exact ⟨plain_ofChars _, plain_quote.mpr (plain_ofChars _)⟩
  · exact ⟨plain_ofChars _, plain_quote.mpr (plain_ofChars _)⟩

theorem urlsafeB64decode_rstrip (bytes : List UInt8) :
    urlsafeB64decode (PyStr.ofChars (Base64.rstrip (Base64.encode bytes)) ++
      PyStr.ofChars (Base64.padding (PyStr.ofChars (Base64.rstrip (Base64.encode bytes))).length)) =
      some bytes := by
  have hlen : (PyStr.ofChars (Base64.rstrip (Base64.encode bytes))).length =
      (Base64.rstrip (Base64.encode bytes)).length := List.length_map _
  rw [hlen, ← ofChars_append, urlsafeB64decode, chars_ofChars, Base64.decode_rstrip, if_pos]
  rw [List.all_eq_true]
  intro c hc
  obtain ⟨a, ha, rfl⟩ := List.mem_map.mp hc
  rw [CodePoint.val_ofChar, decide_eq_true_eq]
  rcases List.mem_append.mp ha with ha | ha
  · rw [Base64.rstrip_encode] at ha
    exact Base64.body_ascii bytes a ha
  · rw [List.eq_of_mem_replicate ha]
    decide

theorem instant_microseconds {t : Time} (h : IsDatetime t) : instant (microseconds t) = t := by
  obtain ⟨us, -, rfl⟩ := h
  rw [microseconds_instant]

end EventHarbor
