import EventHarbor.Frontend.Types

/-!
# The event page

`canonicalJson` and the body that the page shows as the delivered one.
-/

namespace EventHarbor

namespace Frontend

open JavaScript

/-- `join(",")`. -/
def join : List JsStr → JsStr
  | [] => []
  | [t] => t
  | t :: ts => t ++ js "," ++ join ts

/-- One `key:value` entry. -/
def entryText (e : JsStr × JsStr) : JsStr := stringify e.1 ++ js ":" ++ e.2

/-- Entries by key, in the order of code units. -/
def sortEntries (es : List (JsStr × JsStr)) : List (JsStr × JsStr) :=
  es.insertionSort fun left right => left.1 ≤ right.1

mutual

/-- The text of a value. The text of an entry does not depend on its place, so it is
made before the entries are sorted. -/
def canonicalJson : JsValue → JsStr
  | .array xs => js "[" ++ join (itemTexts xs) ++ js "]"
  | .object es => js "\x7b" ++ join ((sortEntries (entryTexts es)).map entryText) ++ js "\x7d"
  | .null => js "null"
  | .bool true => js "true"
  | .bool false => js "false"
  | .number x => ofChars x.json
  | .string s => stringify s

def itemTexts : List JsValue → List JsStr
  | [] => []
  | x :: xs => canonicalJson x :: itemTexts xs

def entryTexts : List (JsStr × JsValue) → List (JsStr × JsStr)
  | [] => []
  | (k, v) :: es => (k, canonicalJson v) :: entryTexts es

end

def wirePayload (event : EventDetail) : JsValue :=
  .object [(js "id", .string event.id), (js "type", .string event.type),
    (js "created_at", .string event.createdAt), (js "data", .object event.data)]

def wireBody (event : EventDetail) : JsStr := canonicalJson (wirePayload event)

end Frontend

end EventHarbor
