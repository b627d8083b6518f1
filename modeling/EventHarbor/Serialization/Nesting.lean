import EventHarbor.Serialization.Json

/-!
# The recursion limit

`json.dumps` enters one more level of the interpreter's stack for each list and
each dict. It comes to the parts of a value in order, the members of an object
by their keys, and raises at the first one that it cannot write.
-/

namespace EventHarbor

/-- What `json.dumps` cannot write: a number without a text, or a container
nested beyond the recursion limit. -/
inductive Offence
  | number
  | nesting
deriving DecidableEq, Repr

mutual

/-- The offences of a value in which `limit` more containers may be entered, in
the order in which they are met. -/
def Json.offences (limit : ℕ) : Json → List Offence
  | .int n => if (Json.int n).finite then [] else [.number]
  | .float x => if x.isFinite then [] else [.number]
  | .arr xs =>
    match limit with
    | 0 => [.nesting]
    | limit + 1 => Json.itemsOffences limit xs
  | .obj ms =>
    match limit with
    | 0 => [.nesting]
    | limit + 1 =>
      ((Json.membersOffences limit ms).insertionSort fun a b => a.1 ≤ b.1).flatMap Prod.snd
  | _ => []

def Json.itemsOffences (limit : ℕ) : List Json → List Offence
  | [] => []
  | x :: xs => x.offences limit ++ Json.itemsOffences limit xs

def Json.membersOffences (limit : ℕ) : List (PyStr × Json) → List (PyStr × List Offence)
  | [] => []
  | (k, v) :: ms => (k, v.offences limit) :: Json.membersOffences limit ms

end

mutual

/-- How many containers are nested in one another. -/
def Json.depth : Json → ℕ
  | .arr xs => Json.itemsDepth xs + 1
  | .obj ms => Json.membersDepth ms + 1
  | _ => 0

def Json.itemsDepth : List Json → ℕ
  | [] => 0
  | x :: xs => max x.depth (Json.itemsDepth xs)

def Json.membersDepth : List (PyStr × Json) → ℕ
  | [] => 0
  | (_, v) :: ms => max v.depth (Json.membersDepth ms)

end

/-- How `canonical_json_bytes` fails in an interpreter with a recursion limit. -/
inductive EncodingError
  | canonical (e : CanonicalError)
  | recursion
deriving DecidableEq, Repr

/-- `canonical_json_bytes` where `json.dumps` may enter `limit` containers. -/
def canonicalJsonBytesWithin (floatRepr : PyFloat → List Char) (limit : ℕ) (j : Json) :
    Except EncodingError (List UInt8) :=
  match (j.offences limit).head? with
  | some .number => .error (.canonical .canonicalJSON)
  | some .nesting => .error .recursion
  | none =>
    -- The text is complete here; its bytes are made outside the `try`.
    match encodeUtf8 (j.text floatRepr) with
    | some bytes => .ok bytes
    | none => .error (.canonical .unicodeEncode)

/-! ## Values within the limit -/

section Within

variable {limit : ℕ}

/-- The order of the members decides which offence is met first, not which there are. -/
theorem mem_offences_obj {ms : List (PyStr × Json)} {o : Offence} :
    o ∈ (Json.obj ms).offences (limit + 1) ↔ ∃ m ∈ Json.membersOffences limit ms, o ∈ m.2 := by
  simp only [Json.offences, List.mem_flatMap, (List.perm_insertionSort _ _).mem_iff]

mutual

theorem Json.nesting_notMem : ∀ (j : Json) (limit : ℕ), j.depth ≤ limit →
    Offence.nesting ∉ j.offences limit
  | .null, _, _ | .bool _, _, _ | .str _, _, _ => by simp [Json.offences]
  | .int n, _, _ => by
    rw [Json.offences]
    split <;> simp
  | .float x, _, _ => by
    rw [Json.offences]
    split <;> simp
  | .arr xs, 0, h => absurd h (by simp [Json.depth])
  | .obj ms, 0, h => absurd h (by simp [Json.depth])
  | .arr xs, limit + 1, h => Json.items_nesting_notMem xs limit (by simpa [Json.depth] using h)
  | .obj ms, limit + 1, h => by
    rw [mem_offences_obj]
    rintro ⟨m, hm, ho⟩
    exact Json.members_nesting_notMem ms limit (by simpa [Json.depth] using h) m hm ho

theorem Json.items_nesting_notMem : ∀ (xs : List Json) (limit : ℕ), Json.itemsDepth xs ≤ limit →
    Offence.nesting ∉ Json.itemsOffences limit xs
  | [], _, _ => by simp [Json.itemsOffences]
  | x :: xs, limit, h => by
    rw [Json.itemsDepth, max_le_iff] at h
    rw [Json.itemsOffences, List.mem_append, not_or]
    exact ⟨x.nesting_notMem limit h.1, Json.items_nesting_notMem xs limit h.2⟩

theorem Json.members_nesting_notMem : ∀ (ms : List (PyStr × Json)) (limit : ℕ),
    Json.membersDepth ms ≤ limit → ∀ m ∈ Json.membersOffences limit ms, Offence.nesting ∉ m.2
  | [], _, _ => by simp [Json.membersOffences]
  | (k, v) :: ms, limit, h => by
    rw [Json.membersDepth, max_le_iff] at h
    rw [Json.membersOffences, List.forall_mem_cons]
    exact ⟨v.nesting_notMem limit h.1, Json.members_nesting_notMem ms limit h.2⟩

end

mutual

/-- Nothing is met exactly in a value of finite numbers within the limit. -/
theorem Json.offences_eq_nil : ∀ (j : Json) (limit : ℕ),
    j.offences limit = [] ↔ j.finite = true ∧ j.depth ≤ limit
  | .null, _ | .bool _, _ | .str _, _ => by simp [Json.offences, Json.finite, Json.depth]
  | .int n, _ => by
    rw [Json.offences]
    split <;> simp_all [Json.depth]
  | .float x, _ => by
    rw [Json.offences, Json.finite]
    split <;> simp_all [Json.depth]
  | .arr xs, 0 | .obj ms, 0 => by simp [Json.offences, Json.depth]
  | .arr xs, limit + 1 => by
    rw [Json.offences, Json.finite, Json.depth, Nat.succ_le_succ_iff]
    exact Json.itemsOffences_eq_nil xs limit
  | .obj ms, limit + 1 => by
    have hmem : (Json.obj ms).offences (limit + 1) = [] ↔
        ∀ m ∈ Json.membersOffences limit ms, m.2 = [] := by
      simp only [List.eq_nil_iff_forall_not_mem, mem_offences_obj]
      exact ⟨fun h m hm o ho => h o ⟨m, hm, ho⟩, fun h o ⟨m, hm, ho⟩ => h m hm o ho⟩
    rw [hmem, Json.finite, Json.depth, Nat.succ_le_succ_iff]
    exact Json.membersOffences_eq_nil ms limit

theorem Json.itemsOffences_eq_nil : ∀ (xs : List Json) (limit : ℕ),
    Json.itemsOffences limit xs = [] ↔
      Json.itemsFinite xs = true ∧ Json.itemsDepth xs ≤ limit
  | [], _ => by simp [Json.itemsOffences, Json.itemsFinite, Json.itemsDepth]
  | x :: xs, limit => by
    rw [Json.itemsOffences, List.append_eq_nil_iff, x.offences_eq_nil limit,
      Json.itemsOffences_eq_nil xs limit, Json.itemsFinite, Json.itemsDepth, Bool.and_eq_true,
      max_le_iff]
    tauto

theorem Json.membersOffences_eq_nil : ∀ (ms : List (PyStr × Json)) (limit : ℕ),
    (∀ m ∈ Json.membersOffences limit ms, m.2 = []) ↔
      Json.membersFinite ms = true ∧ Json.membersDepth ms ≤ limit
  | [], _ => by simp [Json.membersOffences, Json.membersFinite, Json.membersDepth]
  | (k, v) :: ms, limit => by
    rw [Json.membersOffences, List.forall_mem_cons, v.offences_eq_nil limit,
      Json.membersOffences_eq_nil ms limit, Json.membersFinite, Json.membersDepth,
      Bool.and_eq_true, max_le_iff]
    tauto

end

variable {floatRepr : PyFloat → List Char} {j : Json}

/-- Within the limit it is the encoding without one. -/
theorem canonicalJsonBytesWithin_eq (h : j.depth ≤ limit) :
    canonicalJsonBytesWithin floatRepr limit j =
      (canonicalJsonBytes floatRepr j).mapError .canonical := by
  unfold canonicalJsonBytesWithin canonicalJsonBytes
  cases hfirst : (j.offences limit).head? with
  | none =>
    obtain ⟨hfinite, -⟩ := (j.offences_eq_nil limit).mp (List.head?_eq_none_iff.mp hfirst)
    rw [if_pos hfinite]
    dsimp only
    cases encodeUtf8 (j.text floatRepr) <;> rfl
  | some o =>
    have hmem : o ∈ j.offences limit := List.mem_of_mem_head? hfirst
    cases o with
    | nesting => exact absurd hmem (j.nesting_notMem limit h)
    | number =>
      have hfinite : j.finite = false := by
        by_contra hfinite
        have := (j.offences_eq_nil limit).mpr ⟨by simpa using hfinite, h⟩
        rw [this] at hmem
        exact List.not_mem_nil hmem
      simp [hfinite, Except.mapError]

end Within

end EventHarbor
