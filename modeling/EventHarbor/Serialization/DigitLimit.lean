import EventHarbor.Serialization.Loads
import Mathlib.Data.List.TakeWhile

/-!
# The digit limit

A scanner stops at a suffix of its text, and it raises a plain `ValueError` only
where a row of more digits than the interpreter converts stands in the text.
-/

namespace EventHarbor

/-- A row of more digits than the interpreter converts. -/
def LongDigits (s : PyStr) : Prop :=
  ∃ digits, digits <:+: s ∧ (∀ c ∈ digits, isDigit c = true) ∧ maxStrDigits < digits.length

/-- Where a scanner ends that was given `s`. -/
def Scanned.Within {α : Type} (s : PyStr) : Scanned α → Prop
  | .ok p => p.2 <:+ s
  | .error .value => LongDigits s
  | .error _ => True

section Within

variable {α β : Type} {s t : PyStr} {r : Scanned α}

theorem LongDigits.mono (h : LongDigits s) (hs : s <:+ t) : LongDigits t := by
  obtain ⟨digits, hinfix, h⟩ := h
  exact ⟨digits, hinfix.trans hs.isInfix, h⟩

theorem Scanned.Within.mono (h : r.Within s) (hs : s <:+ t) : r.Within t := by
  cases r with
  | ok p => exact List.IsSuffix.trans h hs
  | error e =>
    cases e with
    | value => exact LongDigits.mono h hs
    | _ => trivial

theorem Scanned.Within.error {e : LoadsError} (h : Scanned.Within s (.error e : Scanned α)) :
    Scanned.Within s (.error e : Scanned β) := by
  cases e with
  | value => exact h
  | _ => trivial

theorem Scanned.Within.map {f : α × PyStr → β × PyStr} (h : r.Within s) (hf : ∀ p, (f p).2 = p.2) :
    Scanned.Within s (Except.map f r) := by
  cases r with
  | ok p =>
    show (f p).2 <:+ s
    rw [hf]
    exact h
  | error e => exact h.error

theorem Scanned.Within.cons {r : Scanned PyStr} (h : r.Within s) (n : ℕ) : (r.cons n).Within s :=
  h.map fun _ => rfl

end Within

/-! ## Strings -/

theorem hex4_suffix {s rest : PyStr} {u : ℕ} (h : hex4 s = some (u, rest)) : rest <:+ s := by
  unfold hex4 at h
  split at h
  · rename_i a b c d rest'
    split at h
    · cases h
      exact ⟨[a, b, c, d], rfl⟩
    · cases h
  · cases h

theorem joinSurrogates_suffix (u : ℕ) (rest : PyStr) : (joinSurrogates u rest).2 <:+ rest := by
  unfold joinSurrogates
  split
  · split
    · rename_i a b rest'
      split
      · split
        · rename_i v rest'' hhex
          split
          · exact (hex4_suffix hhex).trans ⟨[a, b], rfl⟩
          · exact List.suffix_rfl
        · exact List.suffix_rfl
      · exact List.suffix_rfl
    · exact List.suffix_rfl
  · exact List.suffix_rfl

theorem scanString_within (fuel : ℕ) : ∀ s, (scanString fuel s).Within s := by
  induction fuel with
  | zero => exact fun s => trivial
  | succ fuel ih =>
    intro s
    cases s with
    | nil => trivial
    | cons c rest =>
      have htail : rest <:+ c :: rest := List.suffix_cons c rest
      unfold scanString
      split
      · exact htail
      split
      · trivial
      split
      · cases rest with
        | nil => trivial
        | cons e rest =>
          have htail : rest <:+ c :: e :: rest := ⟨[c, e], rfl⟩
          dsimp only
          split
          · cases hhex : hex4 rest with
            | none => trivial
            | some p =>
              have hrest := ((joinSurrogates_suffix p.1 p.2).trans (hex4_suffix hhex)).trans htail
              exact ((ih _).mono hrest).cons _
          · cases shortEscape e with
            | none => trivial
            | some n => exact ((ih rest).mono htail).cons n
      · exact ((ih rest).mono htail).cons c.val

/-! ## Numbers -/

theorem scanInteger_split {s digits rest : PyStr} (h : scanInteger s = some (digits, rest)) :
    s = digits ++ rest ∧ ∀ c ∈ digits, isDigit c = true := by
  unfold scanInteger at h
  split at h
  · rename_i c rest'
    split at h
    · rename_i hzero
      cases h
      have hval : c.val = 48 := of_decide_eq_true hzero
      refine ⟨rfl, List.forall_mem_singleton.mpr ?_⟩
      simp [isDigit, digitOf, hval]
    split at h
    · rename_i hdigit
      cases h
      refine ⟨by rw [List.cons_append, List.takeWhile_append_dropWhile], ?_⟩
      exact List.forall_mem_cons.mpr ⟨hdigit, fun d hd => List.mem_takeWhile_imp hd⟩
    · cases h
  · cases h

theorem scanFraction_suffix (s : PyStr) : (scanFraction s).2 <:+ s := by
  unfold scanFraction
  split
  · rename_i c rest
    split
    · exact (List.dropWhile_suffix _).trans (List.suffix_cons c rest)
    · exact List.suffix_rfl
  · exact List.suffix_rfl

theorem scanSigned_suffix {s digits rest : PyStr} (h : scanSigned s = some (digits, rest)) :
    rest <:+ s := by
  unfold scanSigned at h
  cases s with
  | nil => cases h
  | cons c s =>
    dsimp only at h
    split at h
    · split at h
      · cases h
      · cases h
        exact (List.dropWhile_suffix _).trans (List.suffix_cons c s)
    · split at h
      · cases h
      · cases h
        exact List.dropWhile_suffix _

theorem scanExponent_suffix (s : PyStr) : (scanExponent s).2 <:+ s := by
  unfold scanExponent
  split
  · rename_i c rest
    split
    · split
      · rename_i hsigned
        exact (scanSigned_suffix hsigned).trans (List.suffix_cons c rest)
      · exact List.suffix_rfl
    · exact List.suffix_rfl
  · exact List.suffix_rfl

section Scanner

variable (floatOf : List Char → PyFloat)

theorem scanNumber_within (negative : Bool) (s : PyStr) :
    (scanNumber floatOf negative s).Within s := by
  unfold scanNumber
  cases hinteger : scanInteger s with
  | none => trivial
  | some p =>
    obtain ⟨digits, rest⟩ := p
    obtain ⟨rfl, hdigits⟩ := scanInteger_split hinteger
    -- Only an integer is converted; with a fraction or an exponent it is a float.
    have hrest : (scanExponent (scanFraction rest).2).2 <:+ digits ++ rest :=
      ((scanExponent_suffix _).trans (scanFraction_suffix rest)).trans (List.suffix_append digits rest)
    dsimp only
    split
    · split
      · rename_i hlong
        exact ⟨digits, (List.prefix_append digits rest).isInfix, hdigits, hlong⟩
      · exact hrest
    · exact hrest

theorem stripText_suffix {text : String} {s rest : PyStr} (h : stripText text s = some rest) :
    rest <:+ s := by
  unfold stripText at h
  split at h
  · cases h
    exact List.drop_suffix _ s
  · cases h

theorem scanAtom_within (s : PyStr) : (scanAtom floatOf s).Within s := by
  unfold scanAtom
  cases hnull : stripText "null" s with
  | some rest => exact stripText_suffix hnull
  | none =>
  cases htrue : stripText "true" s with
  | some rest => exact stripText_suffix htrue
  | none =>
  cases hfalse : stripText "false" s with
  | some rest => exact stripText_suffix hfalse
  | none =>
  dsimp only
  cases hnan : stripText "NaN" s with
  | some rest => exact stripText_suffix hnan
  | none =>
  cases hinfinity : stripText "Infinity" s with
  | some rest => exact stripText_suffix hinfinity
  | none =>
  cases hnegative : stripText "-Infinity" s with
  | some rest => exact stripText_suffix hnegative
  | none =>
  cases s with
  | nil => trivial
  | cons c rest =>
    dsimp only
    split
    · exact (scanNumber_within floatOf true rest).mono (List.suffix_cons c rest)
    · exact scanNumber_within floatOf false _

/-! ## Values -/

theorem skipSpace_suffix (s : PyStr) : skipSpace s <:+ s := List.dropWhile_suffix _

/-- What follows blank text. -/
theorem suffix_of_skipSpace {s after : PyStr} {d : CodePoint} (h : skipSpace s = d :: after) :
    after <:+ s :=
  (List.suffix_cons d after).trans (h ▸ skipSpace_suffix s)

/-- Each value, list of items and list of members ends within its text. -/
structure ScansWithin (fuel : ℕ) : Prop where
  once : ∀ s, (scanOnce floatOf fuel s).Within s
  items : ∀ s, (scanItems floatOf fuel s).Within s
  members : ∀ s, (scanMembers floatOf fuel s).Within s

theorem scanOnce_within {fuel : ℕ} (ih : ScansWithin floatOf fuel) (s : PyStr) :
    (scanOnce floatOf (fuel + 1) s).Within s := by
  cases s with
  | nil => rw [scanOnce]; trivial
  | cons c rest =>
    have htail : rest <:+ c :: rest := List.suffix_cons c rest
    rw [scanOnce]
    split
    · exact ((scanString_within fuel rest).mono htail).map fun _ => rfl
    split
    · cases hspace : skipSpace rest with
      | nil => trivial
      | cons d after =>
        have hspaced : d :: after <:+ c :: rest := (hspace ▸ skipSpace_suffix rest).trans htail
        dsimp only
        split
        · exact (List.suffix_cons d after).trans hspaced
        · exact ((ih.items _).mono hspaced).map fun _ => rfl
    split
    · cases hspace : skipSpace rest with
      | nil => trivial
      | cons d after =>
        have hspaced : d :: after <:+ c :: rest := (hspace ▸ skipSpace_suffix rest).trans htail
        dsimp only
        split
        · exact (List.suffix_cons d after).trans hspaced
        · exact ((ih.members _).mono hspaced).map fun _ => rfl
    · exact scanAtom_within floatOf _

theorem scanItems_within {fuel : ℕ} (ih : ScansWithin floatOf fuel) (s : PyStr) :
    (scanItems floatOf (fuel + 1) s).Within s := by
  have honce := ih.once s
  rw [scanItems]
  cases hscan : scanOnce floatOf fuel s with
  | error e =>
    rw [hscan] at honce
    exact honce.error
  | ok p =>
    obtain ⟨v, rest⟩ := p
    rw [hscan] at honce
    have hrest : rest <:+ s := honce
    dsimp only
    cases hspace : skipSpace rest with
    | nil => trivial
    | cons d after =>
      have hafter : after <:+ s := (suffix_of_skipSpace hspace).trans hrest
      dsimp only
      split
      · exact hafter
      split
      · exact ((ih.items _).mono ((skipSpace_suffix after).trans hafter)).map fun _ => rfl
      · trivial

theorem scanMembers_within {fuel : ℕ} (ih : ScansWithin floatOf fuel) (s : PyStr) :
    (scanMembers floatOf (fuel + 1) s).Within s := by
  cases s with
  | nil => rw [scanMembers]; trivial
  | cons c s =>
    have hkey := (scanString_within fuel s).mono (List.suffix_cons c s)
    rw [scanMembers]
    split
    swap
    · trivial
    cases hstring : scanString fuel s with
    | error e =>
      rw [hstring] at hkey
      exact hkey.error
    | ok p =>
      obtain ⟨key, rest⟩ := p
      rw [hstring] at hkey
      have hrest : rest <:+ c :: s := hkey
      dsimp only
      cases hspace : skipSpace rest with
      | nil => trivial
      | cons d after =>
        have hafter : skipSpace after <:+ c :: s :=
          (skipSpace_suffix after).trans ((suffix_of_skipSpace hspace).trans hrest)
        have honce := (ih.once (skipSpace after)).mono hafter
        dsimp only
        split
        swap
        · trivial
        cases hvalue : scanOnce floatOf fuel (skipSpace after) with
        | error e =>
          rw [hvalue] at honce
          exact honce.error
        | ok p =>
          obtain ⟨v, rest'⟩ := p
          rw [hvalue] at honce
          have hrest' : rest' <:+ c :: s := honce
          dsimp only
          cases hspace' : skipSpace rest' with
          | nil => trivial
          | cons d after' =>
            have hafter' : after' <:+ c :: s := (suffix_of_skipSpace hspace').trans hrest'
            dsimp only
            split
            · exact hafter'
            split
            · exact ((ih.members _).mono ((skipSpace_suffix after').trans hafter')).map fun _ => rfl
            · trivial

theorem scansWithin (fuel : ℕ) : ScansWithin floatOf fuel := by
  -- The three scanners call one another with less fuel, so the induction carries all of them.
  induction fuel with
  | zero =>
    refine ⟨fun s => ?_, fun s => ?_, fun s => ?_⟩
    · rw [scanOnce]; trivial
    · rw [scanItems]; trivial
    · rw [scanMembers]; trivial
  | succ fuel ih => exact ⟨scanOnce_within floatOf ih, scanItems_within floatOf ih,
      scanMembers_within floatOf ih⟩

/-- Only a row of too many digits makes `json.loads` raise a plain `ValueError`. -/
theorem Json.loads_value {text : PyStr} (h : Json.loads floatOf text = .error .value) :
    LongDigits text := by
  unfold Json.loads at h
  cases text with
  | nil => cases h
  | cons c text =>
    have hscan := (scansWithin floatOf (2 * (c :: text).length + 2)).once (skipSpace (c :: text))
    dsimp only at h
    split at h
    · cases h
    · cases hresult : scanOnce floatOf (2 * (c :: text).length + 2) (skipSpace (c :: text)) with
      | error e =>
        rw [hresult] at h hscan
        cases h
        exact LongDigits.mono hscan (skipSpace_suffix _)
      | ok p =>
        rw [hresult] at h
        dsimp only at h
        split at h
        · cases h
        · cases h

end Scanner

end EventHarbor
