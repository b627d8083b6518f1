import EventHarbor.Properties.Ingestion

/-!
# The canonical form of JSON values

Values are equal up to the order of object members at every depth exactly when
they have the same canonical bytes, and the bytes are read back as the value.
-/

namespace EventHarbor

open Relational EventService

/-! ## Equality up to the order of members -/

/-- Equal up to the order of object members at every depth. -/
inductive Json.Same : Json → Json → Prop
  | refl (j : Json) : Same j j
  | trans {a b c : Json} : Same a b → Same b c → Same a c
  | perm {ms ns : List (PyStr × Json)} : ms.Perm ns → Same (.obj ms) (.obj ns)
  | item (xs ys : List Json) {a b : Json} : Same a b →
      Same (.arr (xs ++ a :: ys)) (.arr (xs ++ b :: ys))
  | member (ms ns : List (PyStr × Json)) (k : PyStr) {a b : Json} : Same a b →
      Same (.obj (ms ++ (k, a) :: ns)) (.obj (ms ++ (k, b) :: ns))

namespace Json

theorem Same.symm {a b : Json} (h : a.Same b) : b.Same a := by
  induction h with
  | refl j => exact .refl j
  | trans _ _ ih₁ ih₂ => exact .trans ih₂ ih₁
  | perm hp => exact .perm hp.symm
  | item xs ys _ ih => exact .item xs ys ih
  | member ms ns k _ ih => exact .member ms ns k ih

theorem itemsSorted_eq (xs : List Json) : itemsSorted xs = xs.map sorted := by
  induction xs with
  | nil => rfl
  | cons x xs ih => rw [itemsSorted, ih, List.map_cons]

theorem membersSorted_eq (ms : List (PyStr × Json)) :
    membersSorted ms = ms.map fun m => (m.1, m.2.sorted) := by
  induction ms with
  | nil => rfl
  | cons m ms ih => rw [membersSorted, ih, List.map_cons]

theorem Same.items (f : Json → Json) {xs : List Json} (h : ∀ x ∈ xs, x.Same (f x))
    (ys : List Json) : (Json.arr (ys ++ xs)).Same (.arr (ys ++ xs.map f)) := by
  induction xs generalizing ys with
  | nil => exact .refl _
  | cons x xs ih =>
    have hx : (Json.arr (ys ++ x :: xs)).Same (.arr (ys ++ f x :: xs)) :=
      .item ys xs (h x List.mem_cons_self)
    have hxs := ih (fun z hz => h z (List.mem_cons_of_mem _ hz)) (ys ++ [f x])
    rw [List.append_assoc, List.append_assoc, List.singleton_append, List.singleton_append] at hxs
    exact hx.trans hxs

theorem Same.members (f : Json → Json) {ms : List (PyStr × Json)}
    (h : ∀ m ∈ ms, m.2.Same (f m.2)) (ns : List (PyStr × Json)) :
    (Json.obj (ns ++ ms)).Same (.obj (ns ++ ms.map fun m => (m.1, f m.2))) := by
  induction ms generalizing ns with
  | nil => exact .refl _
  | cons m ms ih =>
    have hm : (Json.obj (ns ++ m :: ms)).Same (.obj (ns ++ (m.1, f m.2) :: ms)) :=
      .member ns ms m.1 (h m List.mem_cons_self)
    have hms := ih (fun z hz => h z (List.mem_cons_of_mem _ hz)) (ns ++ [(m.1, f m.2)])
    rw [List.append_assoc, List.append_assoc, List.singleton_append, List.singleton_append] at hms
    exact hm.trans hms

/-- Sorting keys only changes the order of members. -/
theorem same_sorted (j : Json) : j.Same j.sorted := by
  induction hsize : sizeOf j using Nat.strong_induction_on generalizing j with
  | _ n ih =>
    subst hsize
    cases j with
    | null | bool | int | float | str => exact .refl _
    | arr xs =>
      rw [sorted, itemsSorted_eq]
      refine Same.items sorted (fun x hx => ih _ ?_ x rfl) []
      have hlt : sizeOf x < sizeOf xs := List.sizeOf_lt_of_mem hx
      rw [Json.arr.sizeOf_spec]
      omega
    | obj ms =>
      rw [sorted, membersSorted_eq]
      refine (Same.members sorted (fun m hm => ih _ ?_ m.2 rfl) []).trans
        (.perm (sortKeys_perm _).symm)
      have hmem := List.sizeOf_lt_of_mem hm
      obtain ⟨k, v⟩ := m
      rw [Prod.mk.sizeOf_spec] at hmem
      rw [Json.obj.sizeOf_spec]
      dsimp only
      omega

theorem distinct_arr {xs : List Json} : (arr xs).distinct = true ↔ ∀ x ∈ xs, x.distinct = true := by
  induction xs with
  | nil => simp [distinct, itemsDistinct]
  | cons x xs ih =>
    simp only [distinct, itemsDistinct] at ih ⊢
    rw [Bool.and_eq_true, ih, List.forall_mem_cons]

/-- With distinct keys there is one way to sort them. -/
theorem sortKeys_of_perm {ms ns : List (PyStr × Json)} (h : ms.Perm ns)
    (hk : (ms.map Prod.fst).Nodup) : sortKeys ms = sortKeys ns := by
  have hperm := (sortKeys_perm ms).trans (h.trans (sortKeys_perm ns).symm)
  have hsorted : ∀ ls : List (PyStr × Json), (sortKeys ls).Pairwise fun a b => a.1 ≤ b.1 :=
    fun ls => List.pairwise_insertionSort (fun a b : PyStr × Json => a.1 ≤ b.1) ls
  have hinj : ∀ a ∈ sortKeys ms, ∀ b ∈ sortKeys ms, a.1 = b.1 → a = b := by
    have hnodup : ((sortKeys ms).map Prod.fst).Nodup :=
      ((sortKeys_perm ms).map Prod.fst).nodup_iff.mpr hk
    exact fun a ha b hb => List.inj_on_of_nodup_map hnodup ha hb
  refine hperm.eq_of_pairwise (fun a b ha hb hab hba => ?_) (hsorted ms) (hsorted ns)
  exact hinj a ha b (hperm.mem_iff.mpr hb) (le_antisymm hab hba)

/-- Both directions of a reordering are decided by sorting the keys. -/
theorem Same.sorted_eq {a b : Json} (h : a.Same b) :
    a.distinct = true → b.distinct = true ∧ a.sorted = b.sorted := by
  induction h with
  | refl j => exact fun hd => ⟨hd, rfl⟩
  | trans _ _ ih₁ ih₂ =>
    intro hd
    obtain ⟨hd₁, h₁⟩ := ih₁ hd
    obtain ⟨hd₂, h₂⟩ := ih₂ hd₁
    exact ⟨hd₂, h₁.trans h₂⟩
  | @perm ms ns hp =>
    intro hd
    obtain ⟨hk, hall⟩ := (membersDistinct_iff ms).mp hd
    refine ⟨(membersDistinct_iff ns).mpr ⟨(hp.map Prod.fst).nodup_iff.mp hk,
      fun m hm => hall m (hp.mem_iff.mpr hm)⟩, ?_⟩
    rw [sorted, sorted, membersSorted_eq, membersSorted_eq]
    refine congrArg Json.obj (sortKeys_of_perm (hp.map _) ?_)
    rw [← membersSorted_eq, keys_membersSorted]
    exact hk
  | @item xs ys a b _ ih =>
    intro hd
    rw [distinct_arr] at hd
    obtain ⟨hb, heq⟩ := ih (hd a (by simp))
    refine ⟨distinct_arr.mpr fun x hx => ?_, ?_⟩
    · rcases List.mem_append.mp hx with hx | hx
      · exact hd x (List.mem_append_left _ hx)
      · rcases List.mem_cons.mp hx with rfl | hx
        · exact hb
        · exact hd x (List.mem_append_right _ (List.mem_cons_of_mem _ hx))
    · rw [sorted, sorted, itemsSorted_eq, itemsSorted_eq, List.map_append, List.map_append,
        List.map_cons, List.map_cons, heq]
  | @member ms ns k a b _ ih =>
    intro hd
    obtain ⟨hk, hall⟩ := (membersDistinct_iff _).mp hd
    obtain ⟨hb, heq⟩ := ih (hall (k, a) (by simp))
    refine ⟨(membersDistinct_iff _).mpr ⟨?_, fun m hm => ?_⟩, ?_⟩
    · rw [List.map_append, List.map_cons] at hk ⊢
      exact hk
    · rcases List.mem_append.mp hm with hm | hm
      · exact hall m (List.mem_append_left _ hm)
      · rcases List.mem_cons.mp hm with rfl | hm
        · exact hb
        · exact hall m (List.mem_append_right _ (List.mem_cons_of_mem _ hm))
    · rw [sorted, sorted, membersSorted_eq, membersSorted_eq, List.map_append, List.map_append,
        List.map_cons, List.map_cons, heq]

theorem same_iff_sorted {a b : Json} (hd : a.distinct = true) :
    a.Same b ↔ a.sorted = b.sorted := by
  refine ⟨fun h => (h.sorted_eq hd).2, fun h => ?_⟩
  exact a.same_sorted.trans (h ▸ b.same_sorted.symm)

end Json

/-! ## Strings of Unicode scalar values -/

mutual

/-- No string and no key of the value has a lone surrogate. -/
def Json.scalar : Json → Bool
  | .str s => !s.any CodePoint.isSurrogate
  | .arr xs => Json.itemsScalar xs
  | .obj ms => Json.membersScalar ms
  | _ => true

def Json.itemsScalar : List Json → Bool
  | [] => true
  | x :: xs => x.scalar && Json.itemsScalar xs

def Json.membersScalar : List (PyStr × Json) → Bool
  | [] => true
  | (k, v) :: ms => !k.any CodePoint.isSurrogate && v.scalar && Json.membersScalar ms

end

theorem plain_iff {s : PyStr} : Plain s ↔ (!s.any CodePoint.isSurrogate) = true := by
  simp [Plain]

section Plain

variable {floatRepr : PyFloat → List Char}

theorem plain_intText (n : ℤ) : Plain (intText n) := by
  cases n with
  | ofNat n => exact plain_ofChars _
  | negSucc n => exact plain_cons.mpr ⟨isSurrogate_ofChar _, plain_ofChars _⟩

mutual

/-- What has an encoding is what has no lone surrogate. -/
theorem Json.plain_text : ∀ j : Json, Plain (j.text floatRepr) ↔ j.scalar = true
  | .null => by simp [Json.text, Json.scalar, plain_ofChars]
  | .bool b => by cases b <;> simp [Json.text, Json.scalar, plain_ofChars]
  | .int n => by simp [Json.text, Json.scalar, plain_intText]
  | .float x => by simp [Json.text, Json.scalar, plain_ofChars]
  | .str s => by rw [Json.text, plain_quote, plain_iff, Json.scalar]
  | .arr xs => by
    simp only [Json.text, plain_cons, plain_append, isSurrogate_ofChar, true_and, plain_joinComma]
    rw [Json.plain_itemTexts xs, Json.scalar]
    simp [Plain]
  | .obj ms => by
    rw [plain_obj, Json.plain_members ms, Json.scalar]

theorem Json.plain_itemTexts : ∀ xs : List Json,
    (∀ t ∈ Json.itemTexts floatRepr xs, Plain t) ↔ Json.itemsScalar xs = true
  | [] => by simp [Json.itemTexts, Json.itemsScalar]
  | x :: xs => by
    rw [Json.itemTexts, Json.itemsScalar, List.forall_mem_cons, Json.plain_text x,
      Json.plain_itemTexts xs, Bool.and_eq_true]

theorem Json.plain_members : ∀ ms : List (PyStr × Json),
    (∀ m ∈ ms, Plain m.1 ∧ Plain (m.2.text floatRepr)) ↔ Json.membersScalar ms = true
  | [] => by simp [Json.membersScalar]
  | (k, v) :: ms => by
    rw [Json.membersScalar, List.forall_mem_cons, Json.plain_members ms, Json.plain_text v,
      plain_iff, Bool.and_eq_true, Bool.and_eq_true]

end

theorem canonicalJsonBytes_error {j : Json} :
    canonicalJsonBytes floatRepr j = .error .unicodeEncode ↔
      j.finite = true ∧ j.scalar = false := by
  have hplain : Plain (j.text floatRepr) ↔ j.scalar = true := j.plain_text
  unfold canonicalJsonBytes encodeUtf8
  rw [plain_iff] at hplain
  cases hf : j.finite with
  | false => simp
  | true =>
    cases hs : j.scalar with
    | true =>
      rw [hs, eq_self, iff_true, Bool.not_eq_true'] at hplain
      simp [hplain]
    | false =>
      rw [hs] at hplain
      simp only [Bool.not_eq_true', Bool.false_eq_true, iff_false, Bool.not_eq_false] at hplain
      simp [hplain]

end Plain

/-! ## The canonical form is faithful -/

/-- The JSON values with bytes: floats are finite, integers are within the limit of
the interpreter, keys are distinct and strings consist of Unicode scalar values. -/
structure Json.Standard (j : Json) : Prop where
  finite : j.finite = true
  distinct : j.distinct = true
  scalar : j.scalar = true

section Faithful

variable {lib : Lib} {floatOf : List Char → PyFloat}

theorem Json.Standard.bytes {j : Json} (h : j.Standard) : ∃ bytes,
    canonicalJsonBytes lib.floatRepr j = .ok bytes ∧
      encodeUtf8 (j.text lib.floatRepr) = some bytes := by
  have hplain : Plain (j.text lib.floatRepr) := j.plain_text.mpr h.scalar
  have hencode := encodeUtf8_eq_some.mpr ⟨hplain, rfl⟩
  exact ⟨_, canonicalJsonBytes_ok.mpr ⟨h.finite, hencode⟩, hencode⟩

/-- The bytes of a value are read back as the value. -/
theorem Json.Standard.loads (hfloat : FloatRepr lib.floatRepr)
    (hread : ∀ x : PyFloat, x.isFinite = true → floatOf (lib.floatRepr x) = x) {j : Json}
    (h : j.Standard) : ∃ bytes text j', canonicalJsonBytes lib.floatRepr j = .ok bytes ∧
      decodeUtf8 bytes = some text ∧ Json.loads floatOf text = .ok j' ∧ j'.Same j := by
  obtain ⟨bytes, hbytes, hencode⟩ := h.bytes
  refine ⟨bytes, _, j.sorted, hbytes, decodeUtf8_encode hencode, ?_, j.same_sorted.symm⟩
  rw [Json.text_eq]
  exact (readsBack_flat hfloat hread j.sorted (j.finite_sorted ▸ h.finite)
    (j.distinct_sorted h.distinct)).loads

theorem Json.Standard.bytes_eq_iff (hfloat : FloatRepr lib.floatRepr) {a b : Json}
    (ha : a.Standard) (hb : b.Standard) :
    canonicalJsonBytes lib.floatRepr a = canonicalJsonBytes lib.floatRepr b ↔ a.Same b := by
  rw [Json.same_iff_sorted ha.distinct]
  refine ⟨fun h => ?_, canonicalJsonBytes_congr⟩
  obtain ⟨bytes, hbytes, -⟩ := hb.bytes
  exact canonicalJsonBytes_inj hfloat (h.trans hbytes) hbytes ha.distinct hb.distinct

theorem fingerprintDocument_finite (r : EventPublishRequest) :
    (fingerprintDocument r).finite = (Json.obj r.data).finite := by
  rw [fingerprintDocument, Json.finite, membersFinite_eq]
  simp only [List.all_cons, List.all_nil, Bool.and_true]
  rfl

theorem fingerprintDocument_scalar (r : EventPublishRequest) :
    (fingerprintDocument r).scalar = (Json.obj r.data).scalar := by
  have hplain : ∀ cs : List Char, (!(PyStr.ofChars cs).any CodePoint.isSurrogate) = true :=
    fun cs => plain_iff.mp (plain_ofChars cs)
  simp only [fingerprintDocument, Json.scalar, Json.membersScalar, PyStr.ofString, hplain,
    Bool.true_and, Bool.and_true]

theorem fingerprintDocument_standard {r : EventPublishRequest} (h : (Json.obj r.data).Standard) :
    (fingerprintDocument r).Standard where
  finite := (fingerprintDocument_finite r).trans h.finite
  distinct := fingerprintDocument_distinct r
  scalar := (fingerprintDocument_scalar r).trans h.scalar

/-- Bytes, values and fingerprints agree up to the order of members. -/
theorem canonical_json_faithful (hhash : Function.Injective lib.sha256Hex)
    (hfloat : FloatRepr lib.floatRepr)
    (hread : ∀ x : PyFloat, x.isFinite = true → floatOf (lib.floatRepr x) = x) :
    (∀ a b : Json, a.Standard → b.Standard →
      (canonicalJsonBytes lib.floatRepr a = canonicalJsonBytes lib.floatRepr b ↔ a.Same b)) ∧
    (∀ a : Json, a.Standard → ∃ bytes text j, canonicalJsonBytes lib.floatRepr a = .ok bytes ∧
      decodeUtf8 bytes = some text ∧ Json.loads floatOf text = .ok j ∧ j.Same a) ∧
    ∀ r r' : EventPublishRequest, (Json.obj r.data).Standard → (Json.obj r'.data).Standard →
      (∃ digest, fingerprint lib r = .ok digest) ∧
      (fingerprint lib r = fingerprint lib r' ↔
        r.endpointId = r'.endpointId ∧ r.type = r'.type ∧
          (Json.obj r.data).Same (.obj r'.data)) := by
  refine ⟨fun a b ha hb => ha.bytes_eq_iff hfloat hb, fun a ha => ha.loads hfloat hread,
    fun r r' hr hr' => ?_⟩
  obtain ⟨bytes, hbytes, -⟩ := (fingerprintDocument_standard hr).bytes
  obtain ⟨bytes', hbytes', -⟩ := (fingerprintDocument_standard hr').bytes
  have hdigest : fingerprint lib r' = .ok (lib.sha256Hex bytes') :=
    fingerprint_ok.mpr ⟨bytes', hbytes', rfl⟩
  refine ⟨⟨_, fingerprint_ok.mpr ⟨bytes, hbytes, rfl⟩⟩, ?_⟩
  rw [hdigest, fingerprint_iff hhash hfloat hdigest, SameRequest, Json.same_iff_sorted hr.distinct]

end Faithful

theorem not_finite_ten_pow {n : ℕ} (h : 10 ^ maxStrDigits ≤ n) :
    (Json.int n).finite = false := by
  rw [Json.finite, Int.natAbs_natCast, decide_eq_false_iff_not,
    Nat.length_toDigits_le_iff (by decide) (by decide), Nat.not_lt]
  exact h

/-- Integers with more digits have no bytes, so these two are told apart by nothing. -/
theorem canonical_json_long_integers :
    (Json.int (10 ^ 4300 : ℕ)).scalar = true ∧ (Json.int (10 ^ 4300 + 1 : ℕ)).scalar = true ∧
    ¬(Json.int (10 ^ 4300 : ℕ)).Same (.int (10 ^ 4300 + 1 : ℕ)) ∧
    canonicalJsonBytes Sample.lib.floatRepr (.int (10 ^ 4300 : ℕ)) =
      canonicalJsonBytes Sample.lib.floatRepr (.int (10 ^ 4300 + 1 : ℕ)) ∧
    canonicalJsonBytes Sample.lib.floatRepr (.int (10 ^ 4300 : ℕ)) = .error .canonicalJSON := by
  obtain ⟨n, hn⟩ : ∃ n : ℕ, n = 10 ^ maxStrDigits := ⟨_, rfl⟩
  rw [show 4300 = maxStrDigits from rfl, ← hn]
  have herror : ∀ m : ℕ, n ≤ m → ∀ floatRepr,
      canonicalJsonBytes floatRepr (.int m) = .error .canonicalJSON := by
    intro m hm floatRepr
    rw [canonicalJsonBytes, not_finite_ten_pow (hn.symm.trans_le hm), if_neg Bool.false_ne_true]
  refine ⟨rfl, rfl, fun h => ?_, ?_, herror n le_rfl _⟩
  · have heq := Int.ofNat.inj (Json.int.inj ((Json.same_iff_sorted rfl).mp h))
    omega
  · rw [herror n le_rfl, herror (n + 1) (by omega)]

namespace Sample

/-- `float(text)` on what `floatRepr` writes. -/
def floatOf (cs : List Char) : PyFloat :=
  ⟨BitVec.ofNat 64 (natOfDigits (PyStr.ofChars cs.dropLast.dropLast))⟩

theorem floatOf_floatRepr (x : PyFloat) : floatOf (floatRepr x) = x := by
  have hdigits : (floatRepr x).dropLast.dropLast = Nat.toDigits 10 x.bits.toNat := by
    simp [floatRepr]
  rw [floatOf, hdigits, natOfDigits_toDigits, BitVec.ofNat_toNat]
  simp

end Sample

theorem canonical_json_faithful_of_order :
    (Json.obj Sample.order.data).Standard ∧ (Json.obj Sample.reordered.data).Standard ∧
    (Json.obj Sample.order.data).Same (.obj Sample.reordered.data) ∧
    canonicalJsonBytes Sample.lib.floatRepr (.obj Sample.order.data) =
      canonicalJsonBytes Sample.lib.floatRepr (.obj Sample.reordered.data) := by
  have hinj : Function.Injective Sample.lib.sha256Hex := Sample.sha256Hex_injective
  obtain ⟨hbytes, -⟩ := canonical_json_faithful hinj Sample.floatRepr_repr fun x _ =>
    Sample.floatOf_floatRepr x
  have ho : (Json.obj Sample.order.data).Standard := ⟨by decide +kernel, by decide +kernel,
    by decide +kernel⟩
  have hr : (Json.obj Sample.reordered.data).Standard := ⟨by decide +kernel, by decide +kernel,
    by decide +kernel⟩
  have hsame : (Json.obj Sample.order.data).Same (.obj Sample.reordered.data) :=
    .perm (List.reverse_perm _).symm
  exact ⟨ho, hr, hsame, (hbytes _ _ ho hr).mpr hsame⟩

end EventHarbor
