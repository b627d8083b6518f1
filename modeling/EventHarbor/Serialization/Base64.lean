import Mathlib.Data.List.Basic

/-!
# Base64

The URL-safe alphabet, padded to a multiple of four characters, and the
lenient decoder of `binascii`, which passes over characters outside the
alphabet and stops at the padding of an unfinished quad.
-/

namespace Base64

/-- The character of six bits. -/
def sextet (n : ℕ) : Char :=
  if n < 26 then Char.ofNat (65 + n)
  else if n < 52 then Char.ofNat (71 + n)
  else if n < 62 then Char.ofNat (n - 4)
  else if n = 62 then '-'
  else '_'

/-- The six bits of a character; the standard alphabet is read as well. -/
def value (c : Char) : Option ℕ :=
  let n := c.toNat
  if 65 ≤ n ∧ n ≤ 90 then some (n - 65)
  else if 97 ≤ n ∧ n ≤ 122 then some (n - 71)
  else if 48 ≤ n ∧ n ≤ 57 then some (n + 4)
  else if c = '-' ∨ c = '+' then some 62
  else if c = '_' ∨ c = '/' then some 63
  else none

/-- The characters before the padding. -/
def body : List UInt8 → List Char
  | a :: b :: c :: rest =>
    sextet (a.toNat / 4) :: sextet (a.toNat % 4 * 16 + b.toNat / 16) ::
      sextet (b.toNat % 16 * 4 + c.toNat / 64) :: sextet (c.toNat % 64) :: body rest
  | [a, b] => [sextet (a.toNat / 4), sextet (a.toNat % 4 * 16 + b.toNat / 16),
      sextet (b.toNat % 16 * 4)]
  | [a] => [sextet (a.toNat / 4), sextet (a.toNat % 4 * 16)]
  | [] => []

/-- `"=" * (-n % 4)` -/
def padding (n : ℕ) : List Char := List.replicate ((4 - n % 4) % 4) '='

def encode (bytes : List UInt8) : List Char := body bytes ++ padding (body bytes).length

/-- `text.rstrip("=")` -/
def rstrip (cs : List Char) : List Char := (cs.reverse.dropWhile (· = '=')).reverse

/-- The decoder, `quad` characters into a group of four: `left` are the bits
that are not written yet, `pads` the padding seen since the last character. -/
def a2b : (quad left pads : ℕ) → List Char → Option (List UInt8)
  | quad, _, _, [] => if quad = 0 then some [] else none
  | quad, left, pads, c :: cs =>
    if c = '=' then
      if 2 ≤ quad then
        if 4 ≤ quad + (pads + 1) then some [] else a2b quad left (pads + 1) cs
      else a2b quad left pads cs
    else
      match value c with
      | none => a2b quad left pads cs
      | some v =>
        match quad with
        | 0 => a2b 1 v 0 cs
        | 1 => (a2b 2 (v % 16) 0 cs).map (UInt8.ofNat (left * 4 + v / 16) :: ·)
        | 2 => (a2b 3 (v % 4) 0 cs).map (UInt8.ofNat (left * 16 + v / 4) :: ·)
        | _ => (a2b 0 0 0 cs).map (UInt8.ofNat (left * 64 + v) :: ·)

def decode (cs : List Char) : Option (List UInt8) := a2b 0 0 0 cs

theorem value_sextet : ∀ n < 64, value (sextet n) = some n ∧ sextet n ≠ '=' := by decide

section Quad

variable {n : ℕ} (h : n < 64) (left pads : ℕ) (cs : List Char)

include h

theorem a2b_first : a2b 0 left pads (sextet n :: cs) = a2b 1 n 0 cs := by
  obtain ⟨hv, hne⟩ := value_sextet n h
  simp [a2b, hne, hv]

theorem a2b_second : a2b 1 left pads (sextet n :: cs) =
    (a2b 2 (n % 16) 0 cs).map (UInt8.ofNat (left * 4 + n / 16) :: ·) := by
  obtain ⟨hv, hne⟩ := value_sextet n h
  simp [a2b, hne, hv]

theorem a2b_third : a2b 2 left pads (sextet n :: cs) =
    (a2b 3 (n % 4) 0 cs).map (UInt8.ofNat (left * 16 + n / 4) :: ·) := by
  obtain ⟨hv, hne⟩ := value_sextet n h
  simp [a2b, hne, hv]

theorem a2b_fourth : a2b 3 left pads (sextet n :: cs) =
    (a2b 0 0 0 cs).map (UInt8.ofNat (left * 64 + n) :: ·) := by
  obtain ⟨hv, hne⟩ := value_sextet n h
  simp [a2b, hne, hv]

end Quad

theorem ofNat_byte {a : UInt8} {n : ℕ} (h : n = a.toNat) : UInt8.ofNat n = a := by
  rw [h, UInt8.ofNat_toNat]

/-- The decoder inverts the encoder. -/
theorem decode_encode (bytes : List UInt8) : decode (encode bytes) = some bytes := by
  unfold decode encode
  induction bytes using body.induct with
  | case1 a b c rest ih =>
    have ha := a.toNat_lt
    have hb := b.toNat_lt
    have hc := c.toNat_lt
    have hpad : padding (body (a :: b :: c :: rest)).length = padding (body rest).length := by
      simp only [body, padding, List.length_cons]
      congr 1
      omega
    rw [hpad]
    simp only [body, List.cons_append]
    rw [a2b_first (by omega), a2b_second (by omega), a2b_third (by omega), a2b_fourth (by omega), ih,
      Option.map_some, Option.map_some, Option.map_some]
    congr 2
    · exact ofNat_byte (by omega)
    congr 2
    · exact ofNat_byte (by omega)
    · exact ofNat_byte (by omega)
  | case2 a b =>
    have ha := a.toNat_lt
    have hb := b.toNat_lt
    have hpad : a2b 3 (b.toNat % 16 * 4 % 4) 0 (padding (body [a, b]).length) = some [] := rfl
    simp only [body, List.cons_append, List.nil_append] at hpad ⊢
    rw [a2b_first (by omega), a2b_second (by omega), a2b_third (by omega), hpad, Option.map_some,
      Option.map_some]
    congr 2
    · exact ofNat_byte (by omega)
    · exact congrArg (· :: []) (ofNat_byte (by omega))
  | case3 a =>
    have ha := a.toNat_lt
    have hpad : a2b 2 (a.toNat % 4 * 16 % 16) 0 (padding (body [a]).length) = some [] := rfl
    simp only [body, List.cons_append, List.nil_append] at hpad ⊢
    rw [a2b_first (by omega), a2b_second (by omega), hpad, Option.map_some]
    exact congrArg (fun x => some [x]) (ofNat_byte (by omega))
  | case4 => rfl

/-- Every character before the padding stands for six bits. -/
theorem mem_body {bytes : List UInt8} {c : Char} (h : c ∈ body bytes) : ∃ n < 64, c = sextet n := by
  induction bytes using body.induct with
  | case1 x y z rest ih =>
    have hx := x.toNat_lt
    have hy := y.toNat_lt
    have hz := z.toNat_lt
    simp only [body, List.mem_cons] at h
    rcases h with rfl | rfl | rfl | rfl | h
    · exact ⟨_, by omega, rfl⟩
    · exact ⟨_, by omega, rfl⟩
    · exact ⟨_, by omega, rfl⟩
    · exact ⟨_, by omega, rfl⟩
    · exact ih h
  | case2 x y =>
    have hx := x.toNat_lt
    have hy := y.toNat_lt
    simp only [body, List.mem_cons, List.not_mem_nil, or_false] at h
    rcases h with rfl | rfl | rfl <;> exact ⟨_, by omega, rfl⟩
  | case3 x =>
    have hx := x.toNat_lt
    simp only [body, List.mem_cons, List.not_mem_nil, or_false] at h
    rcases h with rfl | rfl <;> exact ⟨_, by omega, rfl⟩
  | case4 => cases h

theorem body_ascii (bytes : List UInt8) : ∀ c ∈ body bytes, c.toNat < 128 := by
  have hs : ∀ n < 64, (sextet n).toNat < 128 := by decide
  intro c hc
  obtain ⟨n, hn, rfl⟩ := mem_body hc
  exact hs n hn

theorem rstrip_encode (bytes : List UInt8) : rstrip (encode bytes) = body bytes := by
  have hpad : ∀ c ∈ (padding (body bytes).length).reverse, decide (c = '=') = true := by
    intro c hc
    simpa using List.eq_of_mem_replicate (List.mem_reverse.mp hc)
  have hbody : (body bytes).reverse.dropWhile (· = '=') = (body bytes).reverse := by
    cases hrev : (body bytes).reverse with
    | nil => rfl
    | cons c cs =>
      obtain ⟨n, hn, rfl⟩ := mem_body (List.mem_reverse.mp (hrev ▸ List.mem_cons_self))
      simp [(value_sextet n hn).2]
  rw [rstrip, encode, List.reverse_append, List.dropWhile_append_of_pos hpad, hbody,
    List.reverse_reverse]

/-- A text without its padding is read back when the padding is put on again. -/
theorem decode_rstrip (bytes : List UInt8) :
    decode (rstrip (encode bytes) ++ padding (rstrip (encode bytes)).length) = some bytes := by
  rw [rstrip_encode]
  exact decode_encode bytes

end Base64
