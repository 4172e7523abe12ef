import Mathlib

/-!
# Bytes as text

A text of JavaScript is a list of UTF-16 code units. A buffer is read as text in `ascii`, which clears the high bit of each byte, or in
UTF-8 (`Utf8.decode`), where bytes below 128 stand for themselves (`Utf8.decode_of_ascii`). Base64 writes three bytes as four digits
(`ofSextets_toSextets`).
-/

namespace Encodings

variable {b : UInt8} {buf l : List UInt8} {c : Nat}

/-- `buf.toString('ascii')` -/
def ascii (buf : List UInt8) : List Nat := buf.map fun b => b.toNat % 128

/-- White space and line ends of JavaScript, `\s`. -/
def isSpace (c : Nat) : Bool :=
  c ∈ [0x9, 0xa, 0xb, 0xc, 0xd, 0x20, 0xa0, 0x1680, 0x2028, 0x2029, 0x202f, 0x205f, 0x3000, 0xfeff] || (0x2000 ≤ c && c ≤ 0x200a)

namespace Utf8

/-- Between two characters, or inside one that needs more bytes, the next one in a range. -/
inductive State
  | start
  | more (needed code lower upper : Nat)

/-- The first byte of a character. -/
def lead (b : Nat) : Option Nat × State :=
  if b < 0x80 then (some b, .start)
  else if 0xc2 ≤ b ∧ b ≤ 0xdf then (none, .more 1 (b - 0xc0) 0x80 0xbf)
  else if 0xe0 ≤ b ∧ b ≤ 0xef then (none, .more 2 (b - 0xe0) (if b = 0xe0 then 0xa0 else 0x80) (if b = 0xed then 0x9f else 0xbf))
  else if 0xf0 ≤ b ∧ b ≤ 0xf4 then (none, .more 3 (b - 0xf0) (if b = 0xf0 then 0x90 else 0x80) (if b = 0xf4 then 0x8f else 0xbf))
  else (some 0xfffd, .start)

def decodeFrom : State → List UInt8 → List Nat
  | .start, [] => []
  | .more .., [] => [0xfffd]
  | .start, b :: l => (lead b.toNat).1.toList ++ decodeFrom (lead b.toNat).2 l
  | .more needed code lower upper, b :: l =>
    if lower ≤ b.toNat ∧ b.toNat ≤ upper then
      if needed = 1 then (code * 64 + b.toNat % 64) :: decodeFrom .start l
      else decodeFrom (.more (needed - 1) (code * 64 + b.toNat % 64) 0x80 0xbf) l
    else 0xfffd :: ((lead b.toNat).1.toList ++ decodeFrom (lead b.toNat).2 l)

/-- A code point in UTF-16. -/
def units (code : Nat) : List Nat :=
  if code < 0x10000 then [code] else [0xd800 + (code - 0x10000) / 0x400, 0xdc00 + (code - 0x10000) % 0x400]

/-- `buf.toString('utf8')` -/
def decode (buf : List UInt8) : List Nat := (decodeFrom .start buf).flatMap units

/-- Bytes below 128 are their own text. -/
theorem decode_of_ascii (h : ∀ b ∈ buf, b.toNat < 128) : decode buf = buf.map (·.toNat) := by
  have hfrom : decodeFrom .start buf = buf.map (·.toNat) := by
    induction buf with
    | nil => rfl
    | cons b l ih =>
      rw [List.forall_mem_cons] at h
      simp [decodeFrom, lead, h.1, ih h.2]
  rw [decode, hfrom]
  refine (List.flatMap_congr fun code hcode => ?_).trans (List.flatMap_singleton' _)
  obtain ⟨b, hb, rfl⟩ := List.mem_map.mp hcode
  exact if_pos ((h b hb).trans (by omega))

end Utf8

/-! ## Base64 -/

/-- The value of a digit, of the URL alphabet too. -/
def sextet (c : Nat) : Option Nat :=
  if 65 ≤ c ∧ c ≤ 90 then some (c - 65)
  else if 97 ≤ c ∧ c ≤ 122 then some (c - 71)
  else if 48 ≤ c ∧ c ≤ 57 then some (c + 4)
  else if c = 43 ∨ c = 45 then some 62
  else if c = 47 ∨ c = 95 then some 63
  else none

def digit (s : Nat) : Nat :=
  if s < 26 then s + 65 else if s < 52 then s + 71 else if s < 62 then s - 4 else if s = 62 then 43 else 47

theorem sextet_digit {s : Nat} (h : s < 64) : sextet (digit s) = some s := by
  revert s
  decide

def ofSextets : List Nat → List UInt8
  | a :: b :: c :: d :: l => .ofNat (a * 4 + b / 16) :: .ofNat (b * 16 + c / 4) :: .ofNat (c * 64 + d) :: ofSextets l
  | [a, b, c] => [.ofNat (a * 4 + b / 16), .ofNat (b * 16 + c / 4)]
  | [a, b] => [.ofNat (a * 4 + b / 16)]
  | _ => []

def toSextets : List UInt8 → List Nat
  | x :: y :: z :: l => x.toNat / 4 :: (x.toNat % 4 * 16 + y.toNat / 16) :: (y.toNat % 16 * 4 + z.toNat / 64) :: z.toNat % 64 :: toSextets l
  | [x, y] => [x.toNat / 4, x.toNat % 4 * 16 + y.toNat / 16, y.toNat % 16 * 4]
  | [x] => [x.toNat / 4, x.toNat % 4 * 16]
  | [] => []

/-- A byte string in base64, with `=` to a multiple of four. -/
def toBase64 (bytes : List UInt8) : List Nat := (toSextets bytes).map digit ++ List.replicate ((3 - bytes.length % 3) % 3) 61

/-- `Buffer.from(text, 'base64')`: what is not a digit is passed over. -/
def fromBase64 (text : List Nat) : List UInt8 := ofSextets (text.filterMap sextet)

theorem ofNat_eq {n : Nat} {x : UInt8} (h : n % 256 = x.toNat) : UInt8.ofNat n = x := by
  rw [← UInt8.toNat_inj, UInt8.toNat_ofNat', h]

theorem ofSextets_toSextets (bytes : List UInt8) : ofSextets (toSextets bytes) = bytes := by
  fun_induction toSextets bytes with
  | case1 x y z l ih =>
    have hx := x.toNat_lt
    have hy := y.toNat_lt
    have hz := z.toNat_lt
    have h1 : UInt8.ofNat (x.toNat / 4 * 4 + (x.toNat % 4 * 16 + y.toNat / 16) / 16) = x := ofNat_eq (by omega)
    have h2 : UInt8.ofNat ((x.toNat % 4 * 16 + y.toNat / 16) * 16 + (y.toNat % 16 * 4 + z.toNat / 64) / 4) = y := ofNat_eq (by omega)
    have h3 : UInt8.ofNat ((y.toNat % 16 * 4 + z.toNat / 64) * 64 + z.toNat % 64) = z := ofNat_eq (by omega)
    rw [ofSextets, ih, h1, h2, h3]
  | case2 x y =>
    have hx := x.toNat_lt
    have hy := y.toNat_lt
    have h1 : UInt8.ofNat (x.toNat / 4 * 4 + (x.toNat % 4 * 16 + y.toNat / 16) / 16) = x := ofNat_eq (by omega)
    have h2 : UInt8.ofNat ((x.toNat % 4 * 16 + y.toNat / 16) * 16 + y.toNat % 16 * 4 / 4) = y := ofNat_eq (by omega)
    rw [ofSextets, h1, h2]
  | case3 x =>
    have hx := x.toNat_lt
    have h1 : UInt8.ofNat (x.toNat / 4 * 4 + x.toNat % 4 * 16 / 16) = x := ofNat_eq (by omega)
    rw [ofSextets, h1]
  | case4 => rfl

theorem toSextets_lt (bytes : List UInt8) : ∀ s ∈ toSextets bytes, s < 64 := by
  fun_induction toSextets bytes with
  | case1 x y z l ih =>
    have hx := x.toNat_lt
    have hy := y.toNat_lt
    have hz := z.toNat_lt
    simp only [List.mem_cons]
    rintro s (rfl | rfl | rfl | rfl | h)
    · omega
    · omega
    · omega
    · omega
    · exact ih s h
  | case2 x y =>
    have hx := x.toNat_lt
    have hy := y.toNat_lt
    simp only [List.mem_cons, List.not_mem_nil, or_false]
    rintro s (rfl | rfl | rfl) <;> omega
  | case3 x =>
    have hx := x.toNat_lt
    simp only [List.mem_cons, List.not_mem_nil, or_false]
    rintro s (rfl | rfl) <;> omega
  | case4 => simp

theorem fromBase64_toBase64 (bytes : List UInt8) : fromBase64 (toBase64 bytes) = bytes := by
  have hdigits : ((toSextets bytes).map digit).filterMap sextet = toSextets bytes := by
    rw [List.filterMap_map]
    refine (List.filterMap_congr fun s hs => ?_).trans List.filterMap_some
    exact sextet_digit (toSextets_lt bytes s hs)
  have hpad (n : Nat) : (List.replicate n 61).filterMap sextet = [] := by
    rw [List.filterMap_eq_nil_iff]
    intro c hc
    rw [List.eq_of_mem_replicate hc]
    rfl
  rw [fromBase64, toBase64, List.filterMap_append, hdigits, hpad, List.append_nil, ofSextets_toSextets]

/-- The text of a base64 text holds ASCII characters only, none of them white space. -/
theorem toBase64_plain {bytes : List UInt8} (h : c ∈ toBase64 bytes) : c < 128 ∧ isSpace c = false := by
  have hdigit (s : Nat) (hs : s < 64) : digit s < 128 ∧ isSpace (digit s) = false := by
    revert s
    decide
  rcases List.mem_append.mp h with h | h
  · obtain ⟨s, hs, rfl⟩ := List.mem_map.mp h
    exact hdigit s (toSextets_lt bytes s hs)
  · rw [List.eq_of_mem_replicate h]
    decide

end Encodings
