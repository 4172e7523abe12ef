import Mathlib

/-!
# Numbers of JavaScript

A number is an integer or `NaN` (`none`), and what an absent value converts to is `NaN` too. The bitwise operators work on 32 bits and give
signed numbers, `>>> 0` an unsigned one. Numbers are written and read in a radix of up to sixteen.
-/

namespace Numbers

abbrev Number := Option Int

def toInt32 (x : Number) : BitVec 32 := BitVec.ofInt 32 (x.getD 0)

def ofInt32 (b : BitVec 32) : Number := some b.toInt

def shl (x : Number) (n : Nat) : Number := ofInt32 (toInt32 x <<< (n % 32))

def shr (x : Number) (n : Nat) : Number := ofInt32 ((toInt32 x).sshiftRight (n % 32))

/-- `x >>> 0` -/
def unsigned (x : Number) : Number := some (toInt32 x).toNat

def or (x y : Number) : Number := ofInt32 (toInt32 x ||| toInt32 y)

def and (x y : Number) : Number := ofInt32 (toInt32 x &&& toInt32 y)

def not (x : Number) : Number := ofInt32 (~~~toInt32 x)

variable {x y : Nat} {a b : BitVec 32} {k n m : Nat}

@[simp] theorem toInt32_ofInt32 : toInt32 (ofInt32 a) = a := by simp [toInt32, ofInt32]

theorem toInt32_natCast : toInt32 (some (n : Int)) = BitVec.ofNat 32 n := by simp [toInt32]

@[simp] theorem toInt32_unsigned {z : Number} : toInt32 (unsigned z) = toInt32 z := by
  rw [unsigned, toInt32_natCast, BitVec.ofNat_toNat, BitVec.setWidth_eq]

theorem ofInt32_inj : ofInt32 a = ofInt32 b ↔ a = b := by simp [ofInt32, BitVec.toInt_inj]

/-- Bits that do not overlap are added. -/
theorem or_eq_add (h : y < 2 ^ k) : x * 2 ^ k ||| y = x * 2 ^ k + y := by
  rw [← Nat.shiftLeft_eq, Nat.shiftLeft_add_eq_or_of_lt h]

theorem shl_toNat (h : n * 2 ^ k < 2 ^ 32) (hk : k < 32) : (toInt32 (shl (some (n : Int)) k)).toNat = n * 2 ^ k := by
  rw [shl, toInt32_ofInt32, toInt32_natCast, BitVec.toNat_shiftLeft, BitVec.toNat_ofNat, Nat.mod_eq_of_lt hk, Nat.shiftLeft_eq,
    Nat.mod_mul_mod, Nat.mod_eq_of_lt h]

theorem or_toNat {u v : Number} (hu : (toInt32 u).toNat = x * 2 ^ k) (hv : (toInt32 v).toNat = y) (h : y < 2 ^ k) :
    (toInt32 (or u v)).toNat = x * 2 ^ k + y := by
  rw [or, toInt32_ofInt32, BitVec.toNat_or, hu, hv, or_eq_add h]

theorem natCast_toNat (h : n < 2 ^ 32) : (toInt32 (some (n : Int))).toNat = n := by
  rw [toInt32_natCast, BitVec.toNat_ofNat, Nat.mod_eq_of_lt h]

/-- A number whose bits are those of a small natural number. -/
theorem eq_of_toNat (h : a.toNat = n) (hn : n < 2 ^ 31) : ofInt32 a = some (n : Int) := by
  rw [ofInt32, BitVec.toInt_eq_toNat_of_lt (by omega), h]

theorem shr_natCast (h : n < 2 ^ 31) (hk : k < 32) : shr (some (n : Int)) k = some ((n / 2 ^ k : Nat) : Int) := by
  have hint : (BitVec.ofNat 32 n).toInt = n := by
    rw [BitVec.toInt_eq_toNat_of_lt] <;> rw [BitVec.toNat_ofNat, Nat.mod_eq_of_lt (by omega)]
    omega
  rw [shr, toInt32_natCast, ofInt32, Nat.mod_eq_of_lt hk, BitVec.toInt_sshiftRight, hint, Int.shiftRight_eq_div_pow]
  simp

theorem and_natCast (h : n < 2 ^ 31) (hk : k < 31) : and (some (n : Int)) (some ((2 ^ k - 1 : Nat) : Int)) = some ((n % 2 ^ k : Nat) : Int) := by
  have hpow : 2 ^ k < 2 ^ 31 := Nat.pow_lt_pow_right (by omega) hk
  refine eq_of_toNat ?_ ((Nat.mod_le _ _).trans_lt h)
  rw [toInt32_natCast, toInt32_natCast, BitVec.toNat_and, BitVec.toNat_ofNat, BitVec.toNat_ofNat, Nat.mod_eq_of_lt (by omega),
    Nat.mod_eq_of_lt (by omega), Nat.and_two_pow_sub_one_eq_mod]

/-- The bits above the lowest `k` agree under the mask exactly where they do after the shift. -/
theorem and_mask_eq_iff :
    a &&& (BitVec.allOnes 32 <<< k) = b &&& (BitVec.allOnes 32 <<< k) ↔ a.toNat / 2 ^ k = b.toNat / 2 ^ k := by
  rw [← Nat.shiftRight_eq_div_pow, ← Nat.shiftRight_eq_div_pow, ← BitVec.toNat_ushiftRight, ← BitVec.toNat_ushiftRight, ← BitVec.toNat_eq]
  constructor
  · intro h
    apply BitVec.eq_of_getLsbD_eq
    intro i hi
    have hbit := congrArg (·.getLsbD (k + i)) h
    simp only [BitVec.getLsbD_and, BitVec.getLsbD_shiftLeft, BitVec.getLsbD_allOnes] at hbit
    simp only [BitVec.getLsbD_ushiftRight]
    by_cases hlt : k + i < 32
    · simpa [hlt, show i < 32 by omega] using hbit
    · rw [BitVec.getLsbD_of_ge _ _ (by omega), BitVec.getLsbD_of_ge _ _ (by omega)]
  · intro h
    apply BitVec.eq_of_getLsbD_eq
    intro i hi
    simp only [BitVec.getLsbD_and, BitVec.getLsbD_shiftLeft, BitVec.getLsbD_allOnes]
    by_cases hlt : i < k
    · simp [hlt]
    · have hbit := congrArg (·.getLsbD (i - k)) h
      simp only [BitVec.getLsbD_ushiftRight, Nat.add_sub_cancel' (Nat.le_of_not_lt hlt)] at hbit
      rw [hbit]

def digitValue (c : Char) : Nat :=
  if c.isDigit then c.toNat - '0'.toNat else if c.isUpper then c.toNat - 'A'.toNat + 10 else c.toNat - 'a'.toNat + 10

def isHexDigit (c : Char) : Bool := c.isDigit || 'a' ≤ c && c ≤ 'f' || 'A' ≤ c && c ≤ 'F'

def ofDigits (radix : Nat) (digits : List Char) : Nat := digits.foldl (fun n c => radix * n + digitValue c) 0

/-- `Number(text)` of decimal digits; the other texts that it reads are left out. -/
def number (text : List Char) : Number := if text.all Char.isDigit then some (ofDigits 10 text) else none

/-- `parseInt(text, 16)` of a text without white space, sign or prefix. -/
def parseHex (text : List Char) : Number :=
  let digits := text.takeWhile isHexDigit
  if digits = [] then none else some (ofDigits 16 digits)

/-- `x.toString(radix)` -/
def toText (radix : Nat) : Number → List Char
  | none => "NaN".toList
  | some (.ofNat n) => Nat.toDigits radix n
  | some (.negSucc n) => '-' :: Nat.toDigits radix (n + 1)

theorem digitChar_spec (h : n < 16) : isHexDigit n.digitChar = true ∧ digitValue n.digitChar = n := by
  interval_cases n <;> decide

theorem ofDigits_append {l l' : List Char} {radix : Nat} :
    ofDigits radix (l ++ l') = l'.foldl (fun n c => radix * n + digitValue c) (ofDigits radix l) := List.foldl_append

/-- What is written in a radix is read again. -/
theorem ofDigits_toDigits {radix : Nat} (hradix : 1 < radix) (hle : radix ≤ 16) : ofDigits radix (Nat.toDigits radix n) = n := by
  induction n using Nat.base_induction radix hradix with
  | single m hm => simp [Nat.toDigits_of_lt_base hm, ofDigits, (digitChar_spec (hm.trans_le hle)).2]
  | digit m k hk hm ih =>
    rw [← Nat.toDigits_append_toDigits hradix hm hk, ofDigits_append, ih, Nat.toDigits_of_lt_base hk]
    simp [(digitChar_spec (hk.trans_le hle)).2]

theorem isHexDigit_of_mem_toDigits {radix : Nat} (hradix : 1 < radix) (hle : radix ≤ 16) {c : Char} (hc : c ∈ Nat.toDigits radix n) :
    isHexDigit c = true := by
  induction n using Nat.base_induction radix hradix with
  | single m hm =>
    rw [Nat.toDigits_of_lt_base hm, List.mem_singleton] at hc
    exact hc ▸ (digitChar_spec (hm.trans_le hle)).1
  | digit m k hk hm ih =>
    rw [← Nat.toDigits_append_toDigits hradix hm hk, Nat.toDigits_of_lt_base hk, List.mem_append, List.mem_singleton] at hc
    rcases hc with hc | rfl
    · exact ih hc
    · exact (digitChar_spec (hk.trans_le hle)).1

theorem number_toDigits : number (Nat.toDigits 10 n) = some (n : Int) := by
  have hall : (Nat.toDigits 10 n).all Char.isDigit = true :=
    List.all_eq_true.mpr fun c hc => Nat.isDigit_of_mem_toDigits (by omega) (by omega) hc
  rw [number, if_pos hall, ofDigits_toDigits (by omega) (by omega)]

theorem parseHex_digits {digits : List Char} (hne : digits ≠ []) (hall : ∀ c ∈ digits, isHexDigit c = true) :
    parseHex digits = some (ofDigits 16 digits : Int) := by
  have hself : digits.takeWhile isHexDigit = digits := by simpa using hall
  simp [parseHex, hself, hne]

end Numbers
