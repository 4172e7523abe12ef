import Mathlib

/-!
# Token buckets

A bucket of `size` tokens that fills at `size` in a `period`. Its level at a time is what it would hold if it were looked at then: a longer time
adds to it no more than it fills, and looking at it does not change it. So what leaves a bucket in some time is bounded by its level at the start
and by the time (`level_le_add`), whatever was looked at in between.
-/

universe u

/-- What it held when it was last looked at. -/
structure TokenBucket (K : Type u) where
  tokens : K
  looked : K

namespace TokenBucket

variable {K : Type u} [Field K] [LinearOrder K]

def level (size period : K) (b : TokenBucket K) (now : K) : K := min size (b.tokens + (now - b.looked) * size / period)

def refill (size period : K) (b : TokenBucket K) (now : K) : TokenBucket K := ⟨level size period b now, now⟩

/-- Taken out, and put back up to the size. -/
def take (b : TokenBucket K) (n : K) : TokenBucket K := { b with tokens := b.tokens - n }

def put (size : K) (b : TokenBucket K) (n : K) : TokenBucket K := { b with tokens := min size (b.tokens + n) }

/-- The bucket was looked at by `now`, and holds no more than it can. -/
structure Sound (size : K) (b : TokenBucket K) (now : K) : Prop where
  looked : b.looked ≤ now
  nonneg : 0 ≤ b.tokens
  le_size : b.tokens ≤ size

variable {size period n now now' : K} {b : TokenBucket K}

theorem level_le_size : level size period b now ≤ size := min_le_left _ _

theorem Sound.later (h : Sound size b now) (hle : now ≤ now') : Sound size b now' := ⟨h.looked.trans hle, h.nonneg, h.le_size⟩

theorem level_looked (h : b.tokens ≤ size) : level size period b b.looked = b.tokens := by
  rw [level, sub_self, zero_mul, zero_div, add_zero, min_eq_right h]

theorem level_refill : level size period (refill size period b now) now = level size period b now := level_looked level_le_size

theorem level_put (h : b.looked = now) : level size period (b.put size n) now = min size (b.tokens + n) := by
  subst h
  exact level_looked (min_le_left _ _)

variable [IsStrictOrderedRing K]

theorem level_mono (hsize : 0 ≤ size) (hperiod : 0 < period) (h : now ≤ now') : level size period b now ≤ level size period b now' := by
  unfold level
  gcongr

theorem level_le_add (hsize : 0 ≤ size) (hperiod : 0 < period) (h : now ≤ now') :
    level size period b now' ≤ level size period b now + (now' - now) * size / period := by
  have hfill : 0 ≤ (now' - now) * size / period := by
    have := sub_nonneg.mpr h
    positivity
  have hsplit : b.tokens + (now' - b.looked) * size / period = b.tokens + (now - b.looked) * size / period + (now' - now) * size / period := by
    ring
  rw [level, level, min_add, hsplit]
  exact le_min ((min_le_left _ _).trans (le_add_of_nonneg_right hfill)) (min_le_right _ _)

theorem Sound.tokens_le_level (h : Sound size b now) (hperiod : 0 < period) : b.tokens ≤ level size period b now := by
  have hsize := h.nonneg.trans h.le_size
  calc b.tokens = level size period b b.looked := (level_looked h.le_size).symm
    _ ≤ level size period b now := level_mono hsize hperiod h.looked

theorem Sound.level_nonneg (h : Sound size b now) (hperiod : 0 < period) : 0 ≤ level size period b now :=
  h.nonneg.trans (h.tokens_le_level hperiod)

theorem Sound.refill (h : Sound size b now) (hperiod : 0 < period) : Sound size (refill size period b now) now :=
  ⟨le_rfl, h.level_nonneg hperiod, level_le_size⟩

theorem level_take (h : b.looked = now) (hn : 0 ≤ n) (hle : b.tokens ≤ size) : level size period (b.take n) now = b.tokens - n := by
  subst h
  exact level_looked ((sub_le_self _ hn).trans hle)

theorem Sound.take (h : Sound size b now) (hn : 0 ≤ n) (hle : n ≤ b.tokens) : Sound size (b.take n) now :=
  ⟨h.looked, sub_nonneg.mpr hle, (sub_le_self _ hn).trans h.le_size⟩

theorem Sound.put (h : Sound size b now) (hn : 0 ≤ n) : Sound size (b.put size n) now :=
  ⟨h.looked, le_min (h.nonneg.trans h.le_size) (add_nonneg h.nonneg hn), min_le_left _ _⟩

end TokenBucket
