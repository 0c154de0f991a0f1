/-
  CertTransparency.Scanner.Int64 — Go's `int64`, and its conversions to and from
  `uint64`, as the fetcher uses them.

  An `Int64` is an integer in [-2^63, 2^63) carried with its bounds; `+` and `-`
  wrap modulo 2^64 as Go's do.  Go's `int` is 64 bits wide on the platforms the
  scanner targets, so `FetcherOptions.BatchSize` and `ParallelFetch` are `Int64`s
  too.  The lemmas say when the arithmetic stays in range (`toInt_add_of_mem`,
  `toInt_sub_of_mem`); the cases where it does not are where `genRanges`
  misbehaves.
-/
import Mathlib.Data.Int.Defs

namespace CertTransparency.Scanner

/-- Go's `int64`. -/
structure Int64 where
  toInt : Int
  min_le : -9223372036854775808 ≤ toInt
  lt_max : toInt < 9223372036854775808
  deriving DecidableEq

namespace Int64

/-- Two's complement wrap: the `int64` congruent to `x` modulo 2^64. -/
def wrap (x : Int) : Int64 :=
  ⟨(x + 9223372036854775808) % 18446744073709551616 - 9223372036854775808, by omega, by omega⟩

instance {n : Nat} : OfNat Int64 n := ⟨wrap n⟩

instance : Add Int64 := ⟨fun a b => wrap (a.toInt + b.toInt)⟩

instance : Sub Int64 := ⟨fun a b => wrap (a.toInt - b.toInt)⟩

instance : Neg Int64 := ⟨fun a => wrap (-a.toInt)⟩

instance : LT Int64 := ⟨fun a b => a.toInt < b.toInt⟩

instance : LE Int64 := ⟨fun a b => a.toInt ≤ b.toInt⟩

instance (a b : Int64) : Decidable (a < b) := inferInstanceAs (Decidable (a.toInt < b.toInt))

instance (a b : Int64) : Decidable (a ≤ b) := inferInstanceAs (Decidable (a.toInt ≤ b.toInt))

/-- `int64(u)` for a `uint64` `u`. -/
def ofUInt64 (u : UInt64) : Int64 := wrap u.toNat

/-- `uint64(a)`. -/
def toUInt64 (a : Int64) : UInt64 := UInt64.ofNat (a.toInt % 18446744073709551616).toNat

/-- `int64(n)` for a length `n`, as in `int64(len(resp.Entries))`. -/
def ofNat (n : Nat) : Int64 := wrap n

theorem ext {a b : Int64} (h : a.toInt = b.toInt) : a = b := by
  cases a; cases b; cases h; rfl

@[simp] theorem lt_iff {a b : Int64} : a < b ↔ a.toInt < b.toInt := Iff.rfl

@[simp] theorem le_iff {a b : Int64} : a ≤ b ↔ a.toInt ≤ b.toInt := Iff.rfl

theorem toInt_wrap (x : Int) :
    (wrap x).toInt = (x + 9223372036854775808) % 18446744073709551616 - 9223372036854775808 := rfl

theorem toInt_wrap_of_mem {x : Int} (h₁ : -9223372036854775808 ≤ x) (h₂ : x < 9223372036854775808) :
    (wrap x).toInt = x := by
  rw [toInt_wrap]; omega

theorem toInt_add (a b : Int64) :
    (a + b).toInt = (a.toInt + b.toInt + 9223372036854775808) % 18446744073709551616 - 9223372036854775808 :=
  rfl

theorem toInt_sub (a b : Int64) :
    (a - b).toInt = (a.toInt - b.toInt + 9223372036854775808) % 18446744073709551616 - 9223372036854775808 :=
  rfl

@[simp] theorem toInt_zero : (0 : Int64).toInt = 0 := rfl

@[simp] theorem toInt_one : (1 : Int64).toInt = 1 := rfl

/-- `a + b` when the sum is an `int64`. -/
theorem toInt_add_of_mem {a b : Int64} (h₁ : -9223372036854775808 ≤ a.toInt + b.toInt)
    (h₂ : a.toInt + b.toInt < 9223372036854775808) : (a + b).toInt = a.toInt + b.toInt :=
  toInt_wrap_of_mem h₁ h₂

/-- `a - b` when the difference is an `int64`. -/
theorem toInt_sub_of_mem {a b : Int64} (h₁ : -9223372036854775808 ≤ a.toInt - b.toInt)
    (h₂ : a.toInt - b.toInt < 9223372036854775808) : (a - b).toInt = a.toInt - b.toInt :=
  toInt_wrap_of_mem h₁ h₂

theorem toInt_ofNat_of_lt {n : Nat} (h : n < 9223372036854775808) : (ofNat n).toInt = n :=
  toInt_wrap_of_mem (by omega) (by omega)

/-- `-int64(n)` for `n ≤ 2^63`: at `n = 2^63` both the conversion and the negation wrap,
and land on `-2^63`. -/
theorem toInt_neg_ofNat_of_le {n : Nat} (h : n ≤ 9223372036854775808) : (-ofNat n).toInt = -n := by
  show (wrap (-(wrap n).toInt)).toInt = _
  rw [toInt_wrap, toInt_wrap]; omega

/-- `a + int64(n)` for a length `n` that does not carry `a` past `2^63-1`. -/
theorem toInt_add_ofNat {a : Int64} {n : Nat} (h : a.toInt + n < 9223372036854775808) :
    (a + ofNat n).toInt = a.toInt + n := by
  have := a.min_le
  rw [toInt_add, show (ofNat n).toInt = _ from toInt_wrap n]
  omega

@[simp] theorem add_ofNat_zero (a : Int64) : a + ofNat 0 = a :=
  ext (by simpa using @toInt_add_ofNat a 0 (by simpa using a.lt_max))

/-- A `uint64` below 2^63 keeps its value as an `int64`. -/
theorem toInt_ofUInt64_of_lt {u : UInt64} (h : u.toNat < 9223372036854775808) :
    (ofUInt64 u).toInt = u.toNat :=
  toInt_wrap_of_mem (by omega) (by omega)

/-- A non-negative `int64` keeps its value as a `uint64`. -/
theorem toNat_toUInt64_of_nonneg {a : Int64} (h : 0 ≤ a.toInt) : a.toUInt64.toNat = a.toInt.toNat := by
  have := a.lt_max
  rw [toUInt64, UInt64.toNat_ofNat_of_lt (by unfold UInt64.size; omega)]
  omega

end Int64

/-- `uint64`'s order is that of the values. -/
theorem uint64_le_iff {a b : UInt64} : a ≤ b ↔ a.toNat ≤ b.toNat := Iff.rfl

end CertTransparency.Scanner
