import Mathlib.Algebra.Order.Ring.Int

/-! Machine arithmetic as a parameter: a computation passes every result of an arithmetic
operation through `wrap`, so that one definition has both its exact and its machine meaning. -/

structure Arith where
  wrap : ℤ → ℤ

namespace Arith

/-- Unbounded integers. -/
def exact : Arith := ⟨id⟩

/-- Two's complement in 64 bits. -/
def int64 : Arith := ⟨fun x => x.bmod (2 ^ 64)⟩

/-- Two's complement in 32 bits. -/
def int32 : Arith := ⟨fun x => x.bmod (2 ^ 32)⟩

/-- A natural number rounded to 53 significant bits, half way to the even one. -/
def round53 (m : ℕ) : ℕ :=
  let e := m.log2 + 1 - 53
  let q := m / 2 ^ e
  if 2 ^ e < 2 * (m % 2 ^ e) ∨ (2 ^ e = 2 * (m % 2 ^ e) ∧ q % 2 = 1) then (q + 1) * 2 ^ e
  else q * 2 ^ e

/-- Integers in double precision. -/
def float64 : Arith := ⟨fun x => x.sign * round53 x.natAbs⟩

@[simp] theorem exact_wrap (x : ℤ) : exact.wrap x = x := rfl

@[simp] theorem int32_wrap_add (x y : ℤ) : int32.wrap (int32.wrap x + y) = int32.wrap (x + y) :=
  Int.bmod_add_bmod

@[simp] theorem int32_wrap_sub (x y : ℤ) : int32.wrap (int32.wrap x - y) = int32.wrap (x - y) :=
  Int.bmod_sub_bmod

theorem int32_wrap_of_nonneg {x : ℤ} (h : 0 ≤ x) (hx : x < 2 ^ 31) : int32.wrap x = x :=
  Int.bmod_eq_of_le (by omega) (by omega)

/-- A result that the machine computes as it is. -/
def Fits (A : Arith) (x : ℤ) : Prop := A.wrap x = x

instance (A : Arith) : DecidablePred A.Fits := fun _ => inferInstanceAs (Decidable (_ = _))

theorem int64_fits_iff {x : ℤ} : int64.Fits x ↔ -2 ^ 63 ≤ x ∧ x < 2 ^ 63 := by
  unfold Fits
  constructor
  · intro h
    rw [← h]
    exact ⟨Int.le_bmod (by decide), Int.bmod_lt (by decide)⟩
  · rintro ⟨hlow, hhigh⟩
    exact Int.bmod_eq_of_le (by omega) (by omega)

theorem int64_fits_wrap (x : ℤ) : int64.Fits (int64.wrap x) := Int.bmod_bmod

/-- Doubles are exact up to 53 bits. -/
theorem float64_fits_of_lt {x : ℤ} (h : x.natAbs < 2 ^ 53) : float64.Fits x := by
  have hlog : x.natAbs.log2 + 1 - 53 = 0 := by
    by_cases hzero : x.natAbs = 0
    · rw [hzero]
      rfl
    · have hlt := (Nat.log2_lt hzero).mpr h
      omega
  have hround : round53 x.natAbs = x.natAbs := by
    simp [round53, hlog, Nat.mod_one]
  unfold Fits float64
  simp only [hround, Int.sign_mul_natAbs]

/-! Sums, differences and products need to be wrapped only once. -/

@[simp] theorem int64_wrap_add_wrap (x y : ℤ) :
    int64.wrap (x + int64.wrap y) = int64.wrap (x + y) :=
  Int.add_bmod_bmod

@[simp] theorem int64_wrap_wrap_sub (x y : ℤ) :
    int64.wrap (int64.wrap x - y) = int64.wrap (x - y) :=
  Int.bmod_sub_bmod

@[simp] theorem int64_wrap_wrap_mul (x y : ℤ) :
    int64.wrap (int64.wrap x * y) = int64.wrap (x * y) :=
  Int.bmod_mul_bmod

end Arith

/-- The numbers of a language that has no integers: whole results are rounded, and the floor of a
quotient is that of the rounded quotient. -/
structure DivArith extends Arith where
  floorDiv : ℤ → ℤ → ℤ

namespace DivArith

def exact : DivArith := ⟨.exact, Int.fdiv⟩

/-- A quotient rounded to a whole number, half way to the even one. -/
def roundDiv (m n : ℕ) : ℕ :=
  if n < 2 * (m % n) ∨ (n = 2 * (m % n) ∧ m / n % 2 = 1) then m / n + 1 else m / n

/-- The floor of a quotient rounded to 53 significant bits. -/
def floorDiv53 (m n : ℕ) : ℕ :=
  let size := if m < n then 0 else (m / n).log2 + 1
  if size ≤ 53 then roundDiv (m * 2 ^ (53 - size)) n / 2 ^ (53 - size)
  else roundDiv m (n * 2 ^ (size - 53)) * 2 ^ (size - 53)

/-- Doubles. Quotients are those of positive numbers. -/
def double : DivArith := ⟨.float64, fun x y => floorDiv53 x.toNat y.toNat⟩

@[simp] theorem exact_wrap (x : ℤ) : exact.wrap x = x := rfl

theorem exact_fits (x : ℤ) : exact.Fits x := rfl

theorem double_wrap_nonneg {x : ℤ} (h : 0 ≤ x) : 0 ≤ double.wrap x :=
  mul_nonneg (Int.sign_nonneg_iff.mpr h) (Int.natCast_nonneg _)

end DivArith
