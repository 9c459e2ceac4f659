import Mathlib.Data.Nat.Sqrt
import FpgaCraft.Library.Signed

/-! The 20-bit fixed-point numbers of the software model (`math/fixed.rs`), with
`aint::Aint<i32, 20>` as a checked two's complement integer: an operator whose exact
result leaves the range panics. A panic is `none` here and everywhere in this model. -/
namespace FpgaCraft.Software
open Library

/-- A 20-bit number with 8 fractional bits, named by its raw integer. -/
abbrev Fixed := Signed 20

abbrev I16 := Signed 16

theorem Fixed.range (x : Fixed) : -524288 ≤ x.val ∧ x.val < 524288 := by
  have hl := x.lower
  have hu := x.upper
  norm_num at hl hu
  exact ⟨hl, hu⟩

theorem I16.range (x : I16) : -32768 ≤ x.val ∧ x.val < 32768 := by
  have hl := x.lower
  have hu := x.upper
  norm_num at hl hu
  exact ⟨hl, hu⟩

/-- Overflow of a native integer operator: checked in a debug build, wrapping in a
release build. -/
inductive Profile where
  | debug
  | release
deriving DecidableEq, Repr

def Profile.i16 : Profile → Int → Option I16
  | .debug, value => Signed.new value
  | .release, value => some (Signed.wrap value)

theorem Profile.i16_of_range (profile : Profile) {v : Int} (lower : -32768 ≤ v)
    (upper : v < 32768) : ∃ x : I16, profile.i16 v = some x ∧ x.val = v := by
  cases profile with
  | debug => exact Signed.new_of_range (by norm_num; exact lower) (by norm_num; exact upper)
  | release =>
    exact ⟨_, rfl, Signed.wrap_of_range (by decide) (by norm_num; exact lower)
      (by norm_num; exact upper)⟩

theorem Profile.val_of_i16 (profile : Profile) {value : Int} {x : I16}
    (h : profile.i16 value = some x) (lower : -32768 ≤ value) (upper : value < 32768) :
    x.val = value := by
  obtain ⟨y, hy, hval⟩ := profile.i16_of_range lower upper
  rw [hy, Option.some.injEq] at h
  rw [← h, hval]

namespace Fixed

abbrev D : Nat := 8

def ofRaw (raw : Int) : Fixed := Signed.wrap raw

def one : Fixed := ⟨256, by decide, by decide⟩
def MAX : Fixed := ⟨524287, by decide, by decide⟩

def add (a b : Fixed) : Option Fixed := Signed.new (a.val + b.val)
def sub (a b : Fixed) : Option Fixed := Signed.new (a.val - b.val)
def neg (a : Fixed) : Option Fixed := Signed.new (-a.val)
def abs (a : Fixed) : Option Fixed := Signed.new |a.val|
def shl (a : Fixed) (n : Nat) : Option Fixed := Signed.new (a.val * 2 ^ n)

def mul (a b : Fixed) : Option Fixed := Signed.new ((a.val * b.val) >>> D)

def ofI16 (value : I16) : Option Fixed := Signed.new (value.val * 2 ^ D)

theorem shiftRight_range {x : Fixed} (n : Nat) :
    -2 ^ (20 - 1) ≤ x.val >>> n ∧ x.val >>> n < 2 ^ (20 - 1) := by
  obtain ⟨hl, hu⟩ := x.range
  rw [Int.shiftRight_eq_div_pow]
  have hp : (0 : Int) < ((2 ^ n : Nat) : Int) := by positivity
  have hone : (1 : Int) ≤ ((2 ^ n : Nat) : Int) := hp
  refine ⟨?_, ?_⟩
  · apply (Int.le_ediv_iff_mul_le hp).mpr
    have : -2 ^ (20 - 1) * ((2 ^ n : Nat) : Int) ≤ -2 ^ (20 - 1) * 1 :=
      mul_le_mul_of_nonpos_left hone (by norm_num)
    norm_num at this ⊢
    omega
  · apply (Int.ediv_lt_iff_lt_mul hp).mpr
    have : 2 ^ (20 - 1) * (1 : Int) ≤ 2 ^ (20 - 1) * ((2 ^ n : Nat) : Int) :=
      mul_le_mul_of_nonneg_left hone (by norm_num)
    norm_num at this ⊢
    omega

def shr (a : Fixed) (n : Nat) : Fixed := ⟨a.val >>> n, (shiftRight_range n).1, (shiftRight_range n).2⟩

def floor (a : Fixed) : I16 where
  val := a.val >>> D
  lower := by
    have h := a.range
    rw [Int.shiftRight_eq_div_pow]
    norm_num
    omega
  upper := by
    have h := a.range
    rw [Int.shiftRight_eq_div_pow]
    norm_num
    omega

def leadingZeros (a : Fixed) : Nat :=
  if a.val < 0 then 0
  else if a.val = 0 then 20
  else 19 - Nat.log2 a.val.toNat

/-- `1 / sqrt` of the fixed number with raw value `m`, truncated to the fractional bits. -/
def recipSqrt (m : Nat) : Nat := Nat.sqrt (2 ^ 24 / m)

namespace InvSqrt

/-- The look-up table, one entry per number of leading zeros. An index above 18 other
than the last underflows the shift amount. -/
def lut (i : Nat) : Option Fixed :=
  if i = 20 - 1 then Signed.new (recipSqrt 1)
  else if 20 - 2 < i then none
  else do
    let three ← shl ⟨3, by decide, by decide⟩ (20 - 2 - i)
    Signed.new (recipSqrt three.val.toNat)

end InvSqrt

def invSqrt (self : Fixed) : Option Fixed := do
  let iter0 ← InvSqrt.lut self.leadingZeros
  let square ← mul iter0 iter0
  let half ← mul (self.shr 1) square
  let factor ← sub ⟨384, by decide, by decide⟩ half
  mul iter0 factor

namespace RecipLte1

/-- `1 / x` at a multiple of 1/64, truncated; index 0 stands for 1.0. -/
def lut (i : Nat) : Option Fixed :=
  if i = 0 then some one else Signed.new (16384 / i : Nat)

end RecipLte1

def recipLte1 (self : Fixed) : Option Fixed := do
  let magnitude ← abs self
  let entry ← RecipLte1.lut ((magnitude.val >>> (D - 6)).toNat % 64)
  let iter0 ← Signed.new (entry.val * self.val.sign)
  let double ← shl iter0 1
  let product ← mul self iter0
  let correction ← mul iter0 product
  sub double correction

@[simp] theorem mul_zero (a : Fixed) : mul a 0 = some 0 := by
  simp [mul, Signed.new_eq_some_iff]

@[simp] theorem add_zero (a : Fixed) : add a 0 = some a := by
  simp [add]

end Fixed
end FpgaCraft.Software
