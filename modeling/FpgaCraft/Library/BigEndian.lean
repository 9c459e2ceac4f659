import Mathlib.Data.List.Basic
import Mathlib.Tactic.Ring

/-! Numbers as bytes, the most significant byte first. -/
namespace FpgaCraft.Library

def bigEndian : Nat → Nat → List (BitVec 8)
  | 0, _ => []
  | n + 1, value => BitVec.ofNat 8 (value / 256 ^ n) :: bigEndian n value

def ofBigEndian (bytes : List (BitVec 8)) : Nat :=
  bytes.foldl (fun value byte => value * 256 + byte.toNat) 0

@[simp] theorem length_bigEndian (n value : Nat) : (bigEndian n value).length = n := by
  induction n with
  | zero => rfl
  | succ n ih => rw [bigEndian, List.length_cons, ih]

theorem ofBigEndian_bigEndian (n value : Nat) : ofBigEndian (bigEndian n value) = value % 256 ^ n := by
  have fold (n start : Nat) : (bigEndian n value).foldl (fun value byte => value * 256 + byte.toNat) start =
      start * 256 ^ n + value % 256 ^ n := by
    induction n generalizing start with
    | zero => simp [bigEndian, Nat.mod_one]
    | succ n ih =>
      have digit : value % 256 ^ (n + 1) = value % 256 ^ n + 256 ^ n * (value / 256 ^ n % 256) := by
        rw [Nat.pow_succ, Nat.mod_mul]
      rw [bigEndian, List.foldl_cons, ih, BitVec.toNat_ofNat, digit]
      ring
  rw [ofBigEndian, fold, Nat.zero_mul, Nat.zero_add]

theorem ofBigEndian_of_lt {n value : Nat} (fits : value < 256 ^ n) :
    ofBigEndian (bigEndian n value) = value := by
  rw [ofBigEndian_bigEndian, Nat.mod_eq_of_lt fits]

end FpgaCraft.Library
