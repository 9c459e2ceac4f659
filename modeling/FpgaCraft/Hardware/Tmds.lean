import FpgaCraft.Library.Bits
import FpgaCraft.Library.Machine

/-! The TMDS encoder (`tmds_encoder.sv`, `tm_choice.sv`): its tally is the DC content of the
video words sent since the last blanking cycle, and stays within one word's reach. -/
namespace FpgaCraft.Hardware
open Library

/-- Bit `i` of the transition minimised word: the XOR chain (option 1) or the XNOR chain. -/
def tmChain (opt : Bool) (dataIn : BitVec 8) : Nat → Bool
  | 0 => dataIn.getLsbD 0
  | i + 1 =>
    let edge := dataIn.getLsbD (i + 1) ^^ tmChain opt dataIn i
    if opt then edge else !edge

/-- `tm_choice`: the word, and the option taken as bit 8. -/
def tmChoice (dataIn : BitVec 8) : BitVec 9 :=
  let bsum : BitVec 4 := bitSum 4 dataIn
  let lsb := dataIn.getLsbD 0
  let opt := !(decide (bsum > 4) || (bsum == 4 && !lsb))
  BitVec.cons opt (ofBits (tmChain opt dataIn) 8)

structure TmdsEncoder where
  tally : BitVec 5
  qOut : BitVec 10
deriving DecidableEq, Repr

structure TmdsIn where
  rstIn : Bool
  dataIn : BitVec 8
  controlIn : BitVec 2
  veIn : Bool
deriving DecidableEq, Repr

namespace TmdsEncoder

def reset : TmdsEncoder := ⟨0, 0⟩

def tmdsOut (self : TmdsEncoder) : BitVec 10 := self.qOut

def controlWord (controlIn : BitVec 2) : BitVec 10 :=
  if controlIn = 0b00 then 0b1101010100
  else if controlIn = 0b01 then 0b0010101011
  else if controlIn = 0b10 then 0b0101010100
  else 0b1010101011

def framed (invert opt : Bool) (word : BitVec 8) : BitVec 10 :=
  BitVec.cons invert (BitVec.cons opt word)

def encode (qM : BitVec 9) (self : TmdsEncoder) : TmdsEncoder :=
  let word := qM.setWidth 8
  let opt := qM.getLsbD 8
  let n1 : BitVec 5 := bitSum 5 word
  let n0 : BitVec 5 := 8 - n1
  if self.tally = 0 ∨ n0 = n1 then
    { qOut := framed (!opt) opt (if opt then word else ~~~word)
      tally := if opt = false then self.tally + (n0 - n1) else self.tally + (n1 - n0) }
  else if (!self.tally.getLsbD 4 && decide (n1 > n0)) || (self.tally.getLsbD 4 && decide (n0 > n1)) then
    { qOut := framed true opt (~~~word)
      tally := self.tally + (0#3 ++ BitVec.ofBool opt ++ 0#1 : BitVec 5) + (n0 - n1) }
  else
    { qOut := framed false opt word
      tally := self.tally - (0#3 ++ BitVec.ofBool (!opt) ++ 0#1 : BitVec 5) + (n1 - n0) }

def risingClkEdge (i : TmdsIn) (self : TmdsEncoder) : TmdsEncoder :=
  if i.rstIn then reset
  else if !i.veIn then { tally := 0, qOut := controlWord i.controlIn }
  else self.encode (tmChoice i.dataIn)

theorem disparity_framed (invert opt : Bool) (word : BitVec 8) :
    disparity (framed invert opt word) =
      (if invert then 1 else -1) + ((if opt then 1 else -1) + disparity word) := by
  rw [framed, disparity_cons, disparity_cons]

theorem disparity_flagged (opt : Bool) (word : BitVec 8) :
    disparity (framed (!opt) opt word) = disparity word := by
  rw [disparity_framed]
  cases opt <;> simp

theorem disparity_inverted (opt : Bool) (word : BitVec 8) :
    disparity (framed true opt (~~~word)) = (if opt then 2 else 0) + -disparity word := by
  rw [disparity_framed, disparity_not]
  cases opt <;> simp
  ring

theorem disparity_plain (opt : Bool) (word : BitVec 8) :
    disparity (framed false opt word) = disparity word - if !opt then 2 else 0 := by
  rw [disparity_framed]
  cases opt <;> simp
  ring

/-- The tally holds the sum `t`, which is even and in reach of one word. -/
structure Balanced (t : Int) (c : TmdsEncoder) : Prop where
  tally : c.tally = BitVec.ofInt 5 t
  even : t % 2 = 0
  lower : -8 ≤ t
  upper : t ≤ 8

theorem Balanced.toInt {t : Int} {self : TmdsEncoder} (h : self.Balanced t) :
    self.tally.toInt = t := by
  have lower := h.lower
  have upper := h.upper
  rw [h.tally, BitVec.toInt_ofInt]
  exact Int.bmod_eq_of_le (by omega) (by omega)

theorem Balanced.eq_zero {t : Int} {self : TmdsEncoder} (h : self.Balanced t) :
    self.tally = 0 ↔ t = 0 := by
  rw [← h.toInt]
  exact BitVec.toInt_inj.symm

theorem Balanced.sign {t : Int} {self : TmdsEncoder} (h : self.Balanced t) :
    self.tally.getLsbD 4 = decide (t < 0) := by
  have sign := BitVec.msb_eq_toInt (x := self.tally)
  rw [h.toInt] at sign
  rw [← sign, BitVec.msb_eq_getLsbD_last]

section Counts
variable (word : BitVec 8)

theorem n1_eq : bitSum 5 word = BitVec.ofInt 5 (ones word) := by
  rw [bitSum_eq, BitVec.ofInt_natCast]

theorem n0_eq : 8 - bitSum 5 word = BitVec.ofInt 5 (zeros word) := by
  have split : (zeros word : Int) = 8 - ones word := by
    have := ones_add_zeros word
    omega
  rw [n1_eq, split, ofInt_sub]
  rfl

theorem toNat_count {n : Nat} (h : n ≤ 8) : (BitVec.ofInt 5 (n : Int)).toNat = n := by
  rw [BitVec.ofInt_natCast, BitVec.toNat_ofNat]
  exact Nat.mod_eq_of_lt (by omega)

theorem zeros_le : zeros word ≤ 8 := by
  have := ones_add_zeros word
  omega

theorem n0_eq_n1 : 8 - bitSum 5 word = bitSum 5 word ↔ disparity word = 0 := by
  rw [n0_eq, n1_eq, ← BitVec.toNat_inj, toNat_count (zeros_le word), toNat_count (ones_le word),
    disparity]
  omega

theorem n1_gt_n0 : bitSum 5 word > 8 - bitSum 5 word ↔ 0 < disparity word := by
  rw [n0_eq, n1_eq, gt_iff_lt, BitVec.lt_def, toNat_count (zeros_le word),
    toNat_count (ones_le word), disparity]
  omega

theorem n0_gt_n1 : 8 - bitSum 5 word > bitSum 5 word ↔ disparity word < 0 := by
  rw [n0_eq, n1_eq, gt_iff_lt, BitVec.lt_def, toNat_count (zeros_le word),
    toNat_count (ones_le word), disparity]
  omega

theorem n1_sub_n0 : bitSum 5 word - (8 - bitSum 5 word) = BitVec.ofInt 5 (disparity word) := by
  rw [n0_eq, n1_eq, ← ofInt_sub]
  rfl

theorem n0_sub_n1 : 8 - bitSum 5 word - bitSum 5 word = BitVec.ofInt 5 (-disparity word) := by
  rw [n0_eq, n1_eq, ← ofInt_sub, disparity]
  congr 1
  omega

end Counts

theorem flags_eq (opt : Bool) :
    (0#3 ++ BitVec.ofBool opt ++ 0#1 : BitVec 5) = BitVec.ofInt 5 (if opt then 2 else 0) := by
  cases opt <;> rfl

theorem Balanced.encode {t : Int} {self : TmdsEncoder} (h : self.Balanced t) (qM : BitVec 9) :
    (self.encode qM).Balanced (t + disparity (self.encode qM).tmdsOut) := by
  obtain ⟨-, even, lower, upper⟩ := id h
  have word := disparity_eq (qM.setWidth 8)
  have bound := ones_le (qM.setWidth 8)
  simp only [TmdsEncoder.encode, tmdsOut, h.eq_zero, h.sign, n0_eq_n1, n1_gt_n0, n0_gt_n1]
  split
  · rw [disparity_flagged]
    cases qM.getLsbD 8
    · simp only [Bool.false_eq_true, if_false, if_true, disparity_not]
      refine ⟨?_, by omega, by omega, by omega⟩
      rw [h.tally, n0_sub_n1, BitVec.ofInt_add]
    · simp only [if_true, Bool.true_eq_false, if_false]
      refine ⟨?_, by omega, by omega, by omega⟩
      rw [h.tally, n1_sub_n0, BitVec.ofInt_add]
  · rename_i unbalanced
    split
    · rename_i same
      simp only [Bool.or_eq_true, Bool.and_eq_true, Bool.not_eq_true', decide_eq_true_eq,
        decide_eq_false_iff_not] at same
      simp only [disparity_inverted]
      refine ⟨?_, ?_, ?_, ?_⟩
      · rw [h.tally, n0_sub_n1, flags_eq, ← BitVec.ofInt_add, ← BitVec.ofInt_add, Int.add_assoc]
      all_goals split <;> omega
    · rename_i opposite
      simp only [Bool.or_eq_true, Bool.and_eq_true, Bool.not_eq_true', decide_eq_true_eq,
        decide_eq_false_iff_not] at opposite
      simp only [disparity_plain]
      refine ⟨?_, ?_, ?_, ?_⟩
      · rw [h.tally, n1_sub_n0, flags_eq, ← ofInt_sub, ← BitVec.ofInt_add]
        exact congrArg (BitVec.ofInt 5) (by ring)
      all_goals split <;> omega

/-- The inputs of every cycle after the first reset, which may hold further resets. -/
def encoderAt (inputs : Nat → TmdsIn) (n : Nat) : TmdsEncoder :=
  trace risingClkEdge inputs reset n

/-- The video words put on `tmds_out` since the last blanking or reset cycle. -/
def videoWords (inputs : Nat → TmdsIn) : Nat → List (BitVec 10)
  | 0 => []
  | n + 1 =>
    if (inputs n).rstIn || !(inputs n).veIn then []
    else videoWords inputs n ++ [(encoderAt inputs (n + 1)).tmdsOut]

theorem balanced_zero {self : TmdsEncoder} (h : self.tally = 0) : self.Balanced 0 :=
  ⟨h, rfl, by decide, by decide⟩

theorem balanced_encoderAt (inputs : Nat → TmdsIn) (n : Nat) :
    (encoderAt inputs n).Balanced ((videoWords inputs n).map disparity).sum := by
  induction n with
  | zero => exact balanced_zero rfl
  | succ n ih =>
    have next : encoderAt inputs (n + 1) = (encoderAt inputs n).risingClkEdge (inputs n) := rfl
    rw [videoWords, next]
    simp only [risingClkEdge]
    cases (inputs n).rstIn with
    | true => exact balanced_zero rfl
    | false =>
      cases (inputs n).veIn with
      | false => exact balanced_zero rfl
      | true =>
        simp only [Bool.not_true, Bool.or_false, Bool.false_eq_true, if_false, List.map_append,
          List.map_cons, List.map_nil, List.sum_append, List.sum_singleton]
        exact ih.encode (tmChoice (inputs n).dataIn)

theorem tmds_dc_balance (inputs : Nat → TmdsIn) (n : Nat) :
    (encoderAt inputs n).tally.toInt = ((videoWords inputs n).map disparity).sum ∧
      -8 ≤ ((videoWords inputs n).map disparity).sum ∧
      ((videoWords inputs n).map disparity).sum ≤ 8 :=
  have balanced := balanced_encoderAt inputs n
  ⟨balanced.toInt, balanced.lower, balanced.upper⟩

end TmdsEncoder
end FpgaCraft.Hardware
