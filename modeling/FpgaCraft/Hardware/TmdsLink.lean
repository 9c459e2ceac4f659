import FpgaCraft.Hardware.Tmds
import FpgaCraft.Library.LineCode

/-! The words of a TMDS encoder at a receiver: a control word is known by its edges, and the
two flag bits of a video word tell how to undo it. -/
namespace FpgaCraft.Hardware
open Library

inductive TmdsSymbol where
  | control (controlIn : BitVec 2)
  | video (dataIn : BitVec 8)
deriving DecidableEq

def TmdsIn.symbol (i : TmdsIn) : TmdsSymbol :=
  if i.veIn then .video i.dataIn else .control i.controlIn

namespace TmdsSymbol

def videoData (word : BitVec 10) : BitVec 8 :=
  unchain (!word.getLsbD 8) (if word.getLsbD 9 then ~~~word.setWidth 8 else word.setWidth 8)

def decode (word : BitVec 10) : TmdsSymbol :=
  if word = TmdsEncoder.controlWord 0b00 then .control 0b00
  else if word = TmdsEncoder.controlWord 0b01 then .control 0b01
  else if word = TmdsEncoder.controlWord 0b10 then .control 0b10
  else if word = TmdsEncoder.controlWord 0b11 then .control 0b11
  else .video (videoData word)

end TmdsSymbol

namespace TmdsEncoder
open TmdsSymbol

theorem decode_controlWord (controlIn : BitVec 2) :
    decode (controlWord controlIn) = .control controlIn := by
  revert controlIn
  decide

theorem edges_controlWord (controlIn : BitVec 2) : 7 ≤ edges (controlWord controlIn) := by
  revert controlIn
  decide

/-! ### Video words -/

theorem tmChain_eq (opt : Bool) (dataIn : BitVec 8) (i : Nat) :
    tmChain opt dataIn i = chainBit (!opt) dataIn i := by
  induction i with
  | zero => rfl
  | succ i ih =>
    rw [tmChain, chainBit, ih]
    cases opt <;> simp

def tmOption (dataIn : BitVec 8) : Bool :=
  !(decide (4 < ones dataIn) || decide (ones dataIn = 4) && !dataIn.getLsbD 0)

theorem tmChoice_eq (dataIn : BitVec 8) :
    tmChoice dataIn = BitVec.cons (tmOption dataIn) (chain (!tmOption dataIn) dataIn) := by
  have bound := ones_le dataIn
  have sum : (bitSum 4 dataIn).toNat = ones dataIn := by
    rw [bitSum_eq, BitVec.toNat_ofNat]
    omega
  have more : decide (bitSum 4 dataIn > 4) = decide (4 < ones dataIn) := by
    rw [decide_eq_decide, gt_iff_lt, BitVec.lt_def, sum]
    rfl
  have half : (bitSum 4 dataIn == 4) = decide (ones dataIn = 4) := by
    rw [← sum, Bool.eq_iff_iff, beq_iff_eq, decide_eq_true_eq, ← BitVec.toNat_inj]
    rfl
  have bits (opt : Bool) : ofBits (tmChain opt dataIn) 8 = chain (!opt) dataIn := by
    rw [chain, show tmChain opt dataIn = chainBit (!opt) dataIn from funext (tmChain_eq opt dataIn)]
  simp only [tmChoice, more, half, bits]
  rfl

theorem edges_choice (dataIn : BitVec 8) : edges (chain (!tmOption dataIn) dataIn) ≤ 3 := by
  have count := edges_chain (!tmOption dataIn) dataIn
  have total := ones_add_zeros dataIn
  revert count
  rw [tmOption]
  rcases Nat.lt_trichotomy (ones dataIn) 4 with less | half | more
  · rw [decide_eq_false (by omega), decide_eq_false (by omega)]
    simp only [Bool.false_and, Bool.or_false, Bool.not_false, Bool.not_true, Bool.false_eq_true, if_false]
    omega
  · rw [decide_eq_false (by omega), decide_eq_true half]
    cases dataIn.getLsbD 0 with
    | false =>
      simp only [Bool.not_false, Bool.and_true, Bool.or_true, Bool.not_true, if_true, Bool.xor_true,
        Bool.toNat_true]
      omega
    | true =>
      simp only [Bool.not_true, Bool.and_false, Bool.or_false, Bool.not_false, Bool.false_eq_true,
        if_false, Bool.xor_false, Bool.toNat_true]
      omega
  · rw [decide_eq_true more]
    simp only [Bool.true_or, Bool.not_true, Bool.not_false, if_true]
    omega

/-- The flags and the data of a video word: the chain of the data, or its complement. -/
def videoWord (invert : Bool) (dataIn : BitVec 8) : BitVec 10 :=
  framed invert (tmOption dataIn)
    (if invert then ~~~chain (!tmOption dataIn) dataIn else chain (!tmOption dataIn) dataIn)

theorem exists_videoWord (self : TmdsEncoder) (dataIn : BitVec 8) :
    ∃ invert, (self.encode (tmChoice dataIn)).tmdsOut = videoWord invert dataIn := by
  have word : (tmChoice dataIn).setWidth 8 = chain (!tmOption dataIn) dataIn := by
    rw [tmChoice_eq, BitVec.setWidth_cons]
  have opt : (tmChoice dataIn).getLsbD 8 = tmOption dataIn := by
    rw [tmChoice_eq, BitVec.getLsbD_cons, if_pos rfl]
  simp only [encode, tmdsOut, word, opt]
  split
  · refine ⟨!tmOption dataIn, ?_⟩
    simp only [videoWord]
    cases tmOption dataIn <;> rfl
  · split
    · exact ⟨true, rfl⟩
    · exact ⟨false, rfl⟩

theorem edges_videoWord (invert : Bool) (dataIn : BitVec 8) : edges (videoWord invert dataIn) ≤ 5 := by
  have few := edges_choice dataIn
  have flag (b : Bool) : b.toNat ≤ 1 := Bool.toNat_le b
  have data : edges (if invert then ~~~chain (!tmOption dataIn) dataIn
      else chain (!tmOption dataIn) dataIn) ≤ 3 := by
    split
    · rwa [edges_not]
    · exact few
  rw [videoWord, framed, edges_cons, edges_cons]
  have outer := flag ((BitVec.cons (tmOption dataIn) (if invert then ~~~chain (!tmOption dataIn) dataIn
    else chain (!tmOption dataIn) dataIn)).getLsbD 8 ^^ invert)
  have inner := flag ((if invert then ~~~chain (!tmOption dataIn) dataIn
    else chain (!tmOption dataIn) dataIn).getLsbD 7 ^^ tmOption dataIn)
  omega

theorem videoData_videoWord (invert : Bool) (dataIn : BitVec 8) :
    videoData (videoWord invert dataIn) = dataIn := by
  have inverted : (videoWord invert dataIn).getLsbD 9 = invert := by
    rw [videoWord, framed, BitVec.getLsbD_cons, if_pos rfl]
  have opt : (videoWord invert dataIn).getLsbD 8 = tmOption dataIn := by
    rw [videoWord, framed, BitVec.getLsbD_cons, if_neg (by decide), BitVec.getLsbD_cons, if_pos rfl]
  have word : (videoWord invert dataIn).setWidth 8 = if invert then ~~~chain (!tmOption dataIn) dataIn
      else chain (!tmOption dataIn) dataIn := by
    rw [videoWord, framed, ← BitVec.setWidth_setWidth_of_le _ (show 8 ≤ 9 by decide),
      BitVec.setWidth_cons, BitVec.setWidth_cons]
  rw [videoData, inverted, opt, word]
  cases invert with
  | false => exact unchain_chain _ dataIn
  | true =>
    simp only [if_true, BitVec.not_not]
    exact unchain_chain _ dataIn

theorem decode_videoWord (invert : Bool) (dataIn : BitVec 8) :
    decode (videoWord invert dataIn) = .video dataIn := by
  have apart (controlIn : BitVec 2) : videoWord invert dataIn ≠ controlWord controlIn := by
    intro same
    have few := edges_videoWord invert dataIn
    have many := edges_controlWord controlIn
    rw [same] at few
    omega
  rw [decode, if_neg (apart _), if_neg (apart _), if_neg (apart _), if_neg (apart _), videoData_videoWord]

/-! ### The link -/

/-- The symbol comes out in the cycle after it was given, whatever the encoder held. -/
theorem decode_edge (i : TmdsIn) (running : i.rstIn = false) (self : TmdsEncoder) :
    decode (self.risingClkEdge i).tmdsOut = i.symbol := by
  rw [risingClkEdge, running, if_neg Bool.false_ne_true]
  cases hve : i.veIn with
  | false =>
    simp only [TmdsIn.symbol, hve, Bool.not_false, if_true, Bool.false_eq_true, if_false]
    exact decode_controlWord i.controlIn
  | true =>
    obtain ⟨invert, sent⟩ := self.exists_videoWord i.dataIn
    simp only [TmdsIn.symbol, hve, Bool.not_true, Bool.false_eq_true, if_false, if_true, sent]
    exact decode_videoWord invert i.dataIn

/-- A receiver gets back every symbol, and tells control words from video by their edges. -/
theorem link_recovers (inputs : Nat → TmdsIn) (self : TmdsEncoder) (n : Nat)
    (running : (inputs n).rstIn = false) :
    let word := (trace risingClkEdge inputs self (n + 1)).tmdsOut
    decode word = (inputs n).symbol ∧ (edges word ≤ 5 ∨ 7 ≤ edges word) ∧
      (edges word ≤ 5 ↔ (inputs n).veIn = true) := by
  intro word
  have edge : word = ((trace risingClkEdge inputs self n).risingClkEdge (inputs n)).tmdsOut := rfl
  have count : if (inputs n).veIn then edges word ≤ 5 else 7 ≤ edges word := by
    rw [edge, risingClkEdge, running, if_neg Bool.false_ne_true]
    cases (inputs n).veIn with
    | false => exact edges_controlWord (inputs n).controlIn
    | true =>
      obtain ⟨invert, sent⟩ := (trace risingClkEdge inputs self n).exists_videoWord (inputs n).dataIn
      simp only [Bool.not_true, Bool.false_eq_true, if_false, if_true, sent]
      exact edges_videoWord invert (inputs n).dataIn
  refine ⟨edge ▸ decode_edge (inputs n) running _, ?_⟩
  cases hve : (inputs n).veIn with
  | false =>
    rw [hve, if_neg Bool.false_ne_true] at count
    exact ⟨.inr count, by simp; omega⟩
  | true =>
    rw [hve, if_pos rfl] at count
    exact ⟨.inl count, by simpa using count⟩

theorem link_recovers_white : decode (trace risingClkEdge (fun _ => ⟨false, 0xFF, 0, true⟩) reset 3).tmdsOut =
    .video 0xFF :=
  (link_recovers (fun _ => ⟨false, 0xFF, 0, true⟩) reset 2 rfl).1

end TmdsEncoder
end FpgaCraft.Hardware
