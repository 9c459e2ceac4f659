import Mathlib.Data.Nat.Count
import FpgaCraft.Hardware.Raster

/-! ## The frame counter

`fc_out` is counted in six bits and nothing else takes it back to zero; the parameter `FPS`
is not used. -/
namespace FpgaCraft.Hardware
open Library

namespace VideoParams
variable (p : VideoParams)

def frameCells : Nat := p.TOTAL_PIXELS * p.TOTAL_LINES

def newFrameCell : Nat := p.ACTIVE_LINES * p.TOTAL_PIXELS + p.ACTIVE_H_PIXELS

variable {p}

theorem Positive.newFrameCell_pos (positive : p.Positive) : 0 < p.newFrameCell := by
  have pixels := positive.activePixels
  unfold newFrameCell
  omega

theorem Positive.newFrameCell_lt (positive : p.Positive) : p.newFrameCell < p.frameCells := by
  have porch := positive.hFrontPorch
  have front := positive.vFrontPorch
  have width := VideoSigGen.totalPixels p
  have height := VideoSigGen.totalLines p
  calc p.newFrameCell
    _ < (p.ACTIVE_LINES + 1) * p.TOTAL_PIXELS := by
      rw [newFrameCell, Nat.add_one_mul]
      omega
    _ ≤ p.TOTAL_LINES * p.TOTAL_PIXELS := Nat.mul_le_mul_right _ (by omega)
    _ = p.frameCells := Nat.mul_comm _ _

end VideoParams

namespace VideoSigGen
variable {p : VideoParams} {self : VideoSigGen p} {n : Nat}

def Announces (self : VideoSigGen p) : Prop :=
  self.adOut = false ∧ self.vcountOut.toNat = p.ACTIVE_LINES ∧
    self.hcountOut.toNat = p.ACTIVE_H_PIXELS - 1

theorem fcOut_of_announces (positive : p.Positive) (h : self.Announces) :
    (self.risingPixelClkEdge false).fcOut = self.fcOut + 1 := by
  have porch := positive.vFrontPorch
  have sync := positive.vSyncWidth
  have height := totalLines p
  obtain ⟨low, line, column⟩ := h
  have inner : ¬p.ACTIVE_LINES = p.TOTAL_LINES - 1 := by omega
  simp [risingPixelClkEdge, blank, firstBlankLine, low, line, column, inner]

theorem fcOut_of_not_announces (h : ¬self.Announces) :
    (self.risingPixelClkEdge false).fcOut = self.fcOut := by
  unfold risingPixelClkEdge blank
  rw [if_neg Bool.false_ne_true]
  split
  · rfl
  · rename_i low
    split
    · unfold horizontalBlank
      split <;> rfl
    · split
      · unfold lastLine
        split <;> rfl
      · split
        · rename_i line
          have column : ¬self.hcountOut.toNat = p.ACTIVE_H_PIXELS - 1 :=
            fun column => h ⟨Bool.eq_false_iff.mpr low, line, column⟩
          unfold firstBlankLine
          rw [if_neg column]
          split <;> rfl
        · unfold verticalBlank
          split <;> rfl

theorem announces_iff (positive : p.Positive)
    (h : self.Shows (column p.TOTAL_PIXELS n) (row p.TOTAL_PIXELS p.TOTAL_LINES n)) :
    self.Announces ↔ (self.risingPixelClkEdge false).nfOut = true := by
  have pixels := positive.activePixels
  have porch := positive.hFrontPorch
  have lines := positive.activeLines
  have width := totalPixels p
  have height := totalLines p
  rw [(h.risingPixelClkEdge positive).nf, Announces, h.hcount, h.vcount, Bool.eq_false_iff, ne_eq,
    h.ad, row_succ (by omega) (by omega), column_succ (by omega)]
  constructor
  · rintro ⟨-, line, cell⟩
    rw [if_pos (by omega), if_pos (by omega)]
    omega
  · rintro ⟨cell, line⟩
    split at cell
    · rename_i inside
      rw [if_pos inside] at line
      omega
    · omega

abbrev NfRises (p : VideoParams) (n : Nat) : Prop :=
  (afterReset p n).nfOut = false ∧ (afterReset p (n + 1)).nfOut = true

theorem nfOut_iff (positive : p.Positive) (n : Nat) :
    (afterReset p n).nfOut = true ↔ n % p.frameCells = p.newFrameCell := by
  have porch := positive.hFrontPorch
  have width := totalPixels p
  rw [(shows_afterReset positive n).nf]
  exact cell_iff (by omega)

theorem nfRises_iff (positive : p.Positive) (n : Nat) :
    NfRises p n ↔ (afterReset p (n + 1)).nfOut = true := by
  refine ⟨fun rises => rises.2, fun high => ⟨?_, high⟩⟩
  have cell := positive.newFrameCell_lt
  rw [Bool.eq_false_iff, ne_eq, nfOut_iff positive]
  rw [nfOut_iff positive, mod_succ (by omega)] at high
  have first := positive.newFrameCell_pos
  split at high <;> omega

theorem fcOut_succ (positive : p.Positive) (n : Nat) :
    (afterReset p (n + 1)).fcOut =
      if NfRises p n then (afterReset p n).fcOut + 1 else (afterReset p n).fcOut := by
  have announced := announces_iff positive (shows_afterReset positive n)
  split
  · rename_i rises
    exact fcOut_of_announces positive (announced.mpr rises.2)
  · rename_i steady
    apply fcOut_of_not_announces
    intro announces
    exact steady ((nfRises_iff positive n).mpr (announced.mp announces))

def newFrames (p : VideoParams) (n : Nat) : Nat := Nat.count (NfRises p) n

theorem newFrames_succ (p : VideoParams) (n : Nat) :
    newFrames p (n + 1) = newFrames p n + if NfRises p n then 1 else 0 := Nat.count_succ _ n

theorem fcOut_afterReset (positive : p.Positive) (n : Nat) :
    (afterReset p n).fcOut.toNat = newFrames p n % 64 := by
  induction n with
  | zero => rfl
  | succ n ih =>
    rw [fcOut_succ positive, newFrames_succ]
    split
    · rw [BitVec.toNat_add, ih]
      exact Nat.mod_add_mod _ _ _
    · rw [ih, Nat.add_zero]

theorem newFrames_eq (positive : p.Positive) (n : Nat) :
    newFrames p n = (n + (p.frameCells - p.newFrameCell)) / p.frameCells := by
  have inside := positive.newFrameCell_lt
  have first := positive.newFrameCell_pos
  induction n with
  | zero =>
    rw [Nat.zero_add, Nat.div_eq_of_lt (by omega)]
    rfl
  | succ n ih =>
    have due : NfRises p n ↔ p.frameCells ∣ n + (p.frameCells - p.newFrameCell) + 1 := by
      rw [nfRises_iff positive, nfOut_iff positive, Nat.add_right_comm, dvd_add_sub_iff inside]
    rw [newFrames_succ, ih, if_congr due rfl rfl, Nat.add_right_comm n 1, Nat.succ_div]

theorem newFrames_lt_iff (positive : p.Positive) {k : Nat} (some : 0 < k) (n : Nat) :
    newFrames p n < k ↔ n < p.newFrameCell + (k - 1) * p.frameCells := by
  have inside := positive.newFrameCell_lt
  obtain ⟨k, rfl⟩ : ∃ l, k = l + 1 := ⟨k - 1, by omega⟩
  rw [newFrames_eq positive, Nat.div_lt_iff_lt_mul (by omega), Nat.add_one_mul, Nat.add_sub_cancel]
  omega

/-- Up to cycle `n` the counter is the number of frames modulo `FPS`, moves when `nf_out`
rises and is constant otherwise. -/
def CountsFrames (p : VideoParams) (FPS n : Nat) : Prop :=
  (∀ m, m ≤ n → (afterReset p m).fcOut.toNat = newFrames p m % FPS) ∧
    ∀ m, m < n → (afterReset p (m + 1)).fcOut.toNat =
      if NfRises p m then ((afterReset p m).fcOut.toNat + 1) % FPS else (afterReset p m).fcOut.toNat

theorem newFrames_first (positive : p.Positive) {FPS : Nat} (some : 0 < FPS) :
    newFrames p (p.newFrameCell + (FPS - 1) * p.frameCells) = FPS := by
  have inside := positive.newFrameCell_lt
  rw [newFrames_eq positive, show p.newFrameCell + (FPS - 1) * p.frameCells +
    (p.frameCells - p.newFrameCell) = (FPS - 1 + 1) * p.frameCells by rw [Nat.add_one_mul]; omega,
    Nat.sub_add_cancel some, Nat.mul_div_cancel _ (by omega)]

theorem countsFrames_of_lt (positive : p.Positive) {FPS n : Nat} (narrow : FPS ≤ 64)
    (early : newFrames p n < FPS) : CountsFrames p FPS n := by
  have monotone : ∀ m, m ≤ n → newFrames p m < FPS := fun m hm =>
    Nat.lt_of_le_of_lt (Nat.count_monotone _ hm) early
  have exact : ∀ m, m ≤ n → (afterReset p m).fcOut.toNat = newFrames p m := by
    intro m hm
    have few := monotone m hm
    rw [fcOut_afterReset positive, Nat.mod_eq_of_lt (by omega)]
  refine ⟨fun m hm => ?_, fun m hm => ?_⟩
  · rw [exact m hm, Nat.mod_eq_of_lt (monotone m hm)]
  · have next := monotone (m + 1) hm
    rw [exact (m + 1) hm, exact m hm.le]
    rw [newFrames_succ] at next ⊢
    split
    · rename_i rises
      rw [if_pos rises] at next
      rw [Nat.mod_eq_of_lt next]
    · rfl

theorem countsFrames_64 (positive : p.Positive) (n : Nat) : CountsFrames p 64 n := by
  refine ⟨fun m _ => fcOut_afterReset positive m, fun m _ => ?_⟩
  rw [fcOut_succ positive]
  split
  · rw [BitVec.toNat_add]
    rfl
  · rfl

/-- The counter counts the frames modulo `FPS` exactly until there have been `FPS` of them,
unless `FPS` is the size of its register. -/
theorem frame_counter_iff (positive : p.Positive) {FPS : Nat} (two : 2 ≤ FPS) (narrow : FPS ≤ 64) :
    ((∀ n, CountsFrames p FPS n) ↔ FPS = 64) ∧
      ∀ n, CountsFrames p FPS n ↔
        FPS = 64 ∨ n < p.newFrameCell + (FPS - 1) * p.frameCells := by
  have each : ∀ n, CountsFrames p FPS n ↔
      FPS = 64 ∨ n < p.newFrameCell + (FPS - 1) * p.frameCells := by
    intro n
    constructor
    · intro counts
      by_contra! late
      have first := counts.1 _ late.2
      rw [fcOut_afterReset positive, newFrames_first positive (by omega), Nat.mod_self,
        Nat.mod_eq_of_lt (by omega)] at first
      omega
    · rintro (rfl | early)
      · exact countsFrames_64 positive n
      · rw [← newFrames_lt_iff positive (by omega)] at early
        exact countsFrames_of_lt positive narrow early
  refine ⟨⟨fun always => ?_, fun size n => (each n).mpr (.inl size)⟩, each⟩
  exact ((each _).mp (always _)).resolve_right (Nat.lt_irrefl _)

/-- The frames of nearly a second are counted, and those of some later cell are not. -/
theorem frame_counter_iff_standard : CountsFrames VideoParams.standard 60 74201779 ∧
    ¬∀ n, CountsFrames VideoParams.standard 60 n := by
  have counter := @frame_counter_iff _ VideoParams.positive_standard 60 (by decide) (by decide)
  exact ⟨(counter.2 _).mpr (.inr (by decide)), counter.1.not.mpr (by decide)⟩

/-- The sixtieth frame of a 720p picture: the counter shows 60 where it should be back at 0. -/
theorem sixty_frames_counted :
    (afterReset VideoParams.standard 74201780).fcOut.toNat = 60 ∧
      newFrames VideoParams.standard 74201780 = 60 ∧
      ¬CountsFrames VideoParams.standard 60 74201780 := by
  have frames : newFrames VideoParams.standard 74201780 = 60 := by
    rw [newFrames_eq VideoParams.positive_standard]
    rfl
  have counter : (afterReset VideoParams.standard 74201780).fcOut.toNat = 60 := by
    rw [fcOut_afterReset VideoParams.positive_standard, frames]
  refine ⟨counter, frames, fun counts => ?_⟩
  have rolled := counts.1 _ le_rfl
  rw [counter, frames] at rolled
  exact absurd rolled (by decide)

end VideoSigGen
end FpgaCraft.Hardware
