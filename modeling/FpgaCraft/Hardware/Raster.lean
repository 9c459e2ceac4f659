import Mathlib.Data.Nat.Log
import FpgaCraft.Library.Machine
import FpgaCraft.Library.Scan

/-! The raster generator (`vsg.sv`): after `n` cycles the counters stand at cell `n` of the
scan, and every other output is the one that belongs to that cell. -/
namespace FpgaCraft.Hardware
open Library

structure VideoParams where
  ACTIVE_H_PIXELS : Nat
  H_FRONT_PORCH : Nat
  H_SYNC_WIDTH : Nat
  H_BACK_PORCH : Nat
  ACTIVE_LINES : Nat
  V_FRONT_PORCH : Nat
  V_SYNC_WIDTH : Nat
  V_BACK_PORCH : Nat
deriving DecidableEq, Repr

namespace VideoParams

def standard : VideoParams := ⟨1280, 110, 40, 220, 720, 5, 5, 20⟩

variable (p : VideoParams)

def TOTAL_PIXELS : Nat := p.ACTIVE_H_PIXELS + p.H_FRONT_PORCH + p.H_SYNC_WIDTH + p.H_BACK_PORCH

def H_SYNC_HI : Nat := p.TOTAL_PIXELS - p.H_SYNC_WIDTH - p.H_BACK_PORCH - 1

def H_SYNC_LO : Nat := p.TOTAL_PIXELS - p.H_BACK_PORCH - 1

def TOTAL_LINES : Nat := p.ACTIVE_LINES + p.V_FRONT_PORCH + p.V_SYNC_WIDTH + p.V_BACK_PORCH

def V_SYNC_HI : Nat := p.TOTAL_LINES - p.V_SYNC_WIDTH - p.V_BACK_PORCH

def V_SYNC_LO : Nat := p.TOTAL_LINES - p.V_BACK_PORCH

structure Positive : Prop where
  activePixels : 1 ≤ p.ACTIVE_H_PIXELS
  hFrontPorch : 1 ≤ p.H_FRONT_PORCH
  hSyncWidth : 1 ≤ p.H_SYNC_WIDTH
  hBackPorch : 1 ≤ p.H_BACK_PORCH
  activeLines : 1 ≤ p.ACTIVE_LINES
  vFrontPorch : 1 ≤ p.V_FRONT_PORCH
  vSyncWidth : 1 ≤ p.V_SYNC_WIDTH
  vBackPorch : 1 ≤ p.V_BACK_PORCH

theorem positive_standard : standard.Positive := by constructor <;> decide

end VideoParams

structure VideoSigGen (p : VideoParams) where
  hcountOut : BitVec (Nat.clog 2 p.TOTAL_PIXELS)
  vcountOut : BitVec (Nat.clog 2 p.TOTAL_LINES)
  vsOut : Bool
  hsOut : Bool
  adOut : Bool
  nfOut : Bool
  fcOut : BitVec 6

namespace VideoSigGen
variable {p : VideoParams}

def reset (p : VideoParams) : VideoSigGen p where
  hcountOut := 0
  vcountOut := 0
  vsOut := false
  hsOut := false
  nfOut := false
  fcOut := 0
  adOut := true

def active (self : VideoSigGen p) : VideoSigGen p :=
  { self with
    adOut :=
      if self.vcountOut.toNat < p.ACTIVE_LINES then
        if self.hcountOut.toNat ≥ p.ACTIVE_H_PIXELS - 1 then false else self.adOut
      else false
    hcountOut := self.hcountOut + 1 }

def horizontalBlank (self : VideoSigGen p) : VideoSigGen p :=
  if self.hcountOut.toNat = p.TOTAL_PIXELS - 1 then
    { self with
      hcountOut := 0
      vcountOut := self.vcountOut + 1
      adOut := if self.vcountOut.toNat < p.ACTIVE_LINES - 1 then true else self.adOut
      vsOut := if self.vcountOut.toNat + 1 = p.V_SYNC_HI then true else self.vsOut }
  else { self with hcountOut := self.hcountOut + 1 }

def lastLine (self : VideoSigGen p) : VideoSigGen p :=
  if self.hcountOut.toNat = p.TOTAL_PIXELS - 1 then
    { self with
      hcountOut := 0
      vcountOut := 0
      adOut := if self.vcountOut.toNat ≥ p.ACTIVE_LINES then true else self.adOut }
  else { self with hcountOut := self.hcountOut + 1 }

def firstBlankLine (self : VideoSigGen p) : VideoSigGen p :=
  if self.hcountOut.toNat = p.ACTIVE_H_PIXELS - 1 then
    { self with
      nfOut := true
      fcOut := self.fcOut + 1
      hcountOut := self.hcountOut + 1 }
  else if self.hcountOut.toNat = p.TOTAL_PIXELS - 1 then
    { self with
      hcountOut := 0
      vcountOut := self.vcountOut + 1
      vsOut := if self.vcountOut.toNat + 1 = p.V_SYNC_HI then true else self.vsOut }
  else
    { self with
      nfOut := if self.nfOut then false else self.nfOut
      hcountOut := self.hcountOut + 1 }

def verticalBlank (self : VideoSigGen p) : VideoSigGen p :=
  if self.hcountOut.toNat = p.TOTAL_PIXELS - 1 then
    { self with
      hcountOut := 0
      vcountOut := self.vcountOut + 1
      vsOut :=
        if self.vcountOut.toNat + 1 = p.V_SYNC_HI then true
        else if self.vcountOut.toNat + 1 = p.V_SYNC_LO then false
        else self.vsOut }
  else { self with hcountOut := self.hcountOut + 1 }

def blank (self : VideoSigGen p) : VideoSigGen p :=
  if self.vcountOut.toNat < p.ACTIVE_LINES then self.horizontalBlank
  else if self.vcountOut.toNat = p.TOTAL_LINES - 1 then self.lastLine
  else if self.vcountOut.toNat = p.ACTIVE_LINES then self.firstBlankLine
  else self.verticalBlank

def risingPixelClkEdge (rstIn : Bool) (self : VideoSigGen p) : VideoSigGen p :=
  if rstIn then reset p
  else if self.adOut then self.active
  else
    { self with
      hsOut := decide (self.hcountOut.toNat ≥ p.H_SYNC_HI)
        && decide (self.hcountOut.toNat < p.H_SYNC_LO) }.blank

/-- The outputs that belong to the cell in column `x` of line `y`. -/
structure Shows (x y : Nat) (c : VideoSigGen p) : Prop where
  hcount : c.hcountOut.toNat = x
  vcount : c.vcountOut.toNat = y
  ad : c.adOut = true ↔ x < p.ACTIVE_H_PIXELS ∧ y < p.ACTIVE_LINES
  hs : c.hsOut = true ↔ p.ACTIVE_H_PIXELS + p.H_FRONT_PORCH ≤ x ∧
    x < p.ACTIVE_H_PIXELS + p.H_FRONT_PORCH + p.H_SYNC_WIDTH
  vs : c.vsOut = true ↔ p.ACTIVE_LINES + p.V_FRONT_PORCH ≤ y ∧
    y < p.ACTIVE_LINES + p.V_FRONT_PORCH + p.V_SYNC_WIDTH
  nf : c.nfOut = true ↔ x = p.ACTIVE_H_PIXELS ∧ y = p.ACTIVE_LINES

theorem shows_reset (positive : p.Positive) : (reset p).Shows 0 0 := by
  obtain ⟨_, _, _, _, _, _, _, _⟩ := positive
  constructor <;> simp [reset] <;> omega

variable {self : VideoSigGen p} {x y : Nat}

theorem totalPixels (p : VideoParams) : p.TOTAL_PIXELS =
    p.ACTIVE_H_PIXELS + p.H_FRONT_PORCH + p.H_SYNC_WIDTH + p.H_BACK_PORCH := rfl

theorem totalLines (p : VideoParams) : p.TOTAL_LINES =
    p.ACTIVE_LINES + p.V_FRONT_PORCH + p.V_SYNC_WIDTH + p.V_BACK_PORCH := rfl

theorem vSyncHi (p : VideoParams) : p.V_SYNC_HI = p.ACTIVE_LINES + p.V_FRONT_PORCH := by
  simp only [VideoParams.V_SYNC_HI, VideoParams.TOTAL_LINES]
  omega

theorem vSyncLo (p : VideoParams) :
    p.V_SYNC_LO = p.ACTIVE_LINES + p.V_FRONT_PORCH + p.V_SYNC_WIDTH := by
  simp only [VideoParams.V_SYNC_LO, VideoParams.TOTAL_LINES]
  omega

theorem hcount_succ (column : self.hcountOut.toNat = x) (inside : x + 1 < p.TOTAL_PIXELS) :
    (self.hcountOut + 1).toNat = x + 1 := by
  have bound := column ▸ inside
  rw [counter_succ _ (Nat.le_pow_clog Nat.one_lt_two _) bound, column]

theorem vcount_succ (line : self.vcountOut.toNat = y) (below : y + 1 < p.TOTAL_LINES) :
    (self.vcountOut + 1).toNat = y + 1 := by
  have bound := line ▸ below
  rw [counter_succ _ (Nat.le_pow_clog Nat.one_lt_two _) bound, line]

theorem Shows.active (h : self.Shows x y) (positive : p.Positive)
    (visible : x < p.ACTIVE_H_PIXELS ∧ y < p.ACTIVE_LINES) : self.active.Shows (x + 1) y := by
  obtain ⟨rfl, rfl, ad, hs, vs, nf⟩ := h
  have porch := positive.hFrontPorch
  have width := totalPixels p
  refine ⟨hcount_succ rfl (by omega), rfl, ?_, ?_, vs, ?_⟩
  · simp only [VideoSigGen.active, if_pos visible.2]
    split <;> simp only [ad, Bool.false_eq_true, false_iff] <;> omega
  · simp only [VideoSigGen.active, hs]
    omega
  · simp only [VideoSigGen.active, nf]
    omega

/-- A cell outside the picture, with the horizontal sync already that of the next cell. -/
structure Blank (x y : Nat) (c : VideoSigGen p) : Prop where
  hcount : c.hcountOut.toNat = x
  vcount : c.vcountOut.toNat = y
  ad : c.adOut = false
  invisible : ¬(x < p.ACTIVE_H_PIXELS ∧ y < p.ACTIVE_LINES)
  column : x < p.TOTAL_PIXELS
  hs : c.hsOut = true ↔ p.ACTIVE_H_PIXELS + p.H_FRONT_PORCH ≤ x + 1 ∧
    x + 1 < p.ACTIVE_H_PIXELS + p.H_FRONT_PORCH + p.H_SYNC_WIDTH
  vs : c.vsOut = true ↔ p.ACTIVE_LINES + p.V_FRONT_PORCH ≤ y ∧
    y < p.ACTIVE_LINES + p.V_FRONT_PORCH + p.V_SYNC_WIDTH
  nf : c.nfOut = true ↔ x = p.ACTIVE_H_PIXELS ∧ y = p.ACTIVE_LINES

theorem Shows.blank (h : self.Shows x y) (positive : p.Positive) (column : x < p.TOTAL_PIXELS)
    (invisible : ¬(x < p.ACTIVE_H_PIXELS ∧ y < p.ACTIVE_LINES)) :
    Blank x y { self with
      hsOut := decide (self.hcountOut.toNat ≥ p.H_SYNC_HI)
        && decide (self.hcountOut.toNat < p.H_SYNC_LO) } := by
  have hi : p.H_SYNC_HI + 1 = p.ACTIVE_H_PIXELS + p.H_FRONT_PORCH := by
    have := positive.activePixels
    simp only [VideoParams.H_SYNC_HI, VideoParams.TOTAL_PIXELS]
    omega
  have lo : p.H_SYNC_LO + 1 = p.ACTIVE_H_PIXELS + p.H_FRONT_PORCH + p.H_SYNC_WIDTH := by
    have := positive.activePixels
    simp only [VideoParams.H_SYNC_LO, VideoParams.TOTAL_PIXELS]
    omega
  refine ⟨h.hcount, h.vcount, ?_, invisible, column, ?_, h.vs, h.nf⟩
  · exact Bool.eq_false_iff.mpr (mt h.ad.mp invisible)
  · simp only [h.hcount, Bool.and_eq_true, decide_eq_true_eq]
    omega

theorem Blank.inside (h : self.Blank x y) (inside : x + 1 < p.TOTAL_PIXELS)
    (line : y ≠ p.ACTIVE_LINES) : Shows (x + 1) y { self with hcountOut := self.hcountOut + 1 } := by
  obtain ⟨rfl, rfl, low, invisible, column, hs, vs, nf⟩ := h
  refine ⟨hcount_succ rfl inside, rfl, ?_, hs, vs, ?_⟩
  · simp only [low, Bool.false_eq_true, false_iff]
    omega
  · simp only [nf]
    omega

/-- At the end of a line the column starts over; the line, `ad_out` and `vs_out` are up to
the region. -/
theorem Blank.last (h : self.Blank x y) (positive : p.Positive) (last : x + 1 = p.TOTAL_PIXELS)
    {v : BitVec (Nat.clog 2 p.TOTAL_LINES)} {ad vs : Bool} {y' : Nat} (line : v.toNat = y')
    (visible : ad = true ↔ y' < p.ACTIVE_LINES)
    (sync : vs = true ↔ p.ACTIVE_LINES + p.V_FRONT_PORCH ≤ y' ∧
      y' < p.ACTIVE_LINES + p.V_FRONT_PORCH + p.V_SYNC_WIDTH) :
    Shows 0 y' { self with hcountOut := 0, vcountOut := v, adOut := ad, vsOut := vs } := by
  have pixels := positive.activePixels
  have porch := positive.hFrontPorch
  have back := positive.hBackPorch
  have width := totalPixels p
  refine ⟨rfl, line, ?_, ?_, sync, ?_⟩
  · simp only [visible]
    omega
  · simp only [h.hs]
    omega
  · simp only [h.nf]
    omega

theorem Blank.horizontalBlank (h : self.Blank x y) (positive : p.Positive)
    (line : y < p.ACTIVE_LINES) :
    (x + 1 < p.TOTAL_PIXELS → self.horizontalBlank.Shows (x + 1) y) ∧
      (x + 1 = p.TOTAL_PIXELS → self.horizontalBlank.Shows 0 (y + 1)) := by
  have porch := positive.vFrontPorch
  have height := totalLines p
  have onset := vSyncHi p
  unfold VideoSigGen.horizontalBlank
  rw [h.hcount, h.vcount]
  constructor
  · intro inside
    rw [if_neg (by omega)]
    exact h.inside inside line.ne
  · intro last
    rw [if_pos (by omega)]
    refine h.last positive last (vcount_succ h.vcount (by omega)) ?_ ?_
    · rw [h.ad]
      split <;> simp <;> omega
    · rw [if_neg (by omega), h.vs]
      omega

theorem Blank.lastLine (h : self.Blank x y) (positive : p.Positive)
    (line : y + 1 = p.TOTAL_LINES) :
    (x + 1 < p.TOTAL_PIXELS → self.lastLine.Shows (x + 1) y) ∧
      (x + 1 = p.TOTAL_PIXELS → self.lastLine.Shows 0 0) := by
  have lines := positive.activeLines
  have porch := positive.vFrontPorch
  have back := positive.vBackPorch
  have height := totalLines p
  unfold VideoSigGen.lastLine
  rw [h.hcount, h.vcount]
  constructor
  · intro inside
    rw [if_neg (by omega)]
    exact h.inside inside (by omega)
  · intro last
    rw [if_pos (by omega)]
    refine h.last positive last rfl ?_ ?_
    · rw [if_pos (by omega)]
      simp only [true_iff]
      omega
    · rw [h.vs]
      omega

theorem Blank.firstBlankLine (h : self.Blank x y) (positive : p.Positive)
    (line : y = p.ACTIVE_LINES) :
    (x + 1 < p.TOTAL_PIXELS → self.firstBlankLine.Shows (x + 1) y) ∧
      (x + 1 = p.TOTAL_PIXELS → self.firstBlankLine.Shows 0 (y + 1)) := by
  have pixels := positive.activePixels
  have porch := positive.hFrontPorch
  have front := positive.vFrontPorch
  have sync := positive.vSyncWidth
  have height := totalLines p
  have width := totalPixels p
  have onset := vSyncHi p
  unfold VideoSigGen.firstBlankLine
  rw [h.hcount, h.vcount]
  constructor
  · intro inside
    have column : (self.hcountOut + 1).toNat = x + 1 := hcount_succ h.hcount inside
    have ad : self.adOut = true ↔ x + 1 < p.ACTIVE_H_PIXELS ∧ y < p.ACTIVE_LINES := by
      rw [h.ad]
      simp [line]
    split
    · rename_i edge
      refine ⟨column, h.vcount, ad, h.hs, h.vs, ?_⟩
      simp only [true_iff]
      omega
    · rename_i inner
      rw [if_neg (by omega)]
      refine ⟨column, h.vcount, ad, h.hs, h.vs, ?_⟩
      simp
      omega
  · intro last
    have inner : ¬x = p.ACTIVE_H_PIXELS - 1 := by omega
    rw [if_neg inner, if_pos (by omega)]
    refine h.last positive last (vcount_succ h.vcount (by omega)) ?_ ?_
    · rw [h.ad]
      simp
      omega
    · split
      · simp
        omega
      · rw [h.vs]
        omega

theorem Blank.verticalBlank (h : self.Blank x y) (positive : p.Positive)
    (below : p.ACTIVE_LINES < y) (line : y + 1 < p.TOTAL_LINES) :
    (x + 1 < p.TOTAL_PIXELS → self.verticalBlank.Shows (x + 1) y) ∧
      (x + 1 = p.TOTAL_PIXELS → self.verticalBlank.Shows 0 (y + 1)) := by
  have sync := positive.vSyncWidth
  have onset := vSyncHi p
  have offset := vSyncLo p
  unfold VideoSigGen.verticalBlank
  rw [h.hcount, h.vcount]
  constructor
  · intro inside
    rw [if_neg (by omega)]
    exact h.inside inside below.ne'
  · intro last
    rw [if_pos (by omega)]
    refine h.last positive last (vcount_succ h.vcount line) ?_ ?_
    · rw [h.ad]
      simp
      omega
    · split
      · simp
        omega
      · split
        · simp
          omega
        · rw [h.vs]
          omega

theorem Blank.blank (h : self.Blank x y) (positive : p.Positive) (height : y < p.TOTAL_LINES) :
    self.blank.Shows (if x + 1 < p.TOTAL_PIXELS then x + 1 else 0)
      (if x + 1 < p.TOTAL_PIXELS then y else if y + 1 < p.TOTAL_LINES then y + 1 else 0) := by
  have column := h.column
  have lines := totalLines p
  have porch := positive.vFrontPorch
  have step : (x + 1 < p.TOTAL_PIXELS → self.blank.Shows (x + 1) y) ∧ (x + 1 = p.TOTAL_PIXELS →
      self.blank.Shows 0 (if y + 1 < p.TOTAL_LINES then y + 1 else 0)) := by
    unfold VideoSigGen.blank
    rw [h.vcount]
    by_cases final : y + 1 = p.TOTAL_LINES
    · rw [if_neg (by omega), if_pos (by omega), if_neg (by omega)]
      exact h.lastLine positive final
    · rw [if_pos (show y + 1 < p.TOTAL_LINES by omega)]
      by_cases shown : y < p.ACTIVE_LINES
      · rw [if_pos shown]
        exact h.horizontalBlank positive shown
      · rw [if_neg shown, if_neg (by omega)]
        by_cases first : y = p.ACTIVE_LINES
        · rw [if_pos first]
          exact h.firstBlankLine positive first
        · rw [if_neg first]
          exact h.verticalBlank positive (by omega) (by omega)
  split
  · exact step.1 ‹_›
  · exact step.2 (by omega)

theorem Shows.risingPixelClkEdge {n : Nat} (positive : p.Positive)
    (h : self.Shows (column p.TOTAL_PIXELS n) (row p.TOTAL_PIXELS p.TOTAL_LINES n)) :
    (self.risingPixelClkEdge false).Shows (column p.TOTAL_PIXELS (n + 1))
      (row p.TOTAL_PIXELS p.TOTAL_LINES (n + 1)) := by
  have pixels := positive.activePixels
  have lines := positive.activeLines
  have porch := positive.hFrontPorch
  have width := totalPixels p
  have height := totalLines p
  rw [row_succ (by omega) (by omega), column_succ (by omega)]
  have inside : column p.TOTAL_PIXELS n < p.TOTAL_PIXELS := column_lt (by omega)
  unfold VideoSigGen.risingPixelClkEdge
  rw [if_neg Bool.false_ne_true]
  by_cases visible : column p.TOTAL_PIXELS n < p.ACTIVE_H_PIXELS ∧
      row p.TOTAL_PIXELS p.TOTAL_LINES n < p.ACTIVE_LINES
  · rw [if_pos (h.ad.mpr visible), if_pos (by omega), if_pos (by omega)]
    exact h.active positive visible
  · rw [if_neg (mt h.ad.mp visible)]
    exact (h.blank positive inside visible).blank positive (row_lt (by omega))

def afterReset (p : VideoParams) (n : Nat) : VideoSigGen p :=
  trace risingPixelClkEdge (fun _ => false) (reset p) n

theorem shows_afterReset (positive : p.Positive) (n : Nat) :
    (afterReset p n).Shows (column p.TOTAL_PIXELS n) (row p.TOTAL_PIXELS p.TOTAL_LINES n) := by
  induction n with
  | zero =>
    simp only [column, row, Nat.zero_mod, Nat.zero_div]
    exact shows_reset positive
  | succ n ih => exact ih.risingPixelClkEdge positive

theorem raster_exact (positive : p.Positive) (n : Nat) :
    let hcount := (afterReset p n).hcountOut.toNat
    let vcount := (afterReset p n).vcountOut.toNat
    hcount = n % p.TOTAL_PIXELS ∧ vcount = n / p.TOTAL_PIXELS % p.TOTAL_LINES ∧
      ((afterReset p n).adOut = true ↔ hcount < p.ACTIVE_H_PIXELS ∧ vcount < p.ACTIVE_LINES) ∧
      ((afterReset p n).hsOut = true ↔ p.ACTIVE_H_PIXELS + p.H_FRONT_PORCH ≤ hcount ∧
        hcount < p.ACTIVE_H_PIXELS + p.H_FRONT_PORCH + p.H_SYNC_WIDTH) ∧
      ((afterReset p n).vsOut = true ↔ p.ACTIVE_LINES + p.V_FRONT_PORCH ≤ vcount ∧
        vcount < p.ACTIVE_LINES + p.V_FRONT_PORCH + p.V_SYNC_WIDTH) ∧
      ((afterReset p n).nfOut = true ↔ hcount = p.ACTIVE_H_PIXELS ∧ vcount = p.ACTIVE_LINES) := by
  obtain ⟨hcount, vcount, ad, hs, vs, nf⟩ := shows_afterReset positive n
  simp only [hcount, vcount]
  exact ⟨rfl, rfl, ad, hs, vs, nf⟩

theorem raster_exact_standard :
    (afterReset VideoParams.standard 1187999).hcountOut.toNat = 1649 ∧
      (afterReset VideoParams.standard 1187999).vcountOut.toNat = 719 :=
  have exact := raster_exact VideoParams.positive_standard 1187999
  ⟨exact.1, exact.2.1⟩

end VideoSigGen
end FpgaCraft.Hardware
