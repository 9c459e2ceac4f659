import FpgaCraft.Hardware.Types
import FpgaCraft.Library.Pipeline

/-! The read path of the frame buffer (`top_level.sv`): every pixel of the buffer is shown in
a cell of 4 by 4 screen positions. -/
namespace FpgaCraft.Hardware
open Library

structure Position where
  hcount : BitVec 11
  vcount : BitVec 10
deriving DecidableEq

@[ext] structure Rgb where
  red : BitVec 8
  green : BitVec 8
  blue : BitVec 8
deriving DecidableEq, Repr

/-- The IP behind the buffer: a memory with 16 address bits that is read synchronously. Its
latency is a parameter of the generator. -/
structure FrameBuffer (content : BitVec 16 → BitVec 16) where
  State : Type
  step : BitVec 16 → State → State
  doutb : State → BitVec 16
  latency : Nat
  reads : Pipelines step doutb content latency

namespace Position

/-- `hcount[10:2] + (FRAME_WIDTH * vcount[9:2])`, in the bits of the register. -/
def sbufRAddr (q : Position) : BitVec 11 :=
  BitVec.ofNat 11 ((q.hcount.extractLsb' 2 9).toNat + FRAME_WIDTH * (q.vcount.extractLsb' 2 8).toNat)

def sbufRValid (q : Position) : Bool :=
  decide (q.hcount.toNat < 1280) && decide (q.vcount.toNat < 720)

end Position
namespace Rgb

def expand (sbufRData : BitVec 16) : Rgb where
  red := sbufRData.extractLsb' 11 5 ++ (0 : BitVec 3)
  green := sbufRData.extractLsb' 5 6 ++ (0 : BitVec 2)
  blue := sbufRData.extractLsb' 0 5 ++ (0 : BitVec 3)

def black : Rgb := ⟨0, 0, 0⟩

def select (sbufRValid : Bool) (sbufRData : BitVec 16) : Rgb :=
  if sbufRValid then expand sbufRData else black

end Rgb

variable {content : BitVec 16 → BitVec 16}

structure ReadPath (buffer : FrameBuffer content) where
  frameBuffer : buffer.State
  sbufRAddr : BitVec 11
  sbufRValid : Bool
  rgb : Rgb

namespace ReadPath
variable {buffer : FrameBuffer content}

def risingClkEdge (i : Position) (self : ReadPath buffer) : ReadPath buffer where
  frameBuffer := buffer.step (self.sbufRAddr.setWidth 16) self.frameBuffer
  sbufRAddr := i.sbufRAddr
  sbufRValid := i.sbufRValid
  rgb := Rgb.select self.sbufRValid (buffer.doutb self.frameBuffer)

variable (content) in
def selected (q : Position) : Rgb :=
  Rgb.select q.sbufRValid (content (q.sbufRAddr.setWidth 16))

/-- The word read for a position meets the validity of the one that entered `latency`
cycles later. -/
theorem rgb_late (input : Nat → Position) (s : ReadPath buffer) (n : Nat) :
    (trace risingClkEdge input s (n + (1 + buffer.latency) + 1)).rgb =
      Rgb.select (input (n + buffer.latency)).sbufRValid
        (content ((input n).sbufRAddr.setWidth 16)) := by
  have address : Pipelines risingClkEdge (fun s : ReadPath buffer => s.sbufRAddr.setWidth 16)
      (fun q => q.sbufRAddr.setWidth 16) 1 := pipelines_latch fun _ _ => rfl
  have word := address.feed buffer.reads ReadPath.frameBuffer fun _ _ => rfl
  have valid : Pipelines risingClkEdge (fun s : ReadPath buffer => s.sbufRValid) Position.sbufRValid 1 :=
    pipelines_latch fun _ _ => rfl
  have data := word input s n
  have shown := valid input s (n + buffer.latency)
  rw [Nat.add_assoc, Nat.add_comm buffer.latency] at shown
  dsimp only at data shown
  rw [← data, ← shown]
  rfl

theorem rgb_selected (input : Nat → Position) (s : ReadPath buffer) (n : Nat)
    (same : (input (n + buffer.latency)).sbufRValid = (input n).sbufRValid) :
    (trace risingClkEdge input s (n + (1 + buffer.latency) + 1)).rgb = selected content (input n) := by
  rw [rgb_late, same]
  rfl

end ReadPath

namespace Position

def cell (q : Position) : Nat × Nat := (q.hcount.toNat / 4, q.vcount.toNat / 4)

def Active (q : Position) : Prop := q.hcount.toNat < 1280 ∧ q.vcount.toNat < 720

def InBuffer (q : Position) : Prop := q.cell.1 < FRAME_WIDTH ∧ q.cell.2 < FRAME_HEIGHT

instance (q : Position) : Decidable q.InBuffer := inferInstanceAs (Decidable (_ ∧ _))

end Position
namespace ReadPath

variable (content) in
/-- The colour that belongs at a position: the pixel of the buffer there, and nothing where
there is none. -/
def intended (q : Position) : Rgb :=
  if q.InBuffer then Rgb.expand (content (BitVec.ofNat 16 (q.cell.2 * FRAME_WIDTH + q.cell.1))) else Rgb.black

theorem toNat_sbufRAddr (q : Position) :
    q.sbufRAddr.toNat = (q.cell.1 + FRAME_WIDTH * q.cell.2) % 2048 := by
  have column := q.hcount.isLt
  have line := q.vcount.isLt
  simp only [Position.sbufRAddr, Position.cell, BitVec.toNat_ofNat, BitVec.extractLsb'_toNat,
    Nat.shiftRight_eq_div_pow, FRAME_WIDTH]
  omega

theorem sbufRAddr_of_inBuffer {q : Position} (h : q.InBuffer) :
    q.sbufRAddr.toNat = q.cell.2 * FRAME_WIDTH + q.cell.1 := by
  obtain ⟨column, line⟩ := h
  rw [toNat_sbufRAddr]
  simp only [FRAME_WIDTH, FRAME_HEIGHT] at *
  omega

theorem selected_of_inBuffer {q : Position} (active : q.Active) (h : q.InBuffer) :
    selected content q = intended content q := by
  have valid : q.sbufRValid = true := by simpa [Position.sbufRValid, Position.Active] using active
  have address : q.sbufRAddr.setWidth 16 =
      BitVec.ofNat 16 (q.cell.2 * FRAME_WIDTH + q.cell.1) := by
    apply BitVec.eq_of_toNat_eq
    rw [BitVec.toNat_setWidth, BitVec.toNat_ofNat, sbufRAddr_of_inBuffer h]
  rw [selected, intended, valid, address, if_pos h]
  rfl

theorem cell_of_sbufRAddr {q r : Position} (hq : q.InBuffer) (hr : r.InBuffer)
    (same : q.sbufRAddr = r.sbufRAddr) : q.cell = r.cell := by
  have numbers := congrArg BitVec.toNat same
  rw [sbufRAddr_of_inBuffer hq, sbufRAddr_of_inBuffer hr] at numbers
  obtain ⟨columnQ, -⟩ := hq
  obtain ⟨columnR, -⟩ := hr
  apply Prod.ext <;> simp only [FRAME_WIDTH] at * <;> omega

theorem aliased_of_not_inBuffer {q : Position} (h : ¬q.InBuffer) :
    ∃ r : Position, r.Active ∧ r.InBuffer ∧ r.sbufRAddr = q.sbufRAddr ∧ r.cell ≠ q.cell := by
  let a := q.sbufRAddr.toNat
  have bound : a < 2048 := q.sbufRAddr.isLt
  let r : Position := ⟨BitVec.ofNat 11 (4 * (a % 64)), BitVec.ofNat 10 (4 * (a / 64))⟩
  have column : r.hcount.toNat = 4 * (a % 64) := by
    rw [BitVec.toNat_ofNat]
    omega
  have line : r.vcount.toNat = 4 * (a / 64) := by
    rw [BitVec.toNat_ofNat]
    omega
  have inBuffer : r.InBuffer := by
    simp only [Position.InBuffer, Position.cell, column, line, FRAME_WIDTH, FRAME_HEIGHT]
    omega
  refine ⟨r, ?_, inBuffer, ?_, fun same => h ?_⟩
  · simp only [Position.Active, column, line]
    omega
  · apply BitVec.eq_of_toNat_eq
    rw [sbufRAddr_of_inBuffer inBuffer]
    simp only [Position.cell, column, line, FRAME_WIDTH]
    omega
  · rwa [Position.InBuffer, ← same]

/-- A position of the active area is shown as it should be exactly if the buffer has a pixel
for it. Such positions share an address only within a cell; any other shows the address of
a cell that has a pixel. -/
theorem scale_up_iff (q : Position) (active : q.Active) :
    ((∀ content, selected content q = intended content q) ↔
        q.cell.1 < FRAME_WIDTH ∧ q.cell.2 < FRAME_HEIGHT) ∧
      ((∀ r : Position, r.Active → r.InBuffer → r.sbufRAddr = q.sbufRAddr → r.cell = q.cell) ↔
        q.cell.1 < FRAME_WIDTH ∧ q.cell.2 < FRAME_HEIGHT) := by
  refine ⟨⟨fun shown => ?_, fun h content => selected_of_inBuffer active h⟩,
    ⟨fun alone => ?_, fun h r _ hr same => cell_of_sbufRAddr hr h same⟩⟩
  · by_contra outside
    have valid : q.sbufRValid = true := by simpa [Position.sbufRValid, Position.Active] using active
    have white := shown fun _ => 0xFFFF
    rw [selected, intended, valid, if_neg (show ¬q.InBuffer from outside)] at white
    exact absurd white (by decide)
  · by_contra outside
    obtain ⟨r, hr, inBuffer, same, other⟩ := aliased_of_not_inBuffer outside
    exact other (alone r hr inBuffer same)

theorem scale_up_iff_corner : selected id ⟨255, 127⟩ = intended id ⟨255, 127⟩ :=
  (scale_up_iff ⟨255, 127⟩ ⟨by decide, by decide⟩).1.mpr ⟨by decide, by decide⟩ id

/-- Right of the buffer's first line the screen shows its second line. -/
theorem second_line_shown_beside_first :
    let content : BitVec 16 → BitVec 16 := fun a => if a = 64 then 0xFFFF else 0
    let q : Position := ⟨256, 0⟩
    selected content q = ⟨0xF8, 0xFC, 0xF8⟩ ∧ intended content q = Rgb.black ∧
      q.sbufRAddr = (⟨0, 4⟩ : Position).sbufRAddr ∧ q.cell ≠ (⟨0, 4⟩ : Position).cell := by
  decide

end ReadPath
end FpgaCraft.Hardware
