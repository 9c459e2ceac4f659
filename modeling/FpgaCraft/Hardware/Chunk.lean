import FpgaCraft.Hardware.Types
import FpgaCraft.Library.Machine

/-! The ROM version of the L3 cache (`chunk.sv`), over the single port RAM it reads
(`xilinx_single_port_ram_read_first.v`, never written). -/
namespace FpgaCraft.Hardware
open Library

/-- The content of the RAM, one word per cell of the chunk. -/
abbrev Rom := BitVec 18 → BlockType

structure SinglePortRam where
  ramData : BlockType
  doutaReg : BlockType
deriving DecidableEq

def SinglePortRam.risingClkEdge (rom : Rom) (addra : BitVec 18) (rsta : Bool)
    (self : SinglePortRam) : SinglePortRam where
  ramData := rom addra
  doutaReg := if rsta then 0 else self.ramData

structure Chunk where
  addrPipe0 : BlockPos
  addrPipe1 : BlockPos
  addrPipe2 : BlockPos
  rom : SinglePortRam
  out : BlockType
deriving DecidableEq

structure ChunkIn where
  rst : Bool
  addr : BlockPos
  readEnable : Bool
deriving DecidableEq

namespace Chunk

/-- The comparisons are between the 6-bit coordinates and the width of the chunk. -/
def oob (addr : BlockPos) : Bool :=
  (decide ((CHUNK_WIDTH : Int) ≤ addr.x.toInt) || decide (addr.x.toInt < -CHUNK_WIDTH)) ||
    (decide ((CHUNK_WIDTH : Int) ≤ addr.y.toInt) || decide (addr.y.toInt < -CHUNK_WIDTH)) ||
    (decide ((CHUNK_WIDTH : Int) ≤ addr.z.toInt) || decide (addr.z.toInt < -CHUNK_WIDTH))

def flatAddr (addr : BlockPos) : BitVec 18 :=
  (addr.z.signExtend 18 + 40) * 4096 + (addr.y.signExtend 18 + 40) * 64 +
    (addr.x.signExtend 18 + 40)

def valid (i : ChunkIn) (self : Chunk) : Bool :=
  i.readEnable && (oob i.addr || decide (i.addr = self.addrPipe2))

def risingClkEdge (rom : Rom) (i : ChunkIn) (self : Chunk) : Chunk where
  rom := self.rom.risingClkEdge rom (if oob i.addr then 0 else flatAddr i.addr) i.rst
  addrPipe2 := if i.rst then 0 else self.addrPipe1
  addrPipe1 := if i.rst then 0 else self.addrPipe0
  addrPipe0 := if i.rst then 0 else i.addr
  out := if i.rst then self.out else if oob i.addr then BLOCK_AIR else self.rom.doutaReg

def word (rom : Rom) (addr : BlockPos) : BlockType := rom (flatAddr addr)

theorem flatAddr_eq_ofInt (addr : BlockPos) :
    flatAddr addr = BitVec.ofInt 18
      ((addr.z.toInt + 40) * 4096 + (addr.y.toInt + 40) * 64 + (addr.x.toInt + 40)) := by
  simp only [flatAddr, BitVec.signExtend, BitVec.ofInt_add, BitVec.ofInt_mul]
  rfl

@[simp] theorem oob_eq_false (addr : BlockPos) : oob addr = false := by
  have bound (c : BitVec 6) : -32 ≤ c.toInt ∧ c.toInt < 32 :=
    ⟨BitVec.le_toInt c, BitVec.toInt_lt⟩
  obtain ⟨hx, hx'⟩ := bound addr.x
  obtain ⟨hy, hy'⟩ := bound addr.y
  obtain ⟨hz, hz'⟩ := bound addr.z
  simp only [oob, CHUNK_WIDTH, Bool.or_eq_false_iff, decide_eq_false_iff_not]
  omega

theorem valid_eq_true {i : ChunkIn} {self : Chunk} :
    self.valid i = true ↔ i.readEnable = true ∧ i.addr = self.addrPipe2 := by
  simp [valid]

variable {rom : Rom} {s : Chunk} {inputs : Nat → ChunkIn}

/-- Three edges after an address was presented it leaves the pipeline, with its word. -/
theorem latency {n : Nat} (h₀ : (inputs n).rst = false) (h₁ : (inputs (n + 1)).rst = false)
    (h₂ : (inputs (n + 2)).rst = false) :
    (trace (risingClkEdge rom) inputs s (n + 3)).addrPipe2 = (inputs n).addr ∧
      (trace (risingClkEdge rom) inputs s (n + 3)).out = word rom (inputs n).addr := by
  simp [trace_succ, risingClkEdge, SinglePortRam.risingClkEdge, h₀, h₁, h₂, word]

/-- After a reset the pipeline holds the zero address until the first one has passed. -/
theorem addrPipe2_after_reset {n : Nat} (hrst : (inputs n).rst = true)
    (h₁ : (inputs (n + 1)).rst = false) (h₂ : (inputs (n + 2)).rst = false) :
    (trace (risingClkEdge rom) inputs s (n + 1)).addrPipe2 = 0 ∧
      (trace (risingClkEdge rom) inputs s (n + 2)).addrPipe2 = 0 ∧
      (trace (risingClkEdge rom) inputs s (n + 3)).addrPipe2 = 0 := by
  simp [trace_succ, risingClkEdge, hrst, h₁, h₂]

/-! ### The first cycles after a reset

The address pipeline restarts at the zero address, but `out` and the word in the RAM's first
register stay what they were. -/

variable (rom) in
def shown (addr : BlockPos) : BlockType := if oob addr then BLOCK_AIR else word rom addr

@[simp] theorem shown_eq (addr : BlockPos) : shown rom addr = word rom addr := by
  simp [shown]

theorem out_after_reset {n : Nat} (hrst : (inputs n).rst = true)
    (h₁ : (inputs (n + 1)).rst = false) (h₂ : (inputs (n + 2)).rst = false) :
    (trace (risingClkEdge rom) inputs s (n + 1)).out = (trace (risingClkEdge rom) inputs s n).out ∧
      (trace (risingClkEdge rom) inputs s (n + 2)).out = BLOCK_AIR ∧
      (trace (risingClkEdge rom) inputs s (n + 3)).out = word rom (inputs n).addr := by
  simp [trace_succ, risingClkEdge, SinglePortRam.risingClkEdge, hrst, h₁, h₂, word, BLOCK_AIR]

/-- The zero address, requested `n` cycles after the last one of a reset. -/
def RequestsZero (inputs : Nat → ChunkIn) (n : Nat) : Prop :=
  (inputs n).readEnable = true ∧ (inputs n).addr = 0

/-- After a reset every valid output is the word of its address, unless the zero address is
requested in one of the first three cycles: it is valid at once, and right only if the words
still on their way when the reset came happen to be the same. -/
theorem valid_shows_word_iff (rom : Rom) (s : Chunk) (inputs : Nat → ChunkIn)
    (hrst : (inputs 0).rst = true) (hrun : ∀ k, 0 < k → (inputs k).rst = false) :
    (∀ n, 0 < n → (trace (risingClkEdge rom) inputs s n).valid (inputs n) = true →
        (trace (risingClkEdge rom) inputs s n).out = shown rom (inputs n).addr) ↔
      (RequestsZero inputs 1 → s.out = word rom 0) ∧
        (RequestsZero inputs 2 → BLOCK_AIR = word rom 0) ∧
        (RequestsZero inputs 3 → word rom (inputs 0).addr = word rom 0) := by
  have h₁ := hrun 1 (by decide)
  have h₂ := hrun 2 (by decide)
  obtain ⟨pipe₁, pipe₂, pipe₃⟩ := @addrPipe2_after_reset rom s inputs 0 hrst h₁ h₂
  obtain ⟨out₁, out₂, out₃⟩ := @out_after_reset rom s inputs 0 hrst h₁ h₂
  simp only [valid_eq_true, shown_eq]
  constructor
  · intro right
    refine ⟨fun ⟨read, zero⟩ => ?_, fun ⟨read, zero⟩ => ?_, fun ⟨read, zero⟩ => ?_⟩
    · rw [← zero, ← right 1 (by decide) ⟨read, zero.trans pipe₁.symm⟩]
      exact out₁.symm
    · rw [← zero, ← right 2 (by decide) ⟨read, zero.trans pipe₂.symm⟩]
      exact out₂.symm
    · rw [← zero, ← right 3 (by decide) ⟨read, zero.trans pipe₃.symm⟩]
      exact out₃.symm
  · rintro ⟨first, second, third⟩ n positive ⟨read, addressed⟩
    match n with
    | 1 =>
      have zero := addressed.trans pipe₁
      rw [zero, ← first ⟨read, zero⟩]
      exact out₁
    | 2 =>
      have zero := addressed.trans pipe₂
      rw [zero, ← second ⟨read, zero⟩]
      exact out₂
    | 3 =>
      have zero := addressed.trans pipe₃
      rw [zero, ← third ⟨read, zero⟩]
      exact out₃
    | n + 4 =>
      obtain ⟨pipe, out⟩ := @latency rom s inputs (n + 1) (hrun (n + 1) (by omega))
        (hrun (n + 2) (by omega)) (hrun (n + 3) (by omega))
      rw [addressed, pipe]
      exact out

theorem valid_shows_word_iff_elsewhere :
    let rom : Rom := fun addr => addr.setWidth 5
    let inputs : Nat → ChunkIn := fun k => ⟨decide (k = 0), ⟨1, 2, 3⟩, decide (0 < k)⟩
    let c := trace (risingClkEdge rom) inputs ⟨0, 0, 0, ⟨0, 0⟩, 0⟩ 4
    c.valid (inputs 4) = true ∧ c.out = shown rom (inputs 4).addr := by
  intro rom inputs c
  have elsewhere (n : Nat) : ¬RequestsZero inputs n := by
    rintro ⟨-, zero⟩
    exact absurd (show (⟨1, 2, 3⟩ : BlockPos) = 0 from zero) (by decide)
  have right := (valid_shows_word_iff rom ⟨0, 0, 0, ⟨0, 0⟩, 0⟩ inputs rfl
    fun k hk => decide_eq_false hk.ne').mpr ⟨fun h => absurd h (elsewhere 1),
      fun h => absurd h (elsewhere 2), fun h => absurd h (elsewhere 3)⟩
  have valid : c.valid (inputs 4) = true := by decide
  exact ⟨valid, right 4 (by decide) valid⟩

/-- A chunk that has shown a block of dirt is reset and asked for the stone at the zero
address: it answers at once, with the dirt. -/
theorem zero_address_shows_previous_block :
    let dirt : BlockPos := ⟨1, 0, 0⟩
    let rom : Rom := fun addr => if addr = flatAddr dirt then BLOCK_DIRT else BLOCK_STONE
    let s : Chunk := ⟨dirt, dirt, dirt, ⟨BLOCK_DIRT, BLOCK_DIRT⟩, BLOCK_DIRT⟩
    let inputs : Nat → ChunkIn := fun k => ⟨decide (k = 0), 0, decide (0 < k)⟩
    let c := trace (risingClkEdge rom) inputs s 1
    c.valid (inputs 1) = true ∧ c.out = BLOCK_DIRT ∧ shown rom (inputs 1).addr = BLOCK_STONE := by
  decide

end Chunk
end FpgaCraft.Hardware
