import FpgaCraft.Library.Registers

/-! The types shared by the hardware modules (`types.sv`). -/
namespace FpgaCraft.Hardware

abbrev CHUNK_WIDTH : Nat := 64
abbrev FRAME_WIDTH : Nat := 64
abbrev FRAME_HEIGHT : Nat := 32
abbrev FRAME_AREA : Nat := FRAME_WIDTH * FRAME_HEIGHT

/-- The base type of the enumeration; a register of this type may hold any code. -/
abbrev BlockType := BitVec 5

def BLOCK_AIR : BlockType := 0
def BLOCK_STONE : BlockType := 1
def BLOCK_GRASS : BlockType := 2
def BLOCK_DIRT : BlockType := 3
def BLOCK_COBBLESTONE : BlockType := 4
def BLOCK_OAK_PLANKS : BlockType := 5
def BLOCK_SPRUCE_PLANKS : BlockType := 6
def BLOCK_BIRCH_PLANKS : BlockType := 7
def BLOCK_WATER : BlockType := 8
def BLOCK_SAND : BlockType := 9
def BLOCK_OAK_LOG : BlockType := 10
def BLOCK_GRAVEL : BlockType := 11
def BLOCK_SPRUCE_LOG : BlockType := 12
def BLOCK_BIRC_HLOG : BlockType := 13
def BLOCK_OAK_LEAVES : BlockType := 14
def BLOCK_SPRUCE_LEAVES : BlockType := 15
def BLOCK_BIRCH_LEAVES : BlockType := 16
def BLOCK_GLASS : BlockType := 17

/-- The position of a block, `$clog2(CHUNK_WIDTH)` bits in all dimensions. -/
structure BlockPos where
  x : BitVec 6
  y : BitVec 6
  z : BitVec 6
deriving DecidableEq, Repr

instance : Zero BlockPos := ⟨⟨0, 0, 0⟩⟩

end FpgaCraft.Hardware
