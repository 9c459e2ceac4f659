import FpgaCraft.Software.World
import FpgaCraft.Hardware.Types

/-! The snapshot of the world that the server plugin saves (`plugin/src/lib.rs`,
`plugin/src/block.rs`), as the software cache and the chunk ROM read it. -/
namespace FpgaCraft.Server

inductive Block where
  | air
  | stone
  | grass
  | dirt
  | cobblestone
  | oakPlanks
  | sprucePlanks
  | birchPlanks
  | water
  | sand
  | gravel
  | oakLog
  | spruceLog
  | birchLog
  | oakLeaves
  | spruceLeaves
  | birchLeaves
  | glass
deriving DecidableEq, Repr

def Block.toByte (block : Block) : Nat := block.ctorIdx

abbrev CHUNK_SIZE : Nat := 64

abbrev ChunkData := Fin (CHUNK_SIZE * CHUNK_SIZE * CHUNK_SIZE) → Block

structure Offset where
  x : Int
  y : Int
  z : Int
deriving DecidableEq

def HALF_CHUNK_SIZE : Int := 32

def offset (i : Nat) : Offset where
  x := (i % CHUNK_SIZE : Nat) - HALF_CHUNK_SIZE
  y := (i / CHUNK_SIZE % CHUNK_SIZE : Nat) - HALF_CHUNK_SIZE
  z := (i / (CHUNK_SIZE * CHUNK_SIZE) : Nat) - HALF_CHUNK_SIZE

end FpgaCraft.Server

namespace FpgaCraft.Software

def Block.ofByte (byte : Nat) : Block :=
  [air, stone, grass, dirt, cobblestone, oakPlanks, sprucePlanks, birchPlanks, water, sand, gravel,
    oakLog, spruceLog, birchLog, oakLeaves, spruceLeaves, birchLeaves, glass].getD byte air

def MockCache.ofChunkData (data : Server.ChunkData) : MockCache :=
  ⟨fun i => Block.ofByte (data i).toByte⟩

theorem Block.toByte_ofByte (block : Server.Block) :
    (Block.ofByte block.toByte).toByte = block.toByte := by
  cases block <;> rfl

end FpgaCraft.Software

namespace FpgaCraft.Hardware

def romWord (block : Server.Block) : BlockType := BitVec.ofNat 5 block.toByte

def romOfChunkData (data : Server.ChunkData) (addr : BitVec 18) : BlockType :=
  romWord (data ⟨addr.toNat, addr.isLt⟩)

def BlockType.named : Server.Block → BlockType
  | .air => BLOCK_AIR
  | .stone => BLOCK_STONE
  | .grass => BLOCK_GRASS
  | .dirt => BLOCK_DIRT
  | .cobblestone => BLOCK_COBBLESTONE
  | .oakPlanks => BLOCK_OAK_PLANKS
  | .sprucePlanks => BLOCK_SPRUCE_PLANKS
  | .birchPlanks => BLOCK_BIRCH_PLANKS
  | .water => BLOCK_WATER
  | .sand => BLOCK_SAND
  | .gravel => BLOCK_GRAVEL
  | .oakLog => BLOCK_OAK_LOG
  | .spruceLog => BLOCK_SPRUCE_LOG
  | .birchLog => BLOCK_BIRC_HLOG
  | .oakLeaves => BLOCK_OAK_LEAVES
  | .spruceLeaves => BLOCK_SPRUCE_LEAVES
  | .birchLeaves => BLOCK_BIRCH_LEAVES
  | .glass => BLOCK_GLASS

theorem romWord_injective : Function.Injective romWord := by
  intro a b h
  cases a <;> cases b <;> first | rfl | cases h

@[simp] theorem toNat_romWord (block : Server.Block) : (romWord block).toNat = block.toByte := by
  cases block <;> rfl

theorem romWord_eq_named (block : Server.Block) :
    romWord block = BlockType.named block ↔ block ≠ .gravel ∧ block ≠ .oakLog := by
  cases block <;> decide

end FpgaCraft.Hardware
