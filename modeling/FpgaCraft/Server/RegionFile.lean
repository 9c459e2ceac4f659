import FpgaCraft.Library.BigEndian
import FpgaCraft.Library.File
import FpgaCraft.Library.FirstFit
import FpgaCraft.Server.World

/-! Region files (`feather/base/src/anvil/region.rs`): sectors of 4 KiB, the first two with a
header that says where each of 32 by 32 chunks lies. The NBT data of a chunk and its
compression are a parameter. A panic is `none`. -/
namespace FpgaCraft.Server
open Library

abbrev REGION_SIZE : Nat := 32

abbrev DATA_VERSION : Int := 2586

abbrev SECTOR_BYTES : Nat := 4096

structure ChunkRoot (Level : Type) where
  level : Level
  dataVersion : Int

structure Nbt (Level : Type) where
  toZlibWriter : ChunkRoot Level → Option (List (BitVec 8))
  fromZlibReader : List (BitVec 8) → Option (ChunkRoot Level)
  fromGzipReader : List (BitVec 8) → Option (ChunkRoot Level)

inductive RegionError where
  | header (message : String)
  | nbt
  | chunkTooLarge (size : Nat)
  | invalidCompression (id : BitVec 8)
  | io
  | invalidBlock (name : String)
  | chunkNotExist
  | unsupportedDataVersion (version : Int)
  | indexOutOfBounds
  | invalidBiomeId (id : Int)
deriving DecidableEq

structure SectorBlock where
  offset : Nat
  count : Nat
deriving DecidableEq

namespace SectorBlock

def existsInFile (self : SectorBlock) : Bool := decide (self.offset ≠ 0) && decide (self.count ≠ 0)

def sectors (self : SectorBlock) : List Nat := List.range' self.offset self.count

def word (self : SectorBlock) : BitVec 32 :=
  BitVec.ofNat 32 self.offset <<< 8 ||| BitVec.ofNat 32 self.count &&& 0b11111111

def ofWord (val : BitVec 32) : SectorBlock := ⟨(val >>> 8).toNat, (val &&& 0b11111111).toNat⟩

end SectorBlock

/-! ### The header -/

structure RegionHeader where
  locations : Fin (REGION_SIZE * REGION_SIZE) → SectorBlock
  timestamps : Fin (REGION_SIZE * REGION_SIZE) → BitVec 32

namespace RegionHeader

def default : RegionHeader := ⟨fun _ => ⟨0, 0⟩, fun _ => 0⟩

def low (a : I32) : Nat := (BitVec.ofInt 32 a.val &&& 31).toNat

theorem low_eq (a : I32) : low a = (a.val % 32).toNat := by
  rw [low, show (31 : BitVec 32) = BitVec.ofNat 32 (2 ^ 5 - 1) from rfl, BitVec.toNat_and,
    BitVec.toNat_ofNat, Nat.mod_eq_of_lt (by decide), Nat.and_two_pow_sub_one_eq_mod, BitVec.toNat_ofInt]
  omega

theorem low_lt (a : I32) : low a < REGION_SIZE := by
  rw [low_eq, REGION_SIZE]
  omega

def index (pos : ChunkPosition) : Fin (REGION_SIZE * REGION_SIZE) where
  val := low pos.x + low pos.z * REGION_SIZE
  isLt := by
    have x := low_lt pos.x
    have z := low_lt pos.z
    simp only [REGION_SIZE] at x z ⊢
    omega

def locationForChunk (self : RegionHeader) (pos : ChunkPosition) : SectorBlock :=
  self.locations (index pos)

def setLocationForChunk (self : RegionHeader) (pos : ChunkPosition) (location : SectorBlock) :
    RegionHeader :=
  { self with locations := Function.update self.locations (index pos) location }

def words (self : RegionHeader) : List (BitVec 32) :=
  List.ofFn (fun i => (self.locations i).word) ++ List.ofFn self.timestamps

end RegionHeader

def writeU32 (file : File (BitVec 8)) (value : BitVec 32) : File (BitVec 8) :=
  file.writeAll 0 (bigEndian 4 value.toNat)

def RegionHeader.writeTo (self : RegionHeader) (file : File (BitVec 8)) : File (BitVec 8) :=
  self.words.foldl writeU32 file

def readU32 (file : File (BitVec 8)) : Option (BitVec 32 × File (BitVec 8)) :=
  (file.readExact 4).map fun (bytes, file) => (BitVec.ofNat 32 (ofBigEndian bytes), file)

def readWords : Nat → File (BitVec 8) → Option (List (BitVec 32))
  | 0, _ => some []
  | n + 1, file => (readU32 file).bind fun (val, file) => (readWords n file).map (val :: ·)

def readHeader (file : File (BitVec 8)) : Except RegionError RegionHeader :=
  if file.content.length < 8192 then .error (.header "The region header is too small.")
  else match readWords (REGION_SIZE * REGION_SIZE + REGION_SIZE * REGION_SIZE) file with
    | none => .error .io
    | some words => .ok
      { locations := fun i => SectorBlock.ofWord (words.getD i.val 0)
        timestamps := fun i => words.getD (REGION_SIZE * REGION_SIZE + i.val) 0 }

/-! ### The allocator -/

structure SectorAllocator where
  usedSectors : List Bool

namespace SectorAllocator

def new (header : RegionHeader) (fileSize : Nat) : Option SectorAllocator :=
  let chunks := (List.ofFn header.locations).filter SectorBlock.existsInFile
  (mark true (chunks.flatMap SectorBlock.sectors ++ [0, 1]) (List.replicate fileSize false)).map
    SectorAllocator.mk

def free (block : SectorBlock) (self : SectorAllocator) : Option SectorAllocator :=
  (mark false block.sectors self.usedSectors).map SectorAllocator.mk

def allocate (minSize : Nat) (self : SectorAllocator) : Option (SectorBlock × SectorAllocator) :=
  match search minSize self.usedSectors 0 0 0 with
  | some (offset, count) =>
    (mark true (List.range' offset count) self.usedSectors).map fun used => (⟨offset, count⟩, ⟨used⟩)
  | none =>
    -- no sector found: must allocate into end
    some (⟨self.usedSectors.length, minSize⟩, ⟨self.usedSectors ++ List.replicate minSize true⟩)

end SectorAllocator

/-! ### A region file -/

structure RegionHandle where
  file : File (BitVec 8)
  header : RegionHeader
  allocator : SectorAllocator

def clip (a : I32) : I32 where
  val := a.val.tmod 32
  lower := by
    have := Int.lt_tmod_of_pos a.val (show (0 : Int) < 32 by decide)
    omega
  upper := by
    have := Int.tmod_lt_of_pos a.val (show (0 : Int) < 32 by decide)
    omega

def ChunkPosition.local (pos : ChunkPosition) : ChunkPosition := ⟨clip pos.x, clip pos.z⟩

namespace RegionHandle
variable {Level : Type} (nbt : Nbt Level)

def decompress : List (BitVec 8) → Except RegionError (ChunkRoot Level)
  | [] => .error .io
  | compressionType :: data =>
    if compressionType = 1 then (nbt.fromGzipReader data).elim (.error .nbt) .ok
    else if compressionType = 2 then (nbt.fromZlibReader data).elim (.error .nbt) .ok
    else .error (.invalidCompression compressionType)

def loadRoot (self : RegionHandle) (pos : ChunkPosition) : Except RegionError (ChunkRoot Level) :=
  let location := self.header.locationForChunk pos.local
  if !location.existsInFile then .error .chunkNotExist
  else match readU32 (self.file.seek (location.offset * SECTOR_BYTES)) with
    | none => .error .io
    | some (len, file) =>
      if 1048576 < len.toNat then .error (.chunkTooLarge len.toNat)
      else if len.toNat = 0 then .error (.chunkTooLarge 0)
      else match file.readExact len.toNat with
        | none => .error .io
        | some (buf, _) =>
          match decompress nbt buf with
          | .error err => .error err
          | .ok root =>
            if root.dataVersion ≠ DATA_VERSION then .error (.unsupportedDataVersion root.dataVersion)
            else .ok root

def checkChunkExistence (self : RegionHandle) (pos : ChunkPosition) : Bool :=
  (self.header.locationForChunk pos).existsInFile

def saveHeader (self : RegionHandle) : RegionHandle :=
  { self with file := self.header.writeTo (self.file.seek 0) }

def writeBlock (file : File (BitVec 8)) (offset : Nat) (buf : List (BitVec 8)) : File (BitVec 8) :=
  let totalLen := buf.length + 4
  let file := (writeU32 (file.seek (offset * SECTOR_BYTES)) (BitVec.ofNat 32 buf.length)).writeAll 0 buf
  (List.replicate (SECTOR_BYTES - totalLen % SECTOR_BYTES) (0 : BitVec 8)).foldl
    (fun file byte => file.writeAll 0 [byte]) file

/-- `save_chunk` with the NBT data of the chunk; an error ends the worker that called it. -/
def saveRoot (self : RegionHandle) (pos : ChunkPosition) (root : ChunkRoot Level) :
    Option RegionHandle := do
  let location := self.header.locationForChunk pos.local
  let freed := if location.existsInFile then self.allocator.free location else some self.allocator
  let allocator ← freed
  let data ← nbt.toZlibWriter root
  let buf := 2 :: data
  let totalLen := buf.length + 4
  let sectors := (totalLen + SECTOR_BYTES - 1) / SECTOR_BYTES
  let (block, allocator) ← allocator.allocate sectors
  let file := writeBlock self.file block.offset buf
  pure (saveHeader ⟨file, self.header.setLocationForChunk pos.local block, allocator⟩)

end RegionHandle

def loadRegion (content : List (BitVec 8)) : Option (Except RegionError RegionHandle) :=
  let file : File (BitVec 8) := ⟨content, 0⟩
  match readHeader file with
  | .error err => some (.error err)
  | .ok header =>
    let numSectors := (content.length + SECTOR_BYTES - 1) / SECTOR_BYTES
    (SectorAllocator.new header numSectors).map fun allocator => .ok ⟨file, header, allocator⟩

/-- Overwrites the header of a file with some content, which is empty for a new file. -/
def createRegion (content : List (BitVec 8)) : Option RegionHandle :=
  let header := RegionHeader.default
  let file := header.writeTo ⟨content, 0⟩
  (SectorAllocator.new header 2).map fun allocator => ⟨file, header, allocator⟩

end FpgaCraft.Server
