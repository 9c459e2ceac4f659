import FpgaCraft.Server.ChunkEdits
import FpgaCraft.Server.Plugin

/-! The chunks of the server's world (`feather/common/src/world.rs`, `feather/base/src/chunk_lock.rs`)
and the calls of `game.rs` that change blocks. A panic is `none`. -/
namespace FpgaCraft.Server
open Library

@[ext] structure ChunkPosition where
  x : I32
  z : I32
deriving DecidableEq

abbrev CHUNK_WIDTH : Nat := 16

def chunkCoord (a : I32) : I32 where
  val := a.val / CHUNK_WIDTH
  lower := by
    have := a.lower
    simp only [CHUNK_WIDTH] at this ⊢
    omega
  upper := by
    have := a.upper
    simp only [CHUNK_WIDTH] at this ⊢
    omega

def BlockPosition.chunk (pos : BlockPosition) : ChunkPosition := ⟨chunkCoord pos.x, chunkCoord pos.z⟩

def I32.usize (a : I32) : BitVec 64 := BitVec.ofInt 64 a.val

def checkCoords (pos : BlockPosition) : Bool :=
  decide (0 ≤ pos.y.val ∧ pos.y.val < CHUNK_HEIGHT)

def chunkRelativePos (pos : BlockPosition) : Nat × Nat × Nat :=
  ((I32.usize pos.x &&& 0xf).toNat, (I32.usize pos.y).toNat, (I32.usize pos.z &&& 0xf).toNat)

/-- `Arc<ChunkLock>`: a chunk that cannot be locked for writing while it is unloaded. -/
structure ChunkHandle where
  loaded : Bool
  chunk : Chunk

def ChunkHandle.write (handle : ChunkHandle) : Option Chunk :=
  if handle.loaded then some handle.chunk else none

structure World where
  chunkMap : ChunkPosition → Option ChunkHandle
  cache : ChunkPosition → Option ChunkHandle
  loadingChunks : ChunkPosition → Bool
  canceledChunkLoads : ChunkPosition → Bool

namespace World

def new : World := ⟨fun _ => none, fun _ => none, fun _ => false, fun _ => false⟩

variable (table : VanillaIdTable) (traits : BlockTraits)

/-- Queues the given chunk to be loaded; a cached one is loaded immediately, which is returned. -/
def queueChunkLoad (self : World) (pos : ChunkPosition) : World × Bool :=
  match self.cache pos with
  | some handle =>
    ({ self with
        chunkMap := Function.update self.chunkMap pos (some { handle with loaded := true })
        cache := Function.update self.cache pos none }, true)
  | none => ({ self with loadingChunks := Function.update self.loadingChunks pos true }, false)

/-- What `load_chunks` does with a chunk that was loaded or generated, and whether it is kept. -/
def loadChunk (self : World) (pos : ChunkPosition) (chunk : Chunk) : World × Bool :=
  let loadingChunks := Function.update self.loadingChunks pos false
  if self.canceledChunkLoads pos then
    ({ self with
        loadingChunks := loadingChunks
        canceledChunkLoads := Function.update self.canceledChunkLoads pos false }, false)
  else
    ({ self with
        loadingChunks := loadingChunks
        chunkMap := Function.update self.chunkMap pos (some ⟨true, chunk⟩) }, true)

def unloadChunk (self : World) (pos : ChunkPosition) : World × Bool :=
  let canceledChunkLoads :=
    if self.loadingChunks pos then Function.update self.canceledChunkLoads pos true
    else self.canceledChunkLoads
  match self.chunkMap pos with
  | some handle =>
    ({ self with
        chunkMap := Function.update self.chunkMap pos none
        cache := Function.update self.cache pos (some { handle with loaded := false })
        canceledChunkLoads := canceledChunkLoads }, true)
  | none => ({ self with canceledChunkLoads := canceledChunkLoads }, false)

def purgeUnused (self : World) (inUse : ChunkPosition → Bool) : World :=
  { self with cache := fun pos => if inUse pos then self.cache pos else none }

def isChunkLoaded (self : World) (pos : ChunkPosition) : Bool := (self.chunkMap pos).isSome

def isChunkLoading (self : World) (pos : ChunkPosition) : Bool := self.loadingChunks pos

def blockAt (self : World) (pos : BlockPosition) : Option (Option BlockId) :=
  if checkCoords pos then
    let (x, y, z) := chunkRelativePos pos
    match self.chunkMap pos.chunk with
    | none => some none
    | some handle => handle.chunk.blockAt table x y z
  else some none

def chunkAtMut (self : World) (pos : ChunkPosition) : Option Chunk :=
  (self.chunkMap pos).bind ChunkHandle.write

def put (self : World) (pos : ChunkPosition) (chunk : Chunk) : World :=
  { self with
    chunkMap := Function.update self.chunkMap pos
      ((self.chunkMap pos).map fun handle => { handle with chunk := chunk }) }

/-- Returns `true` if the chunk could be locked; what its own setter returned is not looked at. -/
def setBlockAt (self : World) (pos : BlockPosition) (block : BlockId) : Option (World × Bool) :=
  if checkCoords pos then
    let (x, y, z) := chunkRelativePos pos
    match self.chunkAtMut pos.chunk with
    | none => some (self, false)
    | some chunk =>
      (chunk.setBlockAt table traits x y z block).map fun result =>
        (self.put pos.chunk result.1, true)
  else some (self, false)

def fillChunkSection (self : World) (chunkPos : ChunkPosition) (sectionY : Nat) (block : BlockId) :
    Option (World × Bool) :=
  match self.chunkAtMut chunkPos with
  | none => some (self, false)
  | some chunk =>
    (chunk.fillSection (sectionY + 1) block).map fun result =>
      (self.put chunkPos result.1, result.2)

end World

/-! ### Positions -/

theorem usize_and (a : I32) : (I32.usize a &&& 0xf).toNat = (a.val % 16).toNat := by
  rw [I32.usize, show (0xf : BitVec 64) = BitVec.ofNat 64 (2 ^ 4 - 1) from rfl, BitVec.toNat_and,
    BitVec.toNat_ofNat, Nat.mod_eq_of_lt (by decide), Nat.and_two_pow_sub_one_eq_mod,
    BitVec.toNat_ofInt]
  omega

theorem usize_toNat {a : I32} (h : 0 ≤ a.val) : (I32.usize a).toNat = a.val.toNat := by
  have := a.upper
  rw [I32.usize, BitVec.toNat_ofInt]
  omega

theorem chunkRelativePos_eq {pos : BlockPosition} (h : checkCoords pos = true) :
    chunkRelativePos pos = ((pos.x.val % 16).toNat, pos.y.val.toNat, (pos.z.val % 16).toNat) := by
  rw [checkCoords, decide_eq_true_eq] at h
  rw [chunkRelativePos, usize_and, usize_and, usize_toNat h.1]

theorem chunkRelativePos_lt {pos : BlockPosition} (h : checkCoords pos = true) :
    (chunkRelativePos pos).1 < 16 ∧ (chunkRelativePos pos).2.1 < 256 ∧
      (chunkRelativePos pos).2.2 < 16 := by
  rw [chunkRelativePos_eq h]
  rw [checkCoords, decide_eq_true_eq, CHUNK_HEIGHT] at h
  dsimp only
  omega

theorem eq_of_chunkRelativePos {p q : BlockPosition} (hp : checkCoords p = true)
    (hq : checkCoords q = true) (chunk : p.chunk = q.chunk)
    (relative : chunkRelativePos p = chunkRelativePos q) : p = q := by
  rw [chunkRelativePos_eq hp, chunkRelativePos_eq hq] at relative
  simp only [Prod.mk.injEq] at relative
  simp only [BlockPosition.chunk, ChunkPosition.mk.injEq, chunkCoord, Signed.mk.injEq,
    CHUNK_WIDTH] at chunk
  rw [checkCoords, decide_eq_true_eq] at hp hq
  apply BlockPosition.ext
  all_goals apply Signed.ext; omega

end FpgaCraft.Server
