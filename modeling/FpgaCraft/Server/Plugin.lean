import FpgaCraft.Library.Cells
import FpgaCraft.Server.Blocks

/-! The plugin's view of the world (`quill/api/src/game.rs`, `plugin-host/src/host_calls/block.rs`)
and `save_chunk_local` (`plugin/src/lib.rs`). A panic, or a trap of a host call, is `none`. -/
namespace FpgaCraft.Server
open Library

abbrev I32 := Signed 32

@[ext] structure BlockPosition where
  x : I32
  y : I32
  z : I32
deriving DecidableEq

/-- The positions the protocol can encode; the others have no `ValidBlockPosition`. -/
def BlockPosition.valid (pos : BlockPosition) : Bool :=
  decide (-33554432 ≤ pos.x.val ∧ pos.x.val ≤ 33554431) &&
    decide (-2048 ≤ pos.y.val ∧ pos.y.val ≤ 2047) &&
    decide (-33554432 ≤ pos.z.val ∧ pos.z.val ≤ 33554431)

structure BlockGetResult where
  bits : BitVec 32

namespace BlockGetResult

def new (blockId : Option (BitVec 16)) : BlockGetResult :=
  let tag := (BitVec.ofBool blockId.isSome).setWidth 32
  ⟨tag <<< 16 ||| (blockId.getD 0).setWidth 32⟩

def get (result : BlockGetResult) : Option (BitVec 16) :=
  if result.bits >>> 16 = 0 then none else some (result.bits.setWidth 16)

theorem get_new (blockId : Option (BitVec 16)) : (new blockId).get = blockId := by
  cases blockId with
  | none => decide
  | some id =>
    have tagged : (1#32 <<< 16 ||| id.setWidth 32) >>> 16 ≠ 0 := fun h => by
      have bit := congrArg (BitVec.getLsbD · 0) h
      simp at bit
    have kept : (1#32 <<< 16 ||| id.setWidth 32).setWidth 16 = id := by
      ext k hk
      simp
    change (if (1#32 <<< 16 ||| id.setWidth 32) >>> 16 = 0 then none
      else some ((1#32 <<< 16 ||| id.setWidth 32).setWidth 16)) = some id
    rw [if_neg tagged, kept]

end BlockGetResult

inductive BlockAccessError where
  | chunkNotLoaded
  | yOutOfBounds
deriving DecidableEq

abbrev CHUNK_HEIGHT : Nat := 256

/-- The server as the plugin sees it: its blocks, where chunks are loaded, and the position
that a query for players gives first. -/
structure Game where
  vanillaIds : VanillaIdTable
  blockAt : BlockPosition → Option BlockId
  firstPlayer : Option BlockPosition

namespace Game

def blockGet (game : Game) (pos : BlockPosition) : Option BlockGetResult :=
  if pos.valid then
    match game.blockAt pos with
    | none => some (.new none)
    | some block => (block.vanillaId game.vanillaIds).map fun id => .new (some id)
  else none

def block (game : Game) (pos : BlockPosition) : Option (Except BlockAccessError BlockState) :=
  if pos.y.val < 0 ∨ (CHUNK_HEIGHT : Int) ≤ pos.y.val then some (.error .yOutOfBounds)
  else (game.blockGet pos).bind fun result =>
    match result.get with
    | none => some (.error .chunkNotLoaded)
    -- "host gave invalid block ID"
    | some id => (BlockState.fromId id).map .ok

end Game

def addI32 : Software.Profile → Int → I32 → Option I32
  | .debug, a, b => Signed.new (a + b.val)
  | .release, a, b => some (Signed.wrap (a + b.val))

def recenter (profile : Software.Profile) (pos : BlockPosition) (i : Nat) :
    Option BlockPosition := do
  let x ← addI32 profile (offset i).x pos.x
  let y ← addI32 profile (offset i).y pos.y
  let z ← addI32 profile (offset i).z pos.z
  pure ⟨x, y, z⟩

def savedBlock (state : BlockState) : Block :=
  .ofKind ((BlockKind.fromId (state.id.setWidth 32)).getD .air)

def saveCell (profile : Software.Profile) (game : Game) (pos : BlockPosition)
    (i : Fin (CHUNK_SIZE * CHUNK_SIZE * CHUNK_SIZE)) (block : Block) : Option Block := do
  let p ← recenter profile pos i
  match ← game.block p with
  | .ok state => pure (savedBlock state)
  | .error _ => pure block

structure FpgaPlugin where
  chunkData : ChunkData
  chunkCenter : Option BlockPosition

namespace FpgaPlugin

def enable : FpgaPlugin := ⟨fun _ => .air, none⟩

/-- The plugin afterwards, and what it writes to `chunk.bin`. -/
def saveChunkLocal (profile : Software.Profile) (game : Game) (self : FpgaPlugin) :
    Option (FpgaPlugin × Option ChunkData) :=
  match game.firstPlayer with
  | none => some (self, none)
  | some pos =>
    if self.chunkCenter = some pos then some (self, none)
    else do
      let data ← fill (saveCell profile game pos) (List.finRange _) self.chunkData
      pure (⟨data, some pos⟩, some data)

end FpgaPlugin
end FpgaCraft.Server
