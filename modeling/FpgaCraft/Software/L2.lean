import FpgaCraft.Library.Lines
import FpgaCraft.Library.Machine
import FpgaCraft.Software.World

/-! The two cache levels of the software model (`cache/l2.rs`, `cache/l3.rs`) and the
clock edge they share: L2 first, then L3. -/
namespace FpgaCraft.Software
open Library

structure L3Cache where
  addrIn : Vec3i
  readEnableIn : Bool
  voxelOut : Block
  validOut : Bool
deriving DecidableEq

structure L2Cache (P S : Nat) where
  addrIn : Fin P → Vec3i
  readEnableIn : Fin P → Bool
  voxelOut : Fin P → Block
  validOut : Fin P → Bool
  entries : Lines Vec3i Block S
  nextReplacement : Fin S

def MockCache.block (ram : MockCache) (profile : Profile) (idx : Vec3i) : Option Block := do
  let voxel ← ram.query profile idx
  pure (voxel.getD .air)

def L3Cache.init : L3Cache := ⟨0, false, .air, false⟩

def L3Cache.risingClkEdge (ram : MockCache) (profile : Profile) (reset : Bool) (self : L3Cache) :
    Option L3Cache :=
  if reset then some { self with voxelOut := .air, validOut := false }
  else if !self.readEnableIn then some { self with validOut := false }
  else do
    let voxel ← ram.block profile self.addrIn
    pure { self with voxelOut := voxel, validOut := true }

namespace L2Cache
variable {P S : Nat} [NeZero S]

def init : L2Cache P S where
  addrIn := fun _ => 0
  readEnableIn := fun _ => false
  voxelOut := fun _ => .air
  validOut := fun _ => false
  entries := fun _ => none
  nextReplacement := 0

def fill (self : L2Cache P S) (l3 : L3Cache) : Option (L2Cache P S) :=
  if l3.validOut then
    -- The duplicate-key assertion
    if (Lines.lookup self.entries l3.addrIn).isSome then none
    else some { self with
      entries := Function.update self.entries self.nextReplacement (some ⟨l3.addrIn, l3.voxelOut⟩)
      nextReplacement := Fin.ofNat S (self.nextReplacement.val + 1) }
  else some self

def respond (self : L2Cache P S) : L2Cache P S :=
  let hit := fun p => if self.readEnableIn p then Lines.lookup self.entries (self.addrIn p) else none
  { self with
    validOut := fun p => (hit p).isSome
    voxelOut := fun p => (hit p).getD (self.voxelOut p) }

def missing (self : L2Cache P S) : Option (Fin P) :=
  (List.finRange P).find? fun p => self.readEnableIn p && !self.validOut p

/-- Cache-miss static priority arbitration: port 0 has priority, then port 1, etc. -/
def arbitrate (self : L2Cache P S) (l3 : L3Cache) : L3Cache :=
  match self.missing with
  | some p => { l3 with addrIn := self.addrIn p, readEnableIn := true }
  | none => { l3 with readEnableIn := false }

def risingClkEdge (reset : Bool) (self : L2Cache P S) (l3 : L3Cache) :
    Option (L2Cache P S × L3Cache) :=
  if reset then
    some ({ self with
      voxelOut := fun _ => .air
      validOut := fun _ => false
      entries := fun _ => none
      nextReplacement := 0 }, l3)
  else do
    let filled ← self.fill l3
    pure (filled.respond, filled.respond.arbitrate l3)

end L2Cache

structure Memory (P S : Nat) where
  l2 : L2Cache P S
  l3 : L3Cache

structure MemoryIn (P : Nat) where
  reset : Bool
  addrIn : Fin P → Vec3i
  readEnableIn : Fin P → Bool

namespace Memory
variable {P S : Nat} [NeZero S]

def init : Memory P S := ⟨L2Cache.init, L3Cache.init⟩

def risingClkEdge (ram : MockCache) (profile : Profile) (reset : Bool) (self : Memory P S) :
    Option (Memory P S) := do
  let (l2, l3) ← self.l2.risingClkEdge reset self.l3
  let l3 ← l3.risingClkEdge ram profile reset
  pure ⟨l2, l3⟩

def drive (self : Memory P S) (i : MemoryIn P) : Memory P S :=
  { self with l2 := { self.l2 with addrIn := i.addrIn, readEnableIn := i.readEnableIn } }

def tick (ram : MockCache) (profile : Profile) (i : MemoryIn P) (self : Memory P S) :
    Option (Memory P S) :=
  (self.drive i).risingClkEdge ram profile i.reset

end Memory
end FpgaCraft.Software
