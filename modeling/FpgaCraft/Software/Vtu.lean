import FpgaCraft.Software.L2

/-! The software voxel traversal unit (`vtu.rs`): the instant `mock_cast` and the clocked
`rising_clk_edge`, over the ray setup and the voxel step that the source writes in both. -/
namespace FpgaCraft.Software
open Library

inductive Axis where
  | none
  | x
  | y
  | z
deriving DecidableEq, Repr

/-- What both casts compute from the input ray before the first voxel is tested. -/
structure RaySetup where
  rayDirection : Vec3
  rayPosition : Vec3i
  rayStep : Vec3i
  rayTDelta : Vec3
  rayDist : Vec3
  rayTMax : Vec3
deriving DecidableEq, Repr

namespace RaySetup

def stepOf (d : Fixed) : I16 :=
  if 0 < d.val then ⟨1, by decide, by decide⟩ else ⟨-1, by decide, by decide⟩

def distOf (step : I16) (o : Fixed) (p : I16) : Option Fixed :=
  if 0 < step.val then do
    Fixed.add (← Fixed.sub Fixed.one o) (← Fixed.ofI16 p)
  else do
    Fixed.sub o (← Fixed.ofI16 p)

def tMaxOf (d tDelta dist : Fixed) : Option Fixed :=
  if d.val ≠ 0 then Fixed.mul tDelta dist else some Fixed.MAX

end RaySetup

open RaySetup in
def raySetup (origin direction : Vec3) : Option RaySetup := do
  let d ← direction.normalized
  let p := origin.floor
  let step : Vec3i := ⟨stepOf d.x, stepOf d.y, stepOf d.z⟩
  -- Ray direction is normalized, so every component is <= 1
  let tDelta : Vec3 :=
    ⟨← Fixed.abs (← Fixed.recipLte1 d.x), ← Fixed.abs (← Fixed.recipLte1 d.y),
     ← Fixed.abs (← Fixed.recipLte1 d.z)⟩
  let dist : Vec3 :=
    ⟨← distOf step.x origin.x p.x, ← distOf step.y origin.y p.y, ← distOf step.z origin.z p.z⟩
  let tMax : Vec3 :=
    ⟨← tMaxOf d.x tDelta.x dist.x, ← tMaxOf d.y tDelta.y dist.y, ← tMaxOf d.z tDelta.z dist.z⟩
  pure ⟨d, p, step, tDelta, dist, tMax⟩

structure Walk where
  position : Vec3i
  tMax : Vec3
deriving DecidableEq, Repr

namespace Walk

def axis (w : Walk) : Axis :=
  if w.tMax.x.val < w.tMax.y.val then
    if w.tMax.x.val < w.tMax.z.val then .x else .z
  else
    if w.tMax.y.val < w.tMax.z.val then .y else .z

def advance (profile : Profile) (step : Vec3i) (tDelta : Vec3) (w : Walk) : Option (Walk × Axis) :=
  match w.axis with
  | .x => do
    let x ← profile.i16 (w.position.x.val + step.x.val)
    let t ← Fixed.add w.tMax.x tDelta.x
    pure (⟨{ w.position with x := x }, { w.tMax with x := t }⟩, .x)
  | .y => do
    let y ← profile.i16 (w.position.y.val + step.y.val)
    let t ← Fixed.add w.tMax.y tDelta.y
    pure (⟨{ w.position with y := y }, { w.tMax with y := t }⟩, .y)
  | _ => do
    let z ← profile.i16 (w.position.z.val + step.z.val)
    let t ← Fixed.add w.tMax.z tDelta.z
    pure (⟨{ w.position with z := z }, { w.tMax with z := t }⟩, .z)

end Walk

/-- Surface normal of a voxel that was entered by a step along `axis`. -/
def hitNormal (profile : Profile) (axis : Axis) (step : Vec3i) : Option Vec3 :=
  match axis with
  | .none => some 0
  | .x => do Vec3.RIGHT.mul (← Fixed.ofI16 (← profile.i16 (-step.x.val)))
  | .y => do Vec3.UP.mul (← Fixed.ofI16 (← profile.i16 (-step.y.val)))
  | .z => do Vec3.FORWARD.mul (← Fixed.ofI16 (← profile.i16 (-step.z.val)))

structure VoxelTraversalUnit where
  currentPixel : Nat
  rayOriginIn : Vec3
  rayDirectionIn : Vec3
  rayInitIn : Bool
  voxelOut : Block
  normalOut : Vec3
  validOut : Bool
  rayDirection : Vec3
  rayPosition : Vec3i
  rayStep : Vec3i
  rayTDelta : Vec3
  rayDist : Vec3
  rayTMax : Vec3
  numSteps : Nat
  lastStep : Axis
deriving DecidableEq

structure VtuIn where
  rayOriginIn : Vec3
  rayDirectionIn : Vec3
  rayInitIn : Bool

/-- How `mock_cast` leaves its loop; `normalOut` is written by a hit only. -/
structure MockExit where
  voxelOut : Block
  normalOut : Option Vec3
  numSteps : Nat
deriving DecidableEq

/-- The loop of `mock_cast`. Every round but the last counts a step, so that starting
with 221 rounds and no steps the rounds run out exactly when `num_steps > 220`. -/
def mockLoop (ram : MockCache) (profile : Profile) (setup : RaySetup) :
    Nat → Walk → Axis → Nat → Option MockExit
  | 0, _, _, numSteps => some ⟨.air, none, numSteps⟩
  | rounds + 1, w, lastStep, numSteps =>
    if 220 < numSteps then some ⟨.air, none, numSteps⟩
    else do
      match ← ram.query profile w.position with
      | none => pure ⟨.air, none, numSteps⟩
      | some block =>
        if block ≠ .air then
          pure ⟨block, some (← hitNormal profile lastStep setup.rayStep), numSteps⟩
        else
          let (next, axis) ← w.advance profile setup.rayStep setup.rayTDelta
          mockLoop ram profile setup rounds next axis (numSteps + 1)

namespace VoxelTraversalUnit

def init : VoxelTraversalUnit where
  currentPixel := 0
  rayOriginIn := 0
  rayDirectionIn := 0
  rayInitIn := false
  voxelOut := .air
  normalOut := 0
  validOut := false
  rayDirection := 0
  rayPosition := 0
  rayStep := 0
  rayTDelta := 0
  rayDist := 0
  rayTMax := 0
  numSteps := 0
  lastStep := .none

def assign (self : VoxelTraversalUnit) (pixel : Nat) (inputs : VtuIn) : VoxelTraversalUnit :=
  { self with
    currentPixel := pixel
    rayOriginIn := inputs.rayOriginIn
    rayDirectionIn := inputs.rayDirectionIn
    rayInitIn := inputs.rayInitIn }

def mockExit (ram : MockCache) (profile : Profile) (origin direction : Vec3) : Option MockExit := do
  let setup ← raySetup origin direction
  mockLoop ram profile setup 221 ⟨setup.rayPosition, setup.rayTMax⟩ .none 0

def mockCast (ram : MockCache) (profile : Profile) (self : VoxelTraversalUnit) :
    Option VoxelTraversalUnit := do
  let exit ← mockExit ram profile self.rayOriginIn self.rayDirectionIn
  pure { self with
    voxelOut := exit.voxelOut
    validOut := true
    normalOut := exit.normalOut.getD self.normalOut }

end VoxelTraversalUnit

/-- What a unit does to the inputs of its port: it holds them, clears
`read_enable_in[index]`, or sets it together with `addr_in[index]`. -/
inductive PortWrite where
  | hold
  | disable
  | request (addr : Vec3i)
deriving DecidableEq

namespace PortWrite

def readEnable : PortWrite → Bool → Bool
  | .hold, old => old
  | .disable, _ => false
  | .request _, _ => true

def addr : PortWrite → Vec3i → Vec3i
  | .request addr, _ => addr
  | _, old => old

end PortWrite

def L2Cache.write (self : L2Cache P S) (i : Fin P) (w : PortWrite) : L2Cache P S :=
  { self with
    readEnableIn := Function.update self.readEnableIn i (w.readEnable (self.readEnableIn i))
    addrIn := Function.update self.addrIn i (w.addr (self.addrIn i)) }

namespace VoxelTraversalUnit

def edge (profile : Profile) (reset : Bool) (valid : Bool) (voxel : Block)
    (self : VoxelTraversalUnit) : Option (VoxelTraversalUnit × PortWrite) :=
  if reset then
    some ({ self with
      voxelOut := .air
      validOut := false
      normalOut := Vec3.FORWARD
      rayDirection := Vec3.FORWARD
      rayPosition := 0
      rayStep := 0
      rayTDelta := 0
      rayDist := 0
      rayTMax := 0
      numSteps := 0
      lastStep := .none }, .disable)
  else if self.rayInitIn then do
    let setup ← raySetup self.rayOriginIn self.rayDirectionIn
    pure ({ self with
      rayDirection := setup.rayDirection
      rayPosition := setup.rayPosition
      rayStep := setup.rayStep
      rayTDelta := setup.rayTDelta
      rayDist := setup.rayDist
      rayTMax := setup.rayTMax
      numSteps := 0
      validOut := false }, .request setup.rayPosition)
  else if self.validOut then some (self, .hold)
  else if 110 < self.numSteps then
    some ({ self with voxelOut := .air, validOut := true }, .disable)
  else if !valid then some (self, .hold)
  else if voxel ≠ .air then do
    let normal ← hitNormal profile self.lastStep self.rayStep
    pure ({ self with voxelOut := voxel, validOut := true, normalOut := normal }, .disable)
  else do
    let (next, axis) ←
      Walk.advance profile self.rayStep self.rayTDelta ⟨self.rayPosition, self.rayTMax⟩
    pure ({ self with
      rayPosition := next.position
      rayTMax := next.tMax
      lastStep := axis
      numSteps := self.numSteps + 1 }, .request next.position)

def risingClkEdge (profile : Profile) (reset : Bool) (i : Fin P) (self : VoxelTraversalUnit)
    (l2 : L2Cache P S) : Option (VoxelTraversalUnit × L2Cache P S) := do
  let (unit, w) ← self.edge profile reset (l2.validOut i) (l2.voxelOut i)
  pure (unit, l2.write i w)

end VoxelTraversalUnit

structure Cluster (P S : Nat) where
  vtu : Fin P → VoxelTraversalUnit
  memory : Memory P S

namespace Cluster
variable {P S : Nat}

/-- `for vtu in &mut self.vtu { vtu.rising_clk_edge() }` over the listed units. -/
def clockVtus (profile : Profile) (reset : Bool) :
    List (Fin P) → (Fin P → VoxelTraversalUnit) → L2Cache P S →
      Option ((Fin P → VoxelTraversalUnit) × L2Cache P S)
  | [], vtu, l2 => some (vtu, l2)
  | i :: rest, vtu, l2 => do
    let (unit, l2) ← (vtu i).risingClkEdge profile reset i l2
    clockVtus profile reset rest (Function.update vtu i unit) l2

variable [NeZero S]

def init : Cluster P S := ⟨fun _ => VoxelTraversalUnit.init, Memory.init⟩

/-- The clock edge of everything the orchestrator owns: L2, then L3, then every unit. -/
def risingClkEdge (ram : MockCache) (profile : Profile) (reset : Bool) (self : Cluster P S) :
    Option (Cluster P S) := do
  let memory ← self.memory.risingClkEdge ram profile reset
  let (vtu, l2) ← clockVtus profile reset (List.finRange P) self.vtu memory.l2
  pure ⟨vtu, { memory with l2 := l2 }⟩

end Cluster
end FpgaCraft.Software
