import FpgaCraft.Hardware.Chunk
import FpgaCraft.Hardware.Vec3

/-! The hardware voxel traversal unit (`vtu.sv`) and its wiring to a chunk (`orchestrator.sv`). -/
namespace FpgaCraft.Hardware
open Library

inductive Axis where
  | none
  | x
  | y
  | z
deriving DecidableEq, Repr

inductive VtuState where
  | init
  | traversing
  | idle
deriving DecidableEq, Repr

def Vec3i.blockPos (p : Vec3i) : BlockPos := ⟨p.x.setWidth 6, p.y.setWidth 6, p.z.setWidth 6⟩

/-- The registers of a traversal that move from voxel to voxel. -/
structure Walk where
  rayPos : Vec3i
  rayTMax : Vec3
  lastStep : Axis
deriving DecidableEq

def Walk.advance (rayStep : Vec3i) (rayDDt : Vec3) (w : Walk) : Walk :=
  let stepX : Walk :=
    ⟨{ w.rayPos with x := w.rayPos.x + rayStep.x }, { w.rayTMax with x := fadd w.rayTMax.x rayDDt.x }, .x⟩
  let stepY : Walk :=
    ⟨{ w.rayPos with y := w.rayPos.y + rayStep.y }, { w.rayTMax with y := fadd w.rayTMax.y rayDDt.y }, .y⟩
  let stepZ : Walk :=
    ⟨{ w.rayPos with z := w.rayPos.z + rayStep.z }, { w.rayTMax with z := fadd w.rayTMax.z rayDDt.z }, .z⟩
  if w.rayTMax.x.slt w.rayTMax.y then
    if w.rayTMax.x.slt w.rayTMax.z then stepX else stepZ
  else
    if w.rayTMax.y.slt w.rayTMax.z then stepY else stepZ

def hitNormal (lastStep : Axis) (rayStep : Vec3i) : Vec3 :=
  match lastStep with
  | .none => 0
  | .x => ⟨-toFixed rayStep.x, 0, 0⟩
  | .y => ⟨0, -toFixed rayStep.y, 0⟩
  | .z => ⟨0, 0, -toFixed rayStep.z⟩

structure Vtu where
  hit : BlockType
  hitNorm : Vec3
  hitValid : Bool
  ramReadEnable : Bool
  state : VtuState
  initTimer : BitVec 5
  rayOri : Vec3
  rayDir : Vec3
  rayStep : Vec3i
  rayDDt : Vec3
  rayDist : Vec3
  walk : Walk
  numSteps : BitVec 6
  recipIn : Fixed
  normalizeRayDir : Normalize
  recip : RecipLte1
deriving DecidableEq

structure VtuIn where
  rst : Bool
  rayOrigin : Vec3
  rayDirection : Vec3
  ramOut : BlockType
  ramValid : Bool

namespace Vtu

def stepOf (d : Fixed) : Int12 := if 0 < d.toInt then 1 else -1

def distOf (step : Int12) (ori : Fixed) (pos : Int12) : Fixed :=
  if !step.msb then fsub FIXED_1 (fadd ori (toFixed pos)) else fsub ori (toFixed pos)

def absOf (x : Fixed) : Fixed := if x.msb then -x else x

def tMaxOf (dir dDt dist : Fixed) : Fixed := if dir ≠ 0 then fmul dDt dist else FIXED_MAX

def ramAddr (self : Vtu) : BlockPos := self.walk.rayPos.blockPos

def reset (i : VtuIn) (self : Vtu) : Vtu :=
  { self with
    hit := BLOCK_AIR
    hitNorm := 0
    hitValid := false
    ramReadEnable := false
    recipIn := 0
    state := .init
    initTimer := 0
    rayOri := i.rayOrigin
    rayStep := ⟨stepOf i.rayDirection.x, stepOf i.rayDirection.y, stepOf i.rayDirection.z⟩
    walk := ⟨vfloor i.rayOrigin, 0, .none⟩
    numSteps := 0
    rayDir := 0
    rayDDt := 0
    rayDist := 0 }

def initEdge (self : Vtu) : Vtu :=
  let normalized := self.normalizeRayDir.out
  let recipOut := self.recip.iter1
  { self with
    initTimer := self.initTimer + 1
    rayDir := if self.initTimer = 5 then normalized else self.rayDir
    recipIn :=
      if self.initTimer = 5 then normalized.x
      else if self.initTimer = 6 then self.rayDir.y
      else if self.initTimer = 7 then self.rayDir.z
      else self.recipIn
    rayDist :=
      if self.initTimer = 5 then
        ⟨distOf self.rayStep.x self.rayOri.x self.walk.rayPos.x,
         distOf self.rayStep.y self.rayOri.y self.walk.rayPos.y,
         distOf self.rayStep.z self.rayOri.z self.walk.rayPos.z⟩
      else self.rayDist
    rayDDt :=
      ⟨if self.initTimer = 9 then absOf recipOut else self.rayDDt.x,
       if self.initTimer = 10 then absOf recipOut else self.rayDDt.y,
       if self.initTimer = 11 then absOf recipOut else self.rayDDt.z⟩
    walk :=
      if self.initTimer = 12 then
        { self.walk with
          rayTMax := ⟨tMaxOf self.rayDir.x self.rayDDt.x self.rayDist.x,
            tMaxOf self.rayDir.y self.rayDDt.y self.rayDist.y,
            tMaxOf self.rayDir.z self.rayDDt.z self.rayDist.z⟩ }
      else self.walk
    state := if self.initTimer = 12 then .traversing else self.state
    ramReadEnable := if self.initTimer = 12 then true else self.ramReadEnable }

def tooFar (self : Vtu) : Vtu :=
  if 60 < self.numSteps.toNat then
    { self with
      hit := BLOCK_AIR
      hitNorm := 0
      hitValid := true
      ramReadEnable := false
      state := .idle }
  else self

def traversingEdge (ramValid : Bool) (ramOut : BlockType) (self : Vtu) : Vtu :=
  if ramValid then
    if ramOut ≠ BLOCK_AIR then
      { self.tooFar with
        hit := ramOut
        hitNorm := hitNormal self.walk.lastStep self.rayStep
        hitValid := true
        ramReadEnable := false
        state := .idle }
    else
      { self.tooFar with
        walk := self.walk.advance self.rayStep self.rayDDt
        numSteps := self.numSteps + 1 }
  else self.tooFar

def control (i : VtuIn) (self : Vtu) : Vtu :=
  if i.rst then self.reset i
  else match self.state with
    | .init => self.initEdge
    | .traversing => self.traversingEdge i.ramValid i.ramOut
    | .idle => self

theorem control_reset {i : VtuIn} (hrst : i.rst = true) (self : Vtu) :
    self.control i = self.reset i := if_pos hrst

theorem control_init {i : VtuIn} {self : Vtu} (hrst : i.rst = false) (h : self.state = .init) :
    self.control i = self.initEdge := by
  simp only [control, hrst, h, Bool.false_eq_true, if_false]

theorem control_traversing {i : VtuIn} {self : Vtu} (hrst : i.rst = false)
    (h : self.state = .traversing) : self.control i = self.traversingEdge i.ramValid i.ramOut := by
  simp only [control, hrst, h, Bool.false_eq_true, if_false]

theorem control_idle {i : VtuIn} {self : Vtu} (hrst : i.rst = false) (h : self.state = .idle) :
    self.control i = self := by
  simp only [control, hrst, h, Bool.false_eq_true, if_false]

def risingClkEdge (i : VtuIn) (self : Vtu) : Vtu :=
  { self.control i with
    normalizeRayDir := self.normalizeRayDir.risingClkEdge i.rayDirection
    recip := self.recip.risingClkEdge self.recipIn }

end Vtu

structure Caster where
  vtu : Vtu
  chunk : Chunk
deriving DecidableEq

/-- The reset of the chunk is the global one; the unit has one of its own besides. -/
structure CasterIn where
  rst : Bool
  vtuRst : Bool
  rayOrigin : Vec3
  rayDirection : Vec3

namespace Caster

def powerUp : Caster where
  vtu := ⟨0, 0, false, false, .init, 0, 0, 0, ⟨0, 0, 0⟩, 0, 0, ⟨⟨0, 0, 0⟩, 0, .none⟩, 0, 0,
    ⟨0, 0, 0, 0, 0, ⟨0, 0, 0, 0, 0, 0⟩, 0⟩, ⟨0, 0, 0, 0, 0⟩⟩
  chunk := ⟨0, 0, 0, ⟨0, 0⟩, 0⟩

def chunkIn (rst : Bool) (self : Caster) : ChunkIn := ⟨rst, self.vtu.ramAddr, self.vtu.ramReadEnable⟩

def ramValid (self : Caster) : Bool := self.chunk.valid (self.chunkIn false)

def vtuIn (i : CasterIn) (self : Caster) : VtuIn :=
  ⟨i.rst || i.vtuRst, i.rayOrigin, i.rayDirection, self.chunk.out, self.ramValid⟩

def risingClkEdge (rom : Rom) (i : CasterIn) (self : Caster) : Caster where
  vtu := self.vtu.risingClkEdge (self.vtuIn i)
  chunk := self.chunk.risingClkEdge rom (self.chunkIn i.rst)

/-- The voxel test of a cycle: the position and the block the unit takes for it. -/
def tested (i : CasterIn) (self : Caster) : Option (Vec3i × BlockType) :=
  if (i.rst || i.vtuRst) = false ∧ self.vtu.state = .traversing ∧ self.ramValid = true then
    some (self.vtu.walk.rayPos, self.chunk.out)
  else none

end Caster
end FpgaCraft.Hardware
