import FpgaCraft.Hardware.Fixed

/-! Vectors of the hardware and their pipelined normalisation (`vec3.sv`, `vec3i.sv`). -/
namespace FpgaCraft.Hardware
open Library

@[ext] structure Vec3 where
  x : Fixed
  y : Fixed
  z : Fixed
deriving DecidableEq, Repr

abbrev Int12 := BitVec (B - D)

@[ext] structure Vec3i where
  x : Int12
  y : Int12
  z : Int12
deriving DecidableEq, Repr

instance : Zero Vec3 := ⟨⟨0, 0, 0⟩⟩

def vadd (a b : Vec3) : Vec3 := ⟨fadd a.x b.x, fadd a.y b.y, fadd a.z b.z⟩
def vsub (a b : Vec3) : Vec3 := ⟨fsub a.x b.x, fsub a.y b.y, fsub a.z b.z⟩
def vmul (v : Vec3) (s : Fixed) : Vec3 := ⟨fmul v.x s, fmul v.y s, fmul v.z s⟩

def vdot (a b : Vec3) : Fixed := fadd (fmul a.x b.x) (fadd (fmul a.y b.y) (fmul a.z b.z))

def vneg (v : Vec3) : Vec3 := ⟨-v.x, -v.y, -v.z⟩
def vdiv2 (v : Vec3) : Vec3 := ⟨v.x.sshiftRight 1, v.y.sshiftRight 1, v.z.sshiftRight 1⟩

def vfloor (v : Vec3) : Vec3i :=
  ⟨(v.x >>> D).setWidth (B - D), (v.y >>> D).setWidth (B - D), (v.z >>> D).setWidth (B - D)⟩

def toFixed (i : Int12) : Fixed := i ++ (0 : BitVec D)

structure Normalize where
  inPipe0 : Vec3
  inPipe1 : Vec3
  inPipe2 : Vec3
  inPipe3 : Vec3
  inPipe4 : Vec3
  invSqrt : InvSqrt
  out : Vec3
deriving DecidableEq

def Normalize.risingClkEdge (i : Vec3) (self : Normalize) : Normalize where
  inPipe0 := i
  invSqrt := self.invSqrt.risingClkEdge (vdot self.inPipe0 self.inPipe0)
  inPipe1 := self.inPipe0
  inPipe2 := self.inPipe1
  inPipe3 := self.inPipe2
  inPipe4 := self.inPipe3
  out := vmul self.inPipe4 self.invSqrt.iter11

def normalize (v : Vec3) : Vec3 := vmul v (invSqrt (vdot v v))

theorem Normalize.latency (inputs : Nat → Vec3) (s : Normalize) (n : Nat) :
    (trace risingClkEdge inputs s (n + 6)).out = normalize (inputs n) := rfl

end FpgaCraft.Hardware
