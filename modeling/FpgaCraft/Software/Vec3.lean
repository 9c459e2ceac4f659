import FpgaCraft.Software.Fixed

/-! Fixed-point and integer vectors (`math/vec3.rs`, `math/vec3i.rs`). -/
namespace FpgaCraft.Software

@[ext] structure Vec3 where
  x : Fixed
  y : Fixed
  z : Fixed
deriving DecidableEq, Repr

@[ext] structure Vec3i where
  x : I16
  y : I16
  z : I16
deriving DecidableEq, Repr

instance : Zero Vec3i := ⟨⟨0, 0, 0⟩⟩

namespace Vec3

instance : Zero Vec3 := ⟨⟨0, 0, 0⟩⟩

def UP : Vec3 := ⟨0, Fixed.one, 0⟩
def RIGHT : Vec3 := ⟨Fixed.one, 0, 0⟩
def FORWARD : Vec3 := ⟨0, 0, Fixed.one⟩

def add (a b : Vec3) : Option Vec3 := do
  pure ⟨← Fixed.add a.x b.x, ← Fixed.add a.y b.y, ← Fixed.add a.z b.z⟩

def sub (a b : Vec3) : Option Vec3 := do
  pure ⟨← Fixed.sub a.x b.x, ← Fixed.sub a.y b.y, ← Fixed.sub a.z b.z⟩

def mul (a : Vec3) (s : Fixed) : Option Vec3 := do
  pure ⟨← Fixed.mul a.x s, ← Fixed.mul a.y s, ← Fixed.mul a.z s⟩

def neg (a : Vec3) : Option Vec3 := do
  pure ⟨← Fixed.neg a.x, ← Fixed.neg a.y, ← Fixed.neg a.z⟩

def dot (a b : Vec3) : Option Fixed := do
  let sum ← Fixed.add (← Fixed.mul a.x b.x) (← Fixed.mul a.y b.y)
  Fixed.add sum (← Fixed.mul a.z b.z)

def magnitudeSquared (self : Vec3) : Option Fixed := do
  let sum ← Fixed.add (← Fixed.mul self.x self.x) (← Fixed.mul self.y self.y)
  Fixed.add sum (← Fixed.mul self.z self.z)

def normalized (self : Vec3) : Option Vec3 := do
  mul self (← Fixed.invSqrt (← magnitudeSquared self))

def cross (a b : Vec3) : Option Vec3 := do
  pure
    ⟨← Fixed.sub (← Fixed.mul a.y b.z) (← Fixed.mul a.z b.y),
     ← Fixed.sub (← Fixed.mul a.z b.x) (← Fixed.mul a.x b.z),
     ← Fixed.sub (← Fixed.mul a.x b.y) (← Fixed.mul a.y b.x)⟩

def floor (self : Vec3) : Vec3i := ⟨self.x.floor, self.y.floor, self.z.floor⟩

@[simp] theorem mul_zero (a : Vec3) : mul a 0 = some 0 := by
  simp only [mul, Fixed.mul_zero]
  rfl

@[simp] theorem add_zero (a : Vec3) : add a 0 = some a := by
  change (do pure (⟨← Fixed.add a.x 0, ← Fixed.add a.y 0, ← Fixed.add a.z 0⟩ : Vec3)) = some a
  simp only [Fixed.add_zero]
  rfl

end Vec3
end FpgaCraft.Software
