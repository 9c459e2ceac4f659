import FpgaCraft.Software.Vec3

/-! The voxels of the software model (`block.rs`, `cache/mock.rs`). -/
namespace FpgaCraft.Software

inductive Block where
  | air
  | stone
  | grass
  | dirt
  | cobblestone
  | oakPlanks
  | sprucePlanks
  | birchPlanks
  | water
  | sand
  | gravel
  | oakLog
  | spruceLog
  | birchLog
  | oakLeaves
  | spruceLeaves
  | birchLeaves
  | glass
deriving DecidableEq, Repr

/-- The discriminant, which is the byte stored in `chunk.bin`. -/
def Block.toByte (block : Block) : Nat := block.ctorIdx

abbrev SIZE : Nat := 64

structure MockCache where
  chunk : Fin (SIZE * SIZE * SIZE) → Block

namespace MockCache

def HALF_CHUNK_SIZE : Int := 32

/-- The outer `none` is the overflow panic of the recentring addition, the inner one an
index outside the chunk. The coordinates are converted one after the other: a negative
one returns before the next is recentred. -/
def query (ram : MockCache) (profile : Profile) (idx : Vec3i) : Option (Option Block) := do
  let x ← profile.i16 (idx.x.val + HALF_CHUNK_SIZE)
  if x.val < 0 then pure none else
  let y ← profile.i16 (idx.y.val + HALF_CHUNK_SIZE)
  if y.val < 0 then pure none else
  let z ← profile.i16 (idx.z.val + HALF_CHUNK_SIZE)
  if z.val < 0 then pure none else
  pure <| if h : x.val.toNat < SIZE ∧ y.val.toNat < SIZE ∧ z.val.toNat < SIZE then
      some (ram.chunk ⟨SIZE * (SIZE * z.val.toNat + y.val.toNat) + x.val.toNat, by
        simp only [SIZE] at h ⊢
        omega⟩)
    else none

def InBounds (p : Vec3i) : Prop :=
  (-32 ≤ p.x.val ∧ p.x.val ≤ 31) ∧ (-32 ≤ p.y.val ∧ p.y.val ≤ 31) ∧ (-32 ≤ p.z.val ∧ p.z.val ≤ 31)

instance (p : Vec3i) : Decidable (InBounds p) := by unfold InBounds; infer_instance

def cellIndex (p : Vec3i) (h : InBounds p) : Fin (SIZE * SIZE * SIZE) :=
  ⟨SIZE * (SIZE * (p.z.val + 32).toNat + (p.y.val + 32).toNat) + (p.x.val + 32).toNat, by
    obtain ⟨hx, hy, hz⟩ := h
    simp only [SIZE]
    omega⟩

theorem query_of_range (ram : MockCache) (profile : Profile) (p : Vec3i)
    (hx : p.x.val < 32736) (hy : p.y.val < 32736) (hz : p.z.val < 32736) :
    ram.query profile p =
      some (if h : InBounds p then some (ram.chunk (cellIndex p h)) else none) := by
  have rx := p.x.range
  have ry := p.y.range
  have rz := p.z.range
  obtain ⟨x, ex, vx⟩ := profile.i16_of_range (v := p.x.val + 32) (by omega) (by omega)
  obtain ⟨y, ey, vy⟩ := profile.i16_of_range (v := p.y.val + 32) (by omega) (by omega)
  obtain ⟨z, ez, vz⟩ := profile.i16_of_range (v := p.z.val + 32) (by omega) (by omega)
  simp only [query, HALF_CHUNK_SIZE, ex, ey, ez, Option.bind_eq_bind, Option.bind_some,
    Option.pure_def, vx, vy, vz]
  by_cases h : InBounds p
  · obtain ⟨bx, bY, bz⟩ := id h
    rw [if_neg (by omega), if_neg (by omega), if_neg (by omega), dif_pos h,
      dif_pos (by simp only [SIZE]; omega)]
    rfl
  · have hout : ¬((p.x.val + 32).toNat < SIZE ∧ (p.y.val + 32).toNat < SIZE ∧
        (p.z.val + 32).toNat < SIZE) ∨ p.x.val + 32 < 0 ∨ p.y.val + 32 < 0 ∨ p.z.val + 32 < 0 := by
      simp only [InBounds, SIZE] at h ⊢
      omega
    rw [dif_neg h]
    by_cases nx : p.x.val + 32 < 0
    · rw [if_pos nx]
    · by_cases ny : p.y.val + 32 < 0
      · rw [if_neg nx, if_pos ny]
      · by_cases nz : p.z.val + 32 < 0
        · rw [if_neg nx, if_neg ny, if_pos nz]
        · rw [if_neg nx, if_neg ny, if_neg nz, dif_neg (by tauto)]

end MockCache
end FpgaCraft.Software
