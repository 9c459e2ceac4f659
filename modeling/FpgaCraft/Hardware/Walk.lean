import FpgaCraft.Hardware.RayInit

/-! ## The walk of a traversal unit through its chunk

The unit presents a new address on the very cycle in which the old one is answered, and a
coordinate of the new address differs from the old one, so nothing is valid until the new
address has come through the pipeline. -/
namespace FpgaCraft.Hardware
open Library

variable {rom : Rom}

namespace Chunk

structure Delivering (rom : Rom) (addr : BlockPos) (j : Nat) (c : Chunk) : Prop where
  pipe0 : 1 ≤ j → c.addrPipe0 = addr ∧ c.rom.ramData = word rom addr
  pipe1 : 2 ≤ j → c.addrPipe1 = addr ∧ c.rom.doutaReg = word rom addr
  pipe2 : 3 ≤ j → c.addrPipe2 = addr ∧ c.out = word rom addr

/-- An address that is not presented any more, `j` cycles later. -/
structure Leaving (old : BlockPos) (j : Nat) (c : Chunk) : Prop where
  pipe0 : j < 1 → c.addrPipe0 = old
  pipe1 : j < 2 → c.addrPipe1 = old
  pipe2 : j < 3 → c.addrPipe2 = old

theorem delivering_zero (addr : BlockPos) (c : Chunk) : c.Delivering rom addr 0 :=
  ⟨fun h => absurd h (by omega), fun h => absurd h (by omega), fun h => absurd h (by omega)⟩

variable {addr old : BlockPos} {j : Nat} {c : Chunk} {i : ChunkIn}

theorem Delivering.risingClkEdge (h : c.Delivering rom addr j) (hrst : i.rst = false)
    (haddr : i.addr = addr) : (c.risingClkEdge rom i).Delivering rom addr (j + 1) := by
  subst haddr
  refine ⟨fun _ => ?_, fun hj => ?_, fun hj => ?_⟩
  · simp [Chunk.risingClkEdge, SinglePortRam.risingClkEdge, hrst, word]
  · obtain ⟨h₁, h₂⟩ := h.pipe0 (by omega)
    simp [Chunk.risingClkEdge, SinglePortRam.risingClkEdge, hrst, h₁, h₂]
  · obtain ⟨h₁, h₂⟩ := h.pipe1 (by omega)
    simp [Chunk.risingClkEdge, hrst, h₁, h₂]

theorem Leaving.risingClkEdge (h : c.Leaving old j) (hrst : i.rst = false) :
    (c.risingClkEdge rom i).Leaving old (j + 1) := by
  refine ⟨fun hj => absurd hj (by omega), fun hj => ?_, fun hj => ?_⟩
  · simp [Chunk.risingClkEdge, hrst, h.pipe0 (by omega)]
  · simp [Chunk.risingClkEdge, hrst, h.pipe1 (by omega)]

theorem Delivering.weaken (h : c.Delivering rom addr j) {j' : Nat} (hj : j' ≤ j) :
    c.Delivering rom addr j' :=
  ⟨fun h' => h.pipe0 (h'.trans hj), fun h' => h.pipe1 (h'.trans hj), fun h' => h.pipe2 (h'.trans hj)⟩

theorem Delivering.leaving (h : c.Delivering rom addr 3) : c.Leaving addr 0 :=
  ⟨fun _ => (h.pipe0 (by omega)).1, fun _ => (h.pipe1 (by omega)).1, fun _ => (h.pipe2 le_rfl).1⟩

end Chunk

def IsStep (s : Int12) : Prop := s = 1 ∨ s = -1

theorem isStep_stepOf (d : Fixed) : IsStep (Vtu.stepOf d) := by
  unfold Vtu.stepOf
  split
  · exact .inl rfl
  · exact .inr rfl

theorem IsStep.mul_add_sub {s : Int12} (h : IsStep s) (c start : Int12) :
    s * (c + s - start) = s * (c - start) + 1 := by
  have hc (c start : BitVec 12) : 1 * (c + 1 - start) = 1 * (c - start) + 1 ∧
      -1 * (c + -1 - start) = -1 * (c - start) + 1 := by
    simp only [BitVec.neg_mul]
    constructor <;> bv_omega
  rcases h with rfl | rfl
  · exact (hc c start).1
  · exact (hc c start).2

theorem IsStep.setWidth_add_ne {s : Int12} (h : IsStep s) (c : Int12) :
    (c + s).setWidth 6 ≠ c.setWidth 6 := by
  rw [BitVec.setWidth_add _ _ (by decide)]
  intro heq
  have hzero := BitVec.add_right_eq_self.mp heq
  rcases h with rfl | rfl <;> exact absurd hzero (by decide)

theorem Walk.advance_cases (rayStep : Vec3i) (rayDDt : Vec3) (w : Walk) :
    (w.advance rayStep rayDDt).rayPos = { w.rayPos with x := w.rayPos.x + rayStep.x } ∨
      (w.advance rayStep rayDDt).rayPos = { w.rayPos with y := w.rayPos.y + rayStep.y } ∨
      (w.advance rayStep rayDDt).rayPos = { w.rayPos with z := w.rayPos.z + rayStep.z } := by
  unfold Walk.advance
  split <;> split
  · exact .inl rfl
  · exact .inr (.inr rfl)
  · exact .inr (.inl rfl)
  · exact .inr (.inr rfl)

namespace RaySetup

def walkAt (setup : RaySetup) (n : Nat) : Walk :=
  (Walk.advance setup.rayStep setup.rayDDt)^[n] setup.start

def posAt (setup : RaySetup) (n : Nat) : Vec3i := (setup.walkAt n).rayPos

def blockAt (rom : Rom) (setup : RaySetup) (n : Nat) : BlockType :=
  Chunk.word rom (setup.posAt n).blockPos

def firstSolid (rom : Rom) (setup : RaySetup) : Option Nat :=
  (List.range 61).find? fun n => setup.blockAt rom n ≠ BLOCK_AIR

theorem firstSolid_eq_some {setup : RaySetup} {n : Nat} (h : setup.firstSolid rom = some n) :
    setup.blockAt rom n ≠ BLOCK_AIR ∧ n ≤ 60 ∧ ∀ m, m < n → setup.blockAt rom m = BLOCK_AIR := by
  obtain ⟨hsolid, hmem, hbefore⟩ := List.find?_range_eq_some.mp h
  exact ⟨of_decide_eq_true hsolid, Nat.le_of_lt_succ (List.mem_range.mp hmem), fun m hm => by simpa using hbefore m hm⟩

theorem firstSolid_eq_none {setup : RaySetup} (h : setup.firstSolid rom = none) {m : Nat}
    (hm : m ≤ 60) : setup.blockAt rom m = BLOCK_AIR := by
  simpa using List.find?_eq_none.mp h m (List.mem_range.mpr (by omega))

def cast (rom : Rom) (setup : RaySetup) : BlockType × Vec3 :=
  match setup.firstSolid rom with
  | some n => (setup.blockAt rom n, hitNormal (setup.walkAt n).lastStep setup.rayStep)
  | none => (BLOCK_AIR, 0)

/-- The number of cycles from the reset to `hit_valid`. -/
def latency (rom : Rom) (setup : RaySetup) : Nat :=
  match setup.firstSolid rom with
  | some n => 14 + 4 * n
  | none => 255

def voxels (rom : Rom) (setup : RaySetup) : Nat :=
  match setup.firstSolid rom with
  | some n => n + 1
  | none => 61

section First
variable {setup : RaySetup} {n : Nat}

theorem latency_of_some (h : setup.firstSolid rom = some n) : setup.latency rom = 14 + 4 * n := by
  rw [latency, h]

theorem latency_of_none (h : setup.firstSolid rom = none) : setup.latency rom = 255 := by
  rw [latency, h]

theorem latency_le_seventeen (rom : Rom) (setup : RaySetup) :
    setup.latency rom ≤ 17 ↔ setup.blockAt rom 0 ≠ BLOCK_AIR := by
  cases h : setup.firstSolid rom with
  | none =>
    rw [latency_of_none h]
    exact ⟨fun hle => by omega, fun hsolid => (hsolid (firstSolid_eq_none h (Nat.zero_le 60))).elim⟩
  | some n =>
    obtain ⟨hsolid, -, hbefore⟩ := firstSolid_eq_some h
    rw [latency_of_some h]
    refine ⟨fun hle => ?_, fun hzero => ?_⟩
    · obtain rfl : n = 0 := by omega
      exact hsolid
    · by_contra hle
      exact hzero (hbefore 0 (by omega))

theorem voxels_of_some (h : setup.firstSolid rom = some n) : setup.voxels rom = n + 1 := by
  rw [voxels, h]

theorem voxels_of_none (h : setup.firstSolid rom = none) : setup.voxels rom = 61 := by
  rw [voxels, h]

theorem cast_of_some (h : setup.firstSolid rom = some n) : setup.cast rom =
    (setup.blockAt rom n, hitNormal (setup.walkAt n).lastStep setup.rayStep) := by
  rw [cast, h]

theorem cast_of_none (h : setup.firstSolid rom = none) : setup.cast rom = (BLOCK_AIR, 0) := by
  rw [cast, h]

end First

theorem lt_voxels_iff (rom : Rom) (setup : RaySetup) (n : Nat) :
    n < setup.voxels rom ↔ n ≤ 60 ∧ ∀ m, m < n → setup.blockAt rom m = BLOCK_AIR := by
  cases hfirst : setup.firstSolid rom with
  | none =>
    rw [voxels_of_none hfirst]
    exact ⟨fun hn => ⟨by omega, fun m hm => firstSolid_eq_none hfirst (by omega)⟩, fun ⟨hn, _⟩ => by omega⟩
  | some first =>
    obtain ⟨hsolid, hle, hbefore⟩ := firstSolid_eq_some hfirst
    rw [voxels_of_some hfirst]
    refine ⟨fun hn => ⟨by omega, fun m hm => hbefore m (by omega)⟩, fun ⟨_, hair⟩ => ?_⟩
    by_contra hn
    exact hsolid (hair first (by omega))

theorem voxels_le (rom : Rom) (setup : RaySetup) : setup.voxels rom ≤ 61 := by
  by_contra h
  have hlast := (lt_voxels_iff rom setup 61).mp (by omega)
  omega

def testAt (rom : Rom) (setup : RaySetup) (n : Nat) : Vec3i × BlockType :=
  (setup.posAt n, setup.blockAt rom n)

structure HasSteps (setup : RaySetup) : Prop where
  x : IsStep setup.rayStep.x
  y : IsStep setup.rayStep.y
  z : IsStep setup.rayStep.z

theorem hasSteps_raySetup (origin direction : Vec3) : (raySetup origin direction).HasSteps :=
  ⟨isStep_stepOf _, isStep_stepOf _, isStep_stepOf _⟩

variable {setup : RaySetup}

theorem walkAt_succ (n : Nat) :
    setup.walkAt (n + 1) = (setup.walkAt n).advance setup.rayStep setup.rayDDt :=
  Function.iterate_succ_apply' _ _ _

theorem HasSteps.blockPos_ne (h : setup.HasSteps) (n : Nat) :
    (setup.posAt n).blockPos ≠ (setup.posAt (n + 1)).blockPos := by
  unfold posAt
  rw [walkAt_succ]
  intro heq
  rcases Walk.advance_cases setup.rayStep setup.rayDDt (setup.walkAt n) with hpos | hpos | hpos <;>
    rw [hpos] at heq
  · exact h.x.setWidth_add_ne _ (congrArg BlockPos.x heq).symm
  · exact h.y.setWidth_add_ne _ (congrArg BlockPos.y heq).symm
  · exact h.z.setWidth_add_ne _ (congrArg BlockPos.z heq).symm

def progress (setup : RaySetup) (p : Vec3i) : Int12 :=
  setup.rayStep.x * (p.x - setup.start.rayPos.x) + setup.rayStep.y * (p.y - setup.start.rayPos.y) +
    setup.rayStep.z * (p.z - setup.start.rayPos.z)

theorem HasSteps.progress_posAt (h : setup.HasSteps) (n : Nat) :
    setup.progress (setup.posAt n) = BitVec.ofNat 12 n := by
  induction n with
  | zero =>
    simp only [progress, posAt, walkAt, Function.iterate_zero, id, BitVec.sub_self, BitVec.mul_zero]
    rfl
  | succ n ih =>
    rw [BitVec.ofNat_add, ← ih]
    unfold posAt progress
    rw [walkAt_succ]
    rcases Walk.advance_cases setup.rayStep setup.rayDDt (setup.walkAt n) with hpos | hpos | hpos <;>
      rw [hpos]
    · simp only [h.x.mul_add_sub]
      ac_rfl
    · simp only [h.y.mul_add_sub]
      ac_rfl
    · simp only [h.z.mul_add_sub]
      ac_rfl

theorem HasSteps.posAt_injective (h : setup.HasSteps) {m n : Nat} (hm : m < 4096) (hn : n < 4096)
    (heq : setup.posAt m = setup.posAt n) : m = n := by
  have hprogress := (h.progress_posAt m).symm.trans
    ((congrArg setup.progress heq).trans (h.progress_posAt n))
  have hnat : (BitVec.ofNat 12 m).toNat = (BitVec.ofNat 12 n).toNat := congrArg BitVec.toNat hprogress
  rw [BitVec.toNat_ofNat, BitVec.toNat_ofNat] at hnat
  omega

end RaySetup
end FpgaCraft.Hardware
