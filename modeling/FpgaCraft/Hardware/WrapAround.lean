import FpgaCraft.Hardware.Traversal
import FpgaCraft.Software.L2

/-! ## Rays that leave the chunk

The bounds test of the chunk looks at coordinates of six bits, which are all in bounds: a
ray that leaves the chunk comes in again on the other side. -/
namespace FpgaCraft.Hardware
open Library

def Vec3i.InChunk (p : Vec3i) : Prop :=
  (-32 ≤ p.x.toInt ∧ p.x.toInt ≤ 31) ∧ (-32 ≤ p.y.toInt ∧ p.y.toInt ≤ 31) ∧
    (-32 ≤ p.z.toInt ∧ p.z.toInt ≤ 31)

instance (p : Vec3i) : Decidable p.InChunk := by unfold Vec3i.InChunk; infer_instance

def Vec3i.toSoftware (p : Vec3i) : Software.Vec3i :=
  let coord (c : BitVec 12) : Software.I16 :=
    ⟨c.toInt, by have := BitVec.le_toInt c; norm_num at *; omega,
      by have := BitVec.toInt_lt (x := c); norm_num at *; omega⟩
  ⟨coord p.x, coord p.y, coord p.z⟩

theorem software_block_outside (ram : Software.MockCache) (profile : Software.Profile) (p : Vec3i)
    (h : ¬p.InChunk) : ram.block profile p.toSoftware = some .air := by
  have bound (c : BitVec 12) : c.toInt < 32736 := by
    have hu := BitVec.toInt_lt (x := c)
    norm_num at hu
    omega
  have outside : ¬Software.MockCache.InBounds p.toSoftware := h
  rw [Software.MockCache.block, ram.query_of_range profile _ (bound p.x) (bound p.y) (bound p.z),
    dif_neg outside]
  rfl

def cellWord (rom : Rom) (x y z : Int) : BlockType :=
  rom (BitVec.ofInt 18 ((z + 40) * 4096 + (y + 40) * 64 + (x + 40)))

def wrappedWord (rom : Rom) (p : Vec3i) : BlockType :=
  cellWord rom (p.x.toInt.bmod 64) (p.y.toInt.bmod 64) (p.z.toInt.bmod 64)

theorem toInt_setWidth_six (c : Int12) : (c.setWidth 6).toInt = c.toInt.bmod 64 := by
  rw [BitVec.toInt_setWidth, BitVec.toInt_eq_toNat_bmod]
  exact (Int.bmod_bmod_of_dvd (by decide)).symm

theorem word_blockPos (rom : Rom) (p : Vec3i) : Chunk.word rom p.blockPos = wrappedWord rom p := by
  rw [Chunk.word, Chunk.flatAddr_eq_ofInt]
  simp only [wrappedWord, cellWord, Vec3i.blockPos, toInt_setWidth_six]

theorem tested_iff {rom : Rom} {i : CasterIn} (s : Caster) (hrst : i.resets = true)
    (t : Vec3i × BlockType) :
    (∃ k, (trace (Caster.risingClkEdge rom) (launch i) s k).tested (launch i k) = some t) ↔
      ∃ n, n < i.setup.voxels rom ∧ i.setup.testAt rom n = t := by
  refine ⟨fun ⟨k, hk⟩ => ?_, fun ⟨n, hn, ht⟩ => ?_⟩
  · have hmem : t ∈ events (Caster.risingClkEdge rom) Caster.tested (launch i) s
        (max k (i.setup.latency rom) + 1) :=
      List.mem_filterMap.mpr ⟨k, List.mem_range.mpr (by omega), hk⟩
    rw [launch_tests s hrst (Nat.le_max_right _ _)] at hmem
    obtain ⟨n, hn, ht⟩ := List.mem_map.mp hmem
    exact ⟨n, List.mem_range.mp hn, ht⟩
  · have hmem : t ∈ (List.range (i.setup.voxels rom)).map (i.setup.testAt rom) :=
      List.mem_map.mpr ⟨n, List.mem_range.mpr hn, ht⟩
    rw [← launch_tests s hrst le_rfl] at hmem
    obtain ⟨k, -, hk⟩ := List.mem_filterMap.mp hmem
    exact ⟨k, hk⟩

def LeavesIntoAir (rom : Rom) (s : Caster) (i : CasterIn) : Prop :=
  ∀ k p block, (trace (Caster.risingClkEdge rom) (launch i) s k).tested (launch i k) = some (p, block) →
    ¬p.InChunk → block = BLOCK_AIR

/-- A ray finds air outside the chunk exactly if the voxels it comes to there are air in the
periodic copies of the chunk. -/
theorem leaves_into_air_iff (rom : Rom) (s : Caster) (i : CasterIn) (hrst : i.resets = true) :
    LeavesIntoAir rom s i ↔
      ∀ n, n ≤ 60 → (∀ m, m < n → wrappedWord rom (i.setup.posAt m) = BLOCK_AIR) →
        ¬(i.setup.posAt n).InChunk → wrappedWord rom (i.setup.posAt n) = BLOCK_AIR := by
  have hblock (n : Nat) : i.setup.blockAt rom n = wrappedWord rom (i.setup.posAt n) :=
    word_blockPos rom _
  refine ⟨fun h n hn hair hout => ?_, fun h k p block hk hout => ?_⟩
  · have hvoxel : n < i.setup.voxels rom :=
      (RaySetup.lt_voxels_iff rom _ n).mpr ⟨hn, fun m hm => (hblock m).trans (hair m hm)⟩
    obtain ⟨k, hk⟩ := (tested_iff s hrst _).mpr ⟨n, hvoxel, rfl⟩
    exact (hblock n).symm.trans (h k _ _ hk hout)
  · obtain ⟨n, hvoxel, ht⟩ := (tested_iff s hrst _).mp ⟨k, hk⟩
    obtain ⟨hn, hair⟩ := (RaySetup.lt_voxels_iff rom _ n).mp hvoxel
    obtain ⟨rfl, rfl⟩ := Prod.mk.inj ht
    exact (hblock n).trans (h n hn (fun m hm => (hblock m).symm.trans (hair m hm)) hout)

theorem leaves_into_air_stone :
    LeavesIntoAir (fun _ => BLOCK_STONE) Caster.powerUp ⟨true, false, 0, ⟨FIXED_1, 0, 0⟩⟩ := by
  refine (leaves_into_air_iff _ Caster.powerUp _ rfl).mpr fun n _ hair hout => ?_
  cases n with
  | zero => exact absurd (by decide +kernel) hout
  | succ n => exact absurd (hair 0 (Nat.succ_pos n)) (by decide)

/-- From (31.5, 0.5, 0.5) along x, with a single stone at the other end of the row: the voxel
at x = 32 is taken for it, where the software finds air. -/
theorem ray_hits_wrapped_copy :
    let rom : Rom := fun a => if a = 166408 then BLOCK_STONE else BLOCK_AIR
    let i : CasterIn := ⟨true, false, ⟨0x1F80, 0x80, 0x80⟩, ⟨FIXED_1, 0, 0⟩⟩
    let run := trace (Caster.risingClkEdge rom) (launch i) Caster.powerUp
    (run 18).tested (launch i 18) = some (⟨32, 0, 0⟩, BLOCK_STONE) ∧
      (run 19).vtu.hitValid = true ∧ (run 19).vtu.hit = BLOCK_STONE ∧
      (∀ ram profile, Software.MockCache.block ram profile (Vec3i.toSoftware ⟨32, 0, 0⟩) = some .air) ∧
      ¬LeavesIntoAir rom Caster.powerUp i := by
  intro rom i run
  have htested : (run 18).tested (launch i 18) = some (⟨32, 0, 0⟩, BLOCK_STONE) := by decide +kernel
  have hout : ¬(⟨32, 0, 0⟩ : Vec3i).InChunk := by decide
  exact ⟨htested, by decide +kernel, by decide +kernel,
    fun ram profile => software_block_outside ram profile _ hout,
    fun h => absurd (h 18 _ _ htested hout) (by decide)⟩

end FpgaCraft.Hardware
