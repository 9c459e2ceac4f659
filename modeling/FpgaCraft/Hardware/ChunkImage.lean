import FpgaCraft.Hardware.Chunk
import FpgaCraft.Server.Snapshot

/-! ## The chunk ROM against the saved snapshot

The flat address recentres by 40 where the plugin and the software cache recentre by 32,
so the ROM is read 8 cells further on, along every axis. -/
namespace FpgaCraft.Hardware
open Library Server

def BlockPos.offset (pos : BlockPos) : Offset := ⟨pos.x.toInt, pos.y.toInt, pos.z.toInt⟩

def BlockPos.toVec3i (pos : BlockPos) : Software.Vec3i :=
  let coord (c : BitVec 6) : Software.I16 :=
    ⟨c.toInt, by have := BitVec.le_toInt c; norm_num at *; omega,
      by have := BitVec.toInt_lt (x := c); norm_num at *; omega⟩
  ⟨coord pos.x, coord pos.y, coord pos.z⟩

/-- The cell that the ROM is read at in place of cell `i`. -/
def movedCell (i : Fin (CHUNK_SIZE * CHUNK_SIZE * CHUNK_SIZE)) :
    Fin (CHUNK_SIZE * CHUNK_SIZE * CHUNK_SIZE) :=
  ⟨(i.val + 33288) % (CHUNK_SIZE * CHUNK_SIZE * CHUNK_SIZE), Nat.mod_lt _ (by decide)⟩

theorem index_of_offset {i : Nat} {pos : BlockPos} (h : offset i = pos.offset) :
    (i : Int) = 4096 * (pos.z.toInt + 32) + 64 * (pos.y.toInt + 32) + (pos.x.toInt + 32) := by
  simp only [offset, BlockPos.offset, HALF_CHUNK_SIZE, CHUNK_SIZE, Offset.mk.injEq] at h
  obtain ⟨hx, hy, hz⟩ := h
  omega

theorem flatAddr_of_offset {i : Fin (CHUNK_SIZE * CHUNK_SIZE * CHUNK_SIZE)} {pos : BlockPos}
    (h : offset i = pos.offset) : (Chunk.flatAddr pos).toNat = (movedCell i).val := by
  have hindex := index_of_offset h
  have hnat : (pos.z.toInt + 40) * 4096 + (pos.y.toInt + 40) * 64 + (pos.x.toInt + 40) =
      ((i.val + 33288 : Nat) : Int) := by
    push_cast
    omega
  rw [Chunk.flatAddr_eq_ofInt, hnat, BitVec.ofInt_natCast, BitVec.toNat_ofNat]
  rfl

theorem word_of_offset (data : ChunkData) {i : Fin (CHUNK_SIZE * CHUNK_SIZE * CHUNK_SIZE)}
    {pos : BlockPos} (h : offset i = pos.offset) :
    Chunk.word (romOfChunkData data) pos = romWord (data (movedCell i)) :=
  congrArg (fun cell => romWord (data cell)) (Fin.ext (flatAddr_of_offset h))

theorem query_of_offset (data : ChunkData) (profile : Software.Profile)
    {i : Fin (CHUNK_SIZE * CHUNK_SIZE * CHUNK_SIZE)} {pos : BlockPos} (h : offset i = pos.offset) :
    (Software.MockCache.ofChunkData data).query profile pos.toVec3i =
      some (some (Software.Block.ofByte (data i).toByte)) := by
  have bound (c : BitVec 6) : -32 ≤ c.toInt ∧ c.toInt ≤ 31 := by
    have hl := BitVec.le_toInt c
    have hu := BitVec.toInt_lt (x := c)
    norm_num at hl hu
    omega
  have hx : pos.toVec3i.x.val = pos.x.toInt := rfl
  have hy : pos.toVec3i.y.val = pos.y.toInt := rfl
  have hz : pos.toVec3i.z.val = pos.z.toInt := rfl
  have bx := bound pos.x
  have bY := bound pos.y
  have bz := bound pos.z
  have inside : Software.MockCache.InBounds pos.toVec3i := ⟨hx ▸ bx, hy ▸ bY, hz ▸ bz⟩
  rw [Software.MockCache.query_of_range _ _ _ (by omega) (by omega) (by omega), dif_pos inside]
  have hcell : Software.MockCache.cellIndex pos.toVec3i inside = i := by
    have hindex := index_of_offset h
    apply Fin.ext
    simp only [Software.MockCache.cellIndex, Software.SIZE, hx, hy, hz]
    omega
  rw [hcell]
  rfl

/-- The chunk shows the stored cell: the word saved for it, as the software cache answers,
under its own name. -/
structure Shows (data : ChunkData) (i : Fin (CHUNK_SIZE * CHUNK_SIZE * CHUNK_SIZE))
    (pos : BlockPos) (out : BlockType) : Prop where
  cell : out = romWord (data i)
  query : ∀ profile, ∃ block,
    (Software.MockCache.ofChunkData data).query profile pos.toVec3i = some (some block) ∧
      out.toNat = block.toByte
  name : out = BlockType.named (data i)

/-- In every run from a reset, once a held address has been presented for `latency` cycles,
a valid output shows its cell. -/
def ReadsBack (data : ChunkData) (pos : BlockPos) (latency : Nat) : Prop :=
  ∀ (s : Chunk) (inputs : Nat → ChunkIn) (t₀ t : Nat), (inputs 0).rst = true →
    (∀ k, 0 < k → (inputs k).rst = false) → 0 < t₀ → (∀ k, t₀ ≤ k → (inputs k).addr = pos) →
    t₀ + latency ≤ t →
    (trace (Chunk.risingClkEdge (romOfChunkData data)) inputs s t).valid (inputs t) = true →
    ∀ i : Fin (CHUNK_SIZE * CHUNK_SIZE * CHUNK_SIZE), offset i = pos.offset →
      Shows data i pos (trace (Chunk.risingClkEdge (romOfChunkData data)) inputs s t).out

def Unmoved (data : ChunkData) (pos : BlockPos) : Prop :=
  ∀ i : Fin (CHUNK_SIZE * CHUNK_SIZE * CHUNK_SIZE), offset i = pos.offset →
    data (movedCell i) = data i ∧ data i ≠ .gravel ∧ data i ≠ .oakLog

theorem shows_word_iff (data : ChunkData) {i : Fin (CHUNK_SIZE * CHUNK_SIZE * CHUNK_SIZE)}
    {pos : BlockPos} (h : offset i = pos.offset) :
    Shows data i pos (Chunk.word (romOfChunkData data) pos) ↔
      data (movedCell i) = data i ∧ data i ≠ .gravel ∧ data i ≠ .oakLog := by
  rw [word_of_offset data h]
  refine ⟨fun shows => ?_, fun ⟨hmoved, hname⟩ => ?_⟩
  · have hmoved := romWord_injective shows.cell
    exact ⟨hmoved, (romWord_eq_named _).mp (shows.cell.symm.trans shows.name)⟩
  · rw [hmoved]
    have hbyte : (romWord (data i)).toNat = (Software.Block.ofByte (data i).toByte).toByte := by
      rw [Software.Block.toByte_ofByte, toNat_romWord]
    exact ⟨rfl, fun profile => ⟨_, query_of_offset data profile h, hbyte⟩,
      (romWord_eq_named _).mpr hname⟩

theorem not_ne (word : BlockType) : ~~~word ≠ word := by
  revert word
  decide

def heldFromReset (pos : BlockPos) (k : Nat) : ChunkIn := ⟨decide (k = 0), pos, true⟩

theorem unmoved_of_readsBack {data : ChunkData} {pos : BlockPos} (h : ReadsBack data pos 3) :
    Unmoved data pos := by
  intro i hi
  let s : Chunk := ⟨0, 0, 0, ⟨0, 0⟩, 0⟩
  obtain ⟨haddr, hout⟩ := @Chunk.latency (romOfChunkData data) s (heldFromReset pos) 1 rfl rfl rfl
  have shows := h s (heldFromReset pos) 1 4 rfl (fun k hk => decide_eq_false (Nat.pos_iff_ne_zero.mp hk))
    Nat.one_pos (fun _ _ => rfl) le_rfl (Chunk.valid_eq_true.mpr ⟨rfl, haddr.symm⟩) i hi
  rw [hout] at shows
  exact (shows_word_iff data hi).mp shows

/-- The chunk reads a held address back exactly if the cell is not changed by the
displacement and not one of the two blocks that the enumerations swap. In the first
cycles after a reset the zero address is valid too early, with whatever was there. -/
theorem chunk_reads_back_iff (data : ChunkData) (pos : BlockPos) :
    (ReadsBack data pos 3 ↔ Unmoved data pos) ∧
      (ReadsBack data pos 0 ↔ pos ≠ 0 ∧ Unmoved data pos) := by
  have hdelivered : ∀ (s : Chunk) (inputs : Nat → ChunkIn) (t : Nat),
      (∀ k, 0 < k → (inputs k).rst = false) → (inputs (t + 1)).addr = pos →
      Chunk.word (romOfChunkData data) pos =
        (trace (Chunk.risingClkEdge (romOfChunkData data)) inputs s (t + 4)).out := by
    intro s inputs t hrst haddr
    rw [(Chunk.latency (hrst (t + 1) (by omega)) (hrst _ (by omega)) (hrst _ (by omega))).2, haddr]
  refine ⟨⟨unmoved_of_readsBack, fun h s inputs t₀ t hrst₀ hrst ht₀ haddr ht hvalid i hi => ?_⟩,
    fun h => ⟨?_, ?_⟩, fun ⟨hne, h⟩ s inputs t₀ t hrst₀ hrst ht₀ haddr ht hvalid i hi => ?_⟩
  · obtain ⟨m, rfl⟩ : ∃ m, t = m + 4 := ⟨t - 4, by omega⟩
    rw [← hdelivered s inputs m hrst (haddr _ (by omega))]
    exact (shows_word_iff data hi).mpr (h i hi)
  · -- The output register is not reset, and the zero address matches the reset pipeline
    rintro rfl
    let center : Fin (CHUNK_SIZE * CHUNK_SIZE * CHUNK_SIZE) := ⟨133152, by decide⟩
    let s : Chunk := ⟨0, 0, 0, ⟨0, 0⟩, ~~~romWord (data center)⟩
    have shows := h s (heldFromReset 0) 1 1 rfl
      (fun k hk => decide_eq_false (Nat.pos_iff_ne_zero.mp hk)) Nat.one_pos (fun _ _ => rfl) le_rfl
      rfl center (by decide)
    exact not_ne (romWord (data center)) shows.cell
  · exact unmoved_of_readsBack fun s inputs t₀ t hrst₀ hrst ht₀ haddr ht =>
      h s inputs t₀ t hrst₀ hrst ht₀ haddr (by omega)
  · obtain ⟨-, hpipe⟩ := Chunk.valid_eq_true.mp hvalid
    rw [haddr t (by omega)] at hpipe
    have ht4 : 4 ≤ t := by
      by_contra hlt
      obtain ⟨h₁, h₂, h₃⟩ := @Chunk.addrPipe2_after_reset (romOfChunkData data) s inputs 0 hrst₀
        (hrst 1 (by omega)) (hrst 2 (by omega))
      obtain rfl | rfl | rfl : t = 1 ∨ t = 2 ∨ t = 3 := by omega
      · exact hne (hpipe.trans h₁)
      · exact hne (hpipe.trans h₂)
      · exact hne (hpipe.trans h₃)
    obtain ⟨m, rfl⟩ : ∃ m, t = m + 4 := ⟨t - 4, by omega⟩
    have hlatency := (@Chunk.latency (romOfChunkData data) s inputs (m + 1) (hrst _ (by omega))
      (hrst _ (by omega)) (hrst _ (by omega))).1
    rw [← hdelivered s inputs m hrst (hpipe.trans hlatency).symm]
    exact (shows_word_iff data hi).mpr (h i hi)

/-- A single stone among gravel: the chunk shows a gravel cell in its place, under the
name of an oak log. -/
theorem chunk_shows_moved_cell :
    let data : ChunkData := fun i => if i.val = 133153 then .stone else .gravel
    let pos : BlockPos := ⟨1, 0, 0⟩
    let s : Chunk := ⟨0, 0, 0, ⟨0, 0⟩, 0⟩
    let run := trace (Chunk.risingClkEdge (romOfChunkData data)) (heldFromReset pos) s
    (run 4).valid (heldFromReset pos 4) = true ∧ (run 4).out = BLOCK_OAK_LOG ∧
      offset 133153 = pos.offset ∧
      (Software.MockCache.ofChunkData data).query .debug pos.toVec3i = some (some .stone) ∧
      ¬ReadsBack data pos 3 := by
  intro data pos s run
  have hout : (run 4).out = BLOCK_OAK_LOG := by decide +kernel
  have hvalid : (run 4).valid (heldFromReset pos 4) = true := by decide +kernel
  refine ⟨hvalid, hout, by decide +kernel, by decide +kernel, fun h => ?_⟩
  have shows := h s (heldFromReset pos) 1 4 rfl
    (fun k hk => decide_eq_false (Nat.pos_iff_ne_zero.mp hk)) Nat.one_pos (fun _ _ => rfl) le_rfl
    hvalid ⟨133153, by decide⟩ (by decide +kernel)
  have hcell : BLOCK_OAK_LOG = romWord .stone := hout.symm.trans shows.cell
  exact absurd hcell (by decide)

end FpgaCraft.Hardware
