import FpgaCraft.Server.Plugin

/-! ## The window of a snapshot

The cells around the player, and the positions of the world they are saved from. -/
namespace FpgaCraft.Server
open Library

def Offset.Inside (v : Offset) : Prop :=
  (-32 ≤ v.x ∧ v.x ≤ 31) ∧ (-32 ≤ v.y ∧ v.y ≤ 31) ∧ -32 ≤ v.z ∧ v.z ≤ 31

def Offset.cell (v : Offset) (inside : v.Inside) : Fin (CHUNK_SIZE * CHUNK_SIZE * CHUNK_SIZE) :=
  ⟨(CHUNK_SIZE * (CHUNK_SIZE * (v.z + 32) + (v.y + 32)) + (v.x + 32)).toNat, by
    obtain ⟨hx, hy, hz⟩ := inside
    simp only [CHUNK_SIZE]
    omega⟩

theorem offset_cell {v : Offset} (inside : v.Inside) : offset (v.cell inside) = v := by
  cases v with
  | mk x y z =>
    have ⟨hx, hy, hz⟩ := inside
    dsimp only at hx hy hz
    simp only [offset, Offset.cell, HALF_CHUNK_SIZE, CHUNK_SIZE, Offset.mk.injEq]
    omega

theorem offset_inside (i : Fin (CHUNK_SIZE * CHUNK_SIZE * CHUNK_SIZE)) : (offset i).Inside := by
  have := i.isLt
  simp only [Offset.Inside, offset, HALF_CHUNK_SIZE, CHUNK_SIZE] at *
  omega

structure BlockPosition.Displaced (pos : BlockPosition) (v : Offset) (p : BlockPosition) : Prop where
  x : p.x.val = pos.x.val + v.x
  y : p.y.val = pos.y.val + v.y
  z : p.z.val = pos.z.val + v.z

theorem addI32_eq_some (profile : Software.Profile) {a : Int} {b c : I32} (h : c.val = b.val + a) :
    addI32 profile a b = some c := by
  rw [Int.add_comm] at h
  cases profile with
  | debug => exact (Signed.new_eq_some_iff).mpr h
  | release =>
    obtain ⟨lower, upper⟩ : -2 ^ (32 - 1) ≤ a + b.val ∧ a + b.val < 2 ^ (32 - 1) :=
      h ▸ ⟨c.lower, c.upper⟩
    exact congrArg some (Signed.ext ((Signed.wrap_of_range (by decide) lower upper).trans h.symm))

theorem recenter_of_displaced (profile : Software.Profile) {pos p : BlockPosition} {i : Nat}
    (h : pos.Displaced (offset i) p) : recenter profile pos i = some p := by
  unfold recenter
  rw [addI32_eq_some profile h.x, addI32_eq_some profile h.y, addI32_eq_some profile h.z]
  rfl

theorem saveCell_of_ok {profile : Software.Profile} {game : Game} {pos p : BlockPosition}
    {i : Fin (CHUNK_SIZE * CHUNK_SIZE * CHUNK_SIZE)} {state : BlockState}
    (hp : recenter profile pos i = some p) (hblock : game.block p = some (.ok state))
    (block : Block) : saveCell profile game pos i block = some (savedBlock state) := by
  unfold saveCell
  rw [hp]
  simp only [Option.bind_eq_bind, Option.bind_some, hblock]
  rfl

theorem saveCell_of_error {profile : Software.Profile} {game : Game} {pos p : BlockPosition}
    {i : Fin (CHUNK_SIZE * CHUNK_SIZE * CHUNK_SIZE)} {error : BlockAccessError}
    (hp : recenter profile pos i = some p) (hblock : game.block p = some (.error error))
    (block : Block) : saveCell profile game pos i block = some block := by
  unfold saveCell
  rw [hp]
  simp only [Option.bind_eq_bind, Option.bind_some, hblock]
  rfl

/-! ### One snapshot -/

namespace FpgaPlugin
variable {profile : Software.Profile} {game : Game} {plugin plugin' : FpgaPlugin}
  {saved : Option ChunkData} {pos : BlockPosition}

theorem saveChunkLocal_of_moved (hplayer : game.firstPlayer = some pos)
    (moved : plugin.chunkCenter ≠ some pos) :
    plugin.saveChunkLocal profile game =
      (fill (saveCell profile game pos) (List.finRange _) plugin.chunkData).bind
        fun data => some (⟨data, some pos⟩, some data) := by
  unfold saveChunkLocal
  rw [hplayer]
  dsimp only
  rw [if_neg moved]
  rfl

theorem saveCell_of_saved (hplayer : game.firstPlayer = some pos)
    (hsave : plugin.saveChunkLocal profile game = some (plugin', saved))
    (moved : plugin.chunkCenter ≠ some pos) (i : Fin (CHUNK_SIZE * CHUNK_SIZE * CHUNK_SIZE)) :
    saveCell profile game pos i (plugin.chunkData i) = some (plugin'.chunkData i) := by
  rw [saveChunkLocal_of_moved hplayer moved] at hsave
  obtain ⟨data, hfill, heq⟩ := Option.bind_eq_some_iff.mp hsave
  obtain ⟨rfl, -⟩ := Prod.mk.inj (Option.some.inj heq)
  exact fill_of_mem (List.nodup_finRange _) hfill (List.mem_finRange i)

/-- A snapshot holds, in every cell whose block it could get, what the block is saved as. -/
theorem saved_cell {p : BlockPosition} {v : Offset} {state : BlockState} (inside : v.Inside)
    (hplayer : game.firstPlayer = some pos)
    (hsave : plugin.saveChunkLocal profile game = some (plugin', saved))
    (moved : plugin.chunkCenter ≠ some pos) (hp : pos.Displaced v p)
    (hblock : game.block p = some (.ok state)) :
    plugin'.chunkData (v.cell inside) = savedBlock state := by
  have hcell := saveCell_of_saved hplayer hsave moved (v.cell inside)
  have hrecenter := recenter_of_displaced profile ((offset_cell inside).symm ▸ hp)
  rw [saveCell_of_ok hrecenter hblock] at hcell
  exact (Option.some.inj hcell).symm

theorem exists_saved (profile : Software.Profile) (game : Game) (plugin : FpgaPlugin)
    (hplayer : game.firstPlayer = some pos) (moved : plugin.chunkCenter ≠ some pos)
    (near : ∀ v : Offset, v.Inside → ∃ p result, pos.Displaced v p ∧ game.block p = some result) :
    ∃ data, plugin.saveChunkLocal profile game = some (⟨data, some pos⟩, some data) := by
  have total (i : Fin (CHUNK_SIZE * CHUNK_SIZE * CHUNK_SIZE)) (value : Block) :
      (saveCell profile game pos i value).isSome = true := by
    obtain ⟨p, result, hp, hblock⟩ := near (offset i) (offset_inside i)
    have hrecenter := recenter_of_displaced profile hp
    cases result with
    | ok state =>
      rw [saveCell_of_ok hrecenter hblock]
      rfl
    | error error =>
      rw [saveCell_of_error hrecenter hblock]
      rfl
  obtain ⟨data, hfill⟩ := exists_fill (fun i (_ : i ∈ List.finRange _) => total i) plugin.chunkData
  refine ⟨data, ?_⟩
  rw [saveChunkLocal_of_moved hplayer moved, hfill]
  rfl

end FpgaPlugin

/-! ### Worlds of one block -/

namespace Game

theorem block_of_uniform (game : Game) {block : BlockId} {id : BitVec 16} {state : BlockState}
    (everywhere : ∀ p, game.blockAt p = some block) (hid : block.vanillaId game.vanillaIds = some id)
    (hstate : BlockState.fromId id = some state) {p : BlockPosition} (valid : p.valid = true)
    (height : 0 ≤ p.y.val ∧ p.y.val < 256) : game.block p = some (.ok state) := by
  unfold Game.block Game.blockGet
  rw [if_neg (by simp only [CHUNK_HEIGHT]; omega), if_pos valid]
  simp only [everywhere, hid, Option.map_some, Option.bind_some, BlockGetResult.get_new, hstate]

theorem near_of_uniform {game : Game} {result : Except BlockAccessError BlockState}
    (uniform : ∀ p : BlockPosition, p.valid = true → 0 ≤ p.y.val ∧ p.y.val < 256 →
      game.block p = some result) {pos : BlockPosition}
    (hx : -33554400 ≤ pos.x.val ∧ pos.x.val ≤ 33554400) (hy : 32 ≤ pos.y.val ∧ pos.y.val ≤ 224)
    (hz : -33554400 ≤ pos.z.val ∧ pos.z.val ≤ 33554400) (v : Offset) (inside : v.Inside) :
    ∃ p, pos.Displaced v p ∧ game.block p = some result := by
  obtain ⟨vx, vy, vz⟩ := inside
  obtain ⟨x, -, ex⟩ := @Signed.new_of_range 32 (pos.x.val + v.x) (by norm_num; omega) (by norm_num; omega)
  obtain ⟨y, -, ey⟩ := @Signed.new_of_range 32 (pos.y.val + v.y) (by norm_num; omega) (by norm_num; omega)
  obtain ⟨z, -, ez⟩ := @Signed.new_of_range 32 (pos.z.val + v.z) (by norm_num; omega) (by norm_num; omega)
  refine ⟨⟨x, y, z⟩, ⟨ex, ey, ez⟩, uniform _ ?_ ?_⟩
  · simp only [BlockPosition.valid, ex, ey, ez, Bool.and_eq_true, decide_eq_true_eq]
    omega
  · dsimp only
    omega

end Game
end FpgaCraft.Server
