import FpgaCraft.Server.WorldEdits
import FpgaCraft.Server.Window

/-! The plugin's calls that change the world (`quill/api/src/game.rs`,
`plugin-host/src/host_calls/block.rs`), and the world its snapshots show. -/
namespace FpgaCraft.Server
open Library

def BlockState.blockId (table : VanillaIdTable) (state : BlockState) : BlockId := table.fromIds state.id

namespace World
variable (table : VanillaIdTable) (traits : BlockTraits)

def game (self : World) (firstPlayer : Option BlockPosition) : Game where
  vanillaIds := table
  blockAt pos := (self.blockAt table pos).join
  firstPlayer := firstPlayer

def blockSet (self : World) (pos : BlockPosition) (blockId : BitVec 16) : Option (World × Bool) :=
  if pos.valid then
    (BlockId.fromVanillaId table blockId).bind fun block => self.setBlockAt table traits pos block
  else none

def blockFillChunkSection (self : World) (chunk : ChunkPosition) (sectionY : BitVec 32)
    (blockId : BitVec 16) : Option (World × Bool) :=
  (BlockId.fromVanillaId table blockId).bind fun block =>
    self.fillChunkSection chunk sectionY.toNat block

end World

inductive PluginEdit where
  | setBlock (pos : BlockPosition)
  | fillChunkSection (chunk : ChunkPosition) (sectionY : BitVec 32)

namespace PluginEdit

def chunk : PluginEdit → ChunkPosition
  | .setBlock pos => pos.chunk
  | .fillChunkSection chunk _ => chunk

def inBounds : PluginEdit → Bool
  | .setBlock pos => !decide (pos.y.val < 0 ∨ (CHUNK_HEIGHT : Int) ≤ pos.y.val)
  | .fillChunkSection _ sectionY => !decide (16 ≤ sectionY.toNat)

def Covers : PluginEdit → BlockPosition → Prop
  | .setBlock pos, q => q = pos
  | .fillChunkSection chunk sectionY, q => q.chunk = chunk ∧ q.y.val / 16 = (sectionY.toNat : Int)

def valid : PluginEdit → Bool
  | .setBlock pos => pos.valid
  | .fillChunkSection _ _ => true

/-- The call of the host, `set_block` or `fill_chunk_section` of the server's game. -/
def call : PluginEdit → BlockId → WorldCall
  | .setBlock pos, block => .setBlock pos block
  | .fillChunkSection chunk sectionY, block => .fillSection chunk sectionY.toNat block

variable (table : VanillaIdTable) (traits : BlockTraits)

def host (world : World) (state : BlockState) : PluginEdit → Option (World × Bool)
  | .setBlock pos => world.blockSet table traits pos state.id
  | .fillChunkSection chunk sectionY => world.blockFillChunkSection table chunk sectionY state.id

/-- `Game::set_block` and `Game::fill_chunk_section` of the plugin. -/
def apply (world : World) (state : BlockState) (e : PluginEdit) :
    Option (World × Except BlockAccessError Unit) :=
  if e.inBounds then
    (e.host table traits world state).map fun result =>
      (result.1, if result.2 then .ok () else .error .chunkNotLoaded)
  else some (world, .error .yOutOfBounds)

end PluginEdit

/-! ### States and blocks -/

section States
variable {table : VanillaIdTable} {state state' : BlockState}

theorem BlockState.vanillaId_blockId (table : VanillaIdTable) (state : BlockState) :
    (state.blockId table).vanillaId table = some state.id := by
  obtain ⟨block, hblock⟩ : ∃ block : BlockId, block.vanillaId table = some state.id :=
    BlockId.exists_vanillaId state.valid
  have back := BlockId.fromVanillaId_vanillaId hblock
  have bound := state.valid
  rw [BlockId.fromVanillaId, if_pos (by omega), Option.some.injEq] at back
  rw [BlockState.blockId, back, hblock]

theorem BlockState.fromVanillaId (table : VanillaIdTable) (state : BlockState) :
    BlockId.fromVanillaId table state.id = some (state.blockId table) :=
  BlockId.fromVanillaId_vanillaId (state.vanillaId_blockId table)

theorem BlockState.blockId_injective (h : state.blockId table = state'.blockId table) :
    state = state' := by
  have hid := state.vanillaId_blockId table
  rw [h, state'.vanillaId_blockId, Option.some.injEq] at hid
  cases state
  cases state'
  simp_all

theorem BlockId.Known.exists_state {block : BlockId} (h : block.Known table) :
    ∃ state : BlockState, state.blockId table = block ∧ block.vanillaId table = some state.id := by
  obtain ⟨id, hid⟩ := h
  refine ⟨⟨id, BlockId.vanillaId_lt hid⟩, ?_, hid⟩
  exact BlockId.vanillaId_injective (BlockState.vanillaId_blockId table _) hid

def BlockState.Same (table : VanillaIdTable) (state state' : BlockState) : Prop :=
  state = state' ∨ (state.blockId table).isAir = true ∧ (state'.blockId table).isAir = true

theorem BlockState.same_iff : BlockState.Same table state state' ↔
    (state.blockId table).Same (state'.blockId table) := by
  rw [BlockState.Same, BlockId.Same]
  exact or_congr_left ⟨congrArg _, blockId_injective⟩

end States

/-! ### What a plugin reads -/

namespace World
variable {table : VanillaIdTable} {traits : BlockTraits} {allowed : ChunkPosition → Nat → List BlockId}
  {world : World} {blocks : Blocks} {player : Option BlockPosition} {q : BlockPosition}
  {state : BlockState}

theorem accepts_eq_true : world.accepts q = true ↔
    (0 ≤ q.y.val ∧ q.y.val < 256) ∧ world.isChunkLoaded q.chunk = true := by
  rw [accepts, Bool.and_eq_true, checkCoords, decide_eq_true_eq]
  rfl

/-- A block is read where its chunk is loaded and the protocol has a position for it. -/
theorem Holds.block (h : Holds table traits allowed world blocks) (player : Option BlockPosition)
    (haccepts : world.accepts q = true)
    (valid : q.valid = true) : ∃ state : BlockState,
      (world.game table player).block q = some (.ok state) ∧ (state.blockId table).Same (blocks q) := by
  obtain ⟨b, same, known, read⟩ := h.blockAt q
  obtain ⟨state, rfl, hid⟩ := (known haccepts).exists_state
  refine ⟨state, ?_, same⟩
  have height := (accepts_eq_true.mp haccepts).1
  have get : (world.game table player).blockGet q = some (.new (some state.id)) := by
    rw [if_pos haccepts] at read
    simp only [Game.blockGet, World.game, valid, if_true, read, Option.join_some, hid, Option.map_some]
  rw [Game.block, if_neg (by rw [CHUNK_HEIGHT]; omega), get, Option.bind_some, BlockGetResult.get_new]
  simp only [BlockState.fromId, state.valid, dite_true, Option.map_some]

theorem Holds.of_block (h : Holds table traits allowed world blocks)
    (hblock : (world.game table player).block q = some (.ok state)) :
    world.accepts q = true ∧ q.valid = true ∧ (state.blockId table).Same (blocks q) := by
  have read := hblock
  rw [Game.block] at hblock
  split at hblock
  · cases hblock
  · obtain ⟨result, hget, hresult⟩ := Option.bind_eq_some_iff.mp hblock
    rw [Game.blockGet] at hget
    split at hget
    · rename_i valid
      obtain ⟨b, -, -, hread⟩ := h.blockAt q
      have haccepts : world.accepts q = true := by
        by_contra hrejects
        rw [if_neg hrejects] at hread
        simp only [World.game, hread, Option.join_some, Option.some.injEq] at hget
        rw [← hget, BlockGetResult.get_new] at hresult
        cases hresult
      obtain ⟨state', read', same⟩ := h.block player haccepts valid
      rw [read, Option.some.injEq, Except.ok.injEq] at read'
      exact ⟨haccepts, valid, read' ▸ same⟩
    · cases hget

theorem Holds.block_error (h : Holds table traits allowed world blocks) (player : Option BlockPosition)
    (hrejects : world.accepts q = false) (valid : q.valid = true) :
    ∃ error, (world.game table player).block q = some (.error error) := by
  obtain ⟨b, -, -, read⟩ := h.blockAt q
  rw [hrejects, if_neg Bool.false_ne_true] at read
  unfold Game.block
  split
  · exact ⟨_, rfl⟩
  · have get : (world.game table player).blockGet q = some (.new none) := by
      simp only [Game.blockGet, World.game, valid, if_true, read, Option.join_some]
    rw [get, Option.bind_some, BlockGetResult.get_new]
    exact ⟨_, rfl⟩

theorem exists_displaced {pos : BlockPosition} (hx : -33554400 ≤ pos.x.val ∧ pos.x.val ≤ 33554400)
    (hy : -2016 ≤ pos.y.val ∧ pos.y.val ≤ 2016) (hz : -33554400 ≤ pos.z.val ∧ pos.z.val ≤ 33554400)
    {v : Offset} (inside : v.Inside) : ∃ p, pos.Displaced v p ∧ p.valid = true := by
  obtain ⟨vx, vy, vz⟩ := inside
  obtain ⟨x, -, ex⟩ := @Signed.new_of_range 32 (pos.x.val + v.x) (by norm_num; omega) (by norm_num; omega)
  obtain ⟨y, -, ey⟩ := @Signed.new_of_range 32 (pos.y.val + v.y) (by norm_num; omega) (by norm_num; omega)
  obtain ⟨z, -, ez⟩ := @Signed.new_of_range 32 (pos.z.val + v.z) (by norm_num; omega) (by norm_num; omega)
  refine ⟨⟨x, y, z⟩, ⟨ex, ey, ez⟩, ?_⟩
  simp only [BlockPosition.valid, ex, ey, ez, Bool.and_eq_true, decide_eq_true_eq]
  omega

theorem host_eq_call {e : PluginEdit} (valid : e.valid = true) :
    e.host table traits world state = world.call table traits (e.call (state.blockId table)) := by
  cases e with
  | setBlock pos =>
    simp only [PluginEdit.valid] at valid
    simp only [PluginEdit.host, blockSet, valid, if_true, state.fromVanillaId, Option.bind_some]
    rfl
  | fillChunkSection chunk sectionY =>
    simp only [PluginEdit.host, blockFillChunkSection, state.fromVanillaId, Option.bind_some]
    rfl

theorem isChunkLoaded_edit {e : PluginEdit} {block : BlockId} {world' : World} {reply : Bool}
    (hcall : world.call table traits (e.call block) = some (world', reply)) (pos : ChunkPosition) :
    world'.isChunkLoaded pos = world.isChunkLoaded pos := by
  cases e with
  | setBlock => exact isChunkLoaded_setBlockAt pos hcall
  | fillChunkSection => exact isChunkLoaded_fillChunkSection pos hcall

section Few
variable (few : ∀ pos i, (allowed pos i).length ≤ 255)
  (known : ∀ pos i, ∀ block ∈ allowed pos i, block.Known table)
include few known

/-- An edit in bounds is done exactly if its chunk is loaded, and then sets what it covers. -/
theorem Holds.edit (h : Holds table traits allowed world blocks) {e : PluginEdit} {block : BlockId}
    (bounds : e.inBounds = true) (uses : (e.call block).Uses table traits allowed) :
    ∃ world', world.call table traits (e.call block) = some (world', world.isChunkLoaded e.chunk) ∧
      ∃ blocks', Holds table traits allowed world' blocks' ∧
        (world.isChunkLoaded e.chunk = true → ∀ q,
          (e.Covers q → blocks' q = block) ∧ (¬e.Covers q → blocks' q = blocks q)) := by
  cases e with
  | setBlock pos =>
    obtain ⟨world', hset, h'⟩ := h.setBlockAt few known uses
    have hcoords : checkCoords pos = true := by
      simp only [PluginEdit.inBounds, Bool.not_eq_true', decide_eq_false_iff_not] at bounds
      rw [checkCoords, decide_eq_true_eq]
      omega
    rw [accepts, hcoords, Bool.true_and] at hset h'
    refine ⟨world', hset, _, h', ?_⟩
    intro hloaded q
    rw [show world.isChunkLoaded pos.chunk = true from hloaded, if_pos rfl]
    constructor
    · rintro rfl
      exact Function.update_self ..
    · intro other
      exact Function.update_of_ne other ..
  | fillChunkSection chunk sectionY =>
    obtain ⟨world', hfill, h'⟩ := h.fillChunkSection few known uses
    have within : sectionY.toNat < 17 := by
      simp only [PluginEdit.inBounds, Bool.not_eq_true', decide_eq_false_iff_not] at bounds
      omega
    rw [decide_eq_true within, Bool.and_true] at hfill h'
    refine ⟨world', hfill, _, h', ?_⟩
    intro hloaded q
    rw [show world.isChunkLoaded chunk = true from hloaded, if_pos rfl]
    exact ⟨fun covered => if_pos covered, fun other => if_neg other⟩

end Few

section Main
variable (table : VanillaIdTable) (traits : BlockTraits) (allowed : ChunkPosition → Nat → List BlockId)

/-- After any run of the world a plugin's edit in bounds is done exactly if its chunk is loaded;
then the plugin reads the state it set in the blocks covered, and in all the others what it read
before, up to the kinds of air. -/
theorem plugin_edit_reads_back (few : ∀ pos i, (allowed pos i).length ≤ 255)
    (known : ∀ pos i, ∀ block ∈ allowed pos i, block.Known table) (calls : List WorldCall)
    (uses : ∀ c ∈ calls, c.Uses table traits allowed) (e : PluginEdit) (state : BlockState)
    (bounds : e.inBounds = true) (valid : e.valid = true)
    (use : (e.call (state.blockId table)).Uses table traits allowed) :
    ∃ world log, run (logged table traits) calls (new, []) = some (world, log) ∧
      ∃ world', e.apply table traits world state =
          some (world', if world.isChunkLoaded e.chunk then .ok () else .error .chunkNotLoaded) ∧
        (world.isChunkLoaded e.chunk = true → ∀ player q before,
          (world.game table player).block q = some (.ok before) →
            ∃ after, (world'.game table player).block q = some (.ok after) ∧
              (e.Covers q → after.Same table state) ∧ (¬e.Covers q → after.Same table before)) := by
  obtain ⟨world, log, hrun, h⟩ := holds_run few known uses
  obtain ⟨world', hcall, blocks', h', sets⟩ := h.edit few known bounds use
  refine ⟨world, log, hrun, world', ?_, ?_⟩
  · rw [PluginEdit.apply, if_pos bounds, host_eq_call valid, hcall]
    rfl
  · intro hloaded player q before hbefore
    obtain ⟨haccepts, hvalid, same⟩ := h.of_block hbefore
    have haccepts' : world'.accepts q = true := by
      rw [accepts, isChunkLoaded_edit hcall]
      exact haccepts
    obtain ⟨after, hafter, same'⟩ := h'.block player haccepts' hvalid
    refine ⟨after, hafter, ?_, ?_⟩
    · intro covered
      rw [BlockState.same_iff, ← (sets hloaded q).1 covered]
      exact same'
    · intro other
      rw [(sets hloaded q).2 other] at same'
      rw [BlockState.same_iff]
      exact same'.trans same.symm

theorem plugin_edit_reads_back_stone :
    ∃ world log, run (logged .inOrder .solidGround) [.request ⟨0, 0⟩, .load ⟨0, 0⟩ .new] (new, []) =
        some (world, log) ∧
      ∃ world', (PluginEdit.setBlock ⟨0, ⟨64, by decide, by decide⟩, 0⟩).apply .inOrder .solidGround world
          ⟨1, by decide⟩ =
        some (world', if world.isChunkLoaded ⟨0, 0⟩ then .ok () else .error .chunkNotLoaded) := by
  obtain ⟨world, log, hrun, world', happly, -⟩ := plugin_edit_reads_back .inOrder .solidGround
    (fun _ _ => [BlockState.blockId .inOrder ⟨1, by decide⟩]) (fun _ _ => by decide)
    (fun _ _ => by simpa using ⟨_, BlockState.vanillaId_blockId .inOrder ⟨1, by decide⟩⟩)
    [.request ⟨0, 0⟩, .load ⟨0, 0⟩ .new] (by
      simp only [List.forall_mem_cons, List.not_mem_nil, false_implies, implies_true, and_true]
      exact ⟨trivial, WorldCall.uses_load_new ..⟩)
    (.setBlock ⟨0, ⟨64, by decide, by decide⟩, 0⟩) ⟨1, by decide⟩ rfl rfl
    (by simp [PluginEdit.call, WorldCall.Uses])
  exact ⟨world, log, hrun, world', happly⟩

/-- After any run of the world the snapshot of a moved player saves, in each cell, what the state set
last there is saved as, if its chunk is loaded; the other cells keep what they held. -/
theorem snapshot_shows_last_set (few : ∀ pos i, (allowed pos i).length ≤ 255)
    (known : ∀ pos i, ∀ block ∈ allowed pos i, block.Known table) (calls : List WorldCall)
    (uses : ∀ c ∈ calls, c.Uses table traits allowed) (profile : Software.Profile)
    (plugin : FpgaPlugin) (pos : BlockPosition) (moved : plugin.chunkCenter ≠ some pos)
    (hx : -33554400 ≤ pos.x.val ∧ pos.x.val ≤ 33554400) (hy : -2016 ≤ pos.y.val ∧ pos.y.val ≤ 2016)
    (hz : -33554400 ≤ pos.z.val ∧ pos.z.val ≤ 33554400) :
    ∃ world log, run (logged table traits) calls (new, []) = some (world, log) ∧
      ∃ data, plugin.saveChunkLocal profile (world.game table (some pos)) =
          some (⟨data, some pos⟩, some data) ∧
        ∀ v (inside : v.Inside), ∃ p state, pos.Displaced v p ∧
          (world.accepts p = true → (state.blockId table).Same (WorldCall.lastSet table log p)) ∧
          data (v.cell inside) =
            if world.accepts p then savedBlock state else plugin.chunkData (v.cell inside) := by
  obtain ⟨world, log, hrun, h⟩ := holds_run few known uses
  have result (v : Offset) (inside : v.Inside) : ∃ p result, pos.Displaced v p ∧ p.valid = true ∧
      (world.game table (some pos)).block p = some result := by
    obtain ⟨p, hp, valid⟩ := exists_displaced hx hy hz inside
    cases haccepts : world.accepts p with
    | true =>
      obtain ⟨state, hblock, -⟩ := h.block (some pos) haccepts valid
      exact ⟨p, _, hp, valid, hblock⟩
    | false =>
      obtain ⟨error, hblock⟩ := h.block_error (some pos) haccepts valid
      exact ⟨p, _, hp, valid, hblock⟩
  obtain ⟨data, hsave⟩ := FpgaPlugin.exists_saved profile (world.game table (some pos)) plugin rfl moved
    fun v inside => by
      obtain ⟨p, r, hp, -, hblock⟩ := result v inside
      exact ⟨p, r, hp, hblock⟩
  refine ⟨world, log, hrun, data, hsave, ?_⟩
  intro v inside
  obtain ⟨p, r, hp, valid, hblock⟩ := result v inside
  by_cases haccepts : world.accepts p = true
  · obtain ⟨state, hread, same⟩ := h.block (some pos) haccepts valid
    refine ⟨p, state, hp, fun _ => same, ?_⟩
    rw [if_pos haccepts]
    exact FpgaPlugin.saved_cell inside rfl hsave moved hp hread
  · obtain ⟨error, hread⟩ := h.block_error (some pos) (Bool.eq_false_iff.mpr haccepts) valid
    refine ⟨p, ⟨0, by decide⟩, hp, fun accepted => absurd accepted haccepts, ?_⟩
    have hcell := FpgaPlugin.saveCell_of_saved rfl hsave moved (v.cell inside)
    rw [saveCell_of_error (recenter_of_displaced profile ((offset_cell inside).symm ▸ hp)) hread] at hcell
    rw [if_neg haccepts]
    exact (Option.some.inj hcell).symm

theorem snapshot_shows_last_set_stone :
    ∃ world log, run (logged .inOrder .solidGround)
        [.request ⟨0, 0⟩, .load ⟨0, 0⟩ .new,
          .setBlock ⟨0, ⟨63, by decide, by decide⟩, 0⟩ ⟨.stone, 0⟩] (new, []) = some (world, log) ∧
      ∃ data, FpgaPlugin.enable.saveChunkLocal .debug
          (world.game .inOrder (some ⟨0, ⟨64, by decide, by decide⟩, 0⟩)) =
        some (⟨data, some ⟨0, ⟨64, by decide, by decide⟩, 0⟩⟩, some data) := by
  obtain ⟨world, log, hrun, data, hsave, -⟩ := snapshot_shows_last_set .inOrder .solidGround
    (fun _ _ => [⟨.stone, 0⟩]) (fun _ _ => by decide) (fun _ _ => by simp [BlockId.known_stone])
    [.request ⟨0, 0⟩, .load ⟨0, 0⟩ .new, .setBlock ⟨0, ⟨63, by decide, by decide⟩, 0⟩ ⟨.stone, 0⟩]
    (by
      simp only [List.forall_mem_cons, List.not_mem_nil, false_implies, implies_true, and_true]
      exact ⟨trivial, WorldCall.uses_load_new .., .inr (List.mem_singleton_self _)⟩)
    .debug .enable ⟨0, ⟨64, by decide, by decide⟩, 0⟩ (Option.some_ne_none _).symm (by decide) (by decide)
    (by decide)
  exact ⟨world, log, hrun, data, hsave⟩

end Main
end World
end FpgaCraft.Server
