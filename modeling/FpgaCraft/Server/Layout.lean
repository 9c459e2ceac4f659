import FpgaCraft.Server.StaleCells

/-! ## The exporter and the software cache

`save_chunk_local` counts the cells and divides out their offsets, `MockCache::query` packs an
offset into the number of its cell. They are inverse to each other. -/
namespace FpgaCraft.Software

def Block.named : Server.Block → Block
  | .air => .air
  | .stone => .stone
  | .grass => .grass
  | .dirt => .dirt
  | .cobblestone => .cobblestone
  | .oakPlanks => .oakPlanks
  | .sprucePlanks => .sprucePlanks
  | .birchPlanks => .birchPlanks
  | .water => .water
  | .sand => .sand
  | .gravel => .gravel
  | .oakLog => .oakLog
  | .spruceLog => .spruceLog
  | .birchLog => .birchLog
  | .oakLeaves => .oakLeaves
  | .spruceLeaves => .spruceLeaves
  | .birchLeaves => .birchLeaves
  | .glass => .glass

@[simp] theorem Block.ofByte_toByte (block : Server.Block) :
    Block.ofByte block.toByte = .named block := by
  cases block <;> rfl

def Vec3i.offset (v : Vec3i) : Server.Offset := ⟨v.x.val, v.y.val, v.z.val⟩

namespace MockCache

theorem InBounds.inside {v : Vec3i} (inside : InBounds v) : v.offset.Inside := inside

theorem cellIndex_eq_cell {v : Vec3i} (inside : InBounds v) :
    cellIndex v inside = v.offset.cell inside.inside := by
  obtain ⟨hx, hy, hz⟩ := id inside
  apply Fin.ext
  simp only [cellIndex, Server.Offset.cell, Vec3i.offset, SIZE, Server.CHUNK_SIZE]
  omega

theorem offset_cellIndex {v : Vec3i} (inside : InBounds v) :
    Server.offset (cellIndex v inside) = v.offset := by
  rw [cellIndex_eq_cell]
  exact Server.offset_cell inside.inside

theorem cellIndex_injective {v w : Vec3i} (hv : InBounds v) (hw : InBounds w)
    (same : cellIndex v hv = cellIndex w hw) : v = w := by
  have decoded := congrArg (fun i => Server.offset (Fin.val i)) same
  rw [offset_cellIndex, offset_cellIndex] at decoded
  obtain ⟨hx, hy, hz⟩ := Server.Offset.mk.inj decoded
  exact Vec3i.ext (Library.Signed.ext hx) (Library.Signed.ext hy) (Library.Signed.ext hz)

end MockCache
end FpgaCraft.Software

namespace FpgaCraft.Server
open Library
open Software (MockCache Vec3i)

/-- For every player and world that is known in the whole window: the call returns, and the
cache that includes what it saved answers each index with the world's block there, each from
a cell of its own, and every index outside with none. -/
theorem exporter_and_cache_agree (profile mockProfile : Software.Profile) (game : Game)
    (plugin : FpgaPlugin) (pos : BlockPosition) (world : BlockPosition → Block)
    (hplayer : game.firstPlayer = some pos) (moved : plugin.chunkCenter ≠ some pos)
    (window : ∀ v : Offset, v.Inside → ∃ p state, pos.Displaced v p ∧
      game.block p = some (.ok state) ∧ savedBlock state = world p) :
    (∃ data, plugin.saveChunkLocal profile game = some (⟨data, some pos⟩, some data) ∧
      ∀ v : Vec3i, v.x.val < 32736 → v.y.val < 32736 → v.z.val < 32736 →
        (MockCache.InBounds v → ∃ p, pos.Displaced v.offset p ∧
          (MockCache.ofChunkData data).query mockProfile v = some (some (.named (world p)))) ∧
        (¬MockCache.InBounds v → (MockCache.ofChunkData data).query mockProfile v = some none)) ∧
    ∀ (v w : Vec3i) (hv : MockCache.InBounds v) (hw : MockCache.InBounds w),
      (∀ ram : MockCache, ram.query mockProfile v = some (some (ram.chunk (MockCache.cellIndex v hv)))) ∧
        (MockCache.cellIndex v hv = MockCache.cellIndex w hw → v = w) := by
  refine ⟨?_, fun v w hv hw => ⟨fun ram => ?_, MockCache.cellIndex_injective hv hw⟩⟩
  · obtain ⟨data, hsave⟩ := FpgaPlugin.exists_saved profile game plugin hplayer moved
      fun v inside => by
        obtain ⟨p, state, hp, hblock, -⟩ := window v inside
        exact ⟨p, .ok state, hp, hblock⟩
    refine ⟨data, hsave, fun v hx hy hz => ?_⟩
    rw [MockCache.query_of_range _ _ _ hx hy hz]
    refine ⟨fun inside => ?_, fun outside => by rw [dif_neg outside]⟩
    obtain ⟨p, state, hp, hblock, named⟩ := window v.offset inside.inside
    refine ⟨p, hp, ?_⟩
    have hcell := FpgaPlugin.saved_cell inside.inside hplayer hsave moved hp hblock
    rw [dif_pos inside, MockCache.cellIndex_eq_cell, ← named, ← hcell, ← Software.Block.ofByte_toByte]
    rfl
  · obtain ⟨hx, hy, hz⟩ := id hv
    rw [MockCache.query_of_range _ _ _ (by omega) (by omega) (by omega), dif_pos hv]

theorem exporter_and_cache_agree_stone :
    ∃ data, FpgaPlugin.enable.saveChunkLocal .debug
        (stoneWorld ⟨0, ⟨64, by decide, by decide⟩, 0⟩) =
      some (⟨data, some ⟨0, ⟨64, by decide, by decide⟩, 0⟩⟩, some data) ∧
        ∀ v : Vec3i, v.x.val < 32736 → v.y.val < 32736 → v.z.val < 32736 →
          (MockCache.InBounds v → ∃ p,
            BlockPosition.Displaced ⟨0, ⟨64, by decide, by decide⟩, 0⟩ v.offset p ∧
              (MockCache.ofChunkData data).query .debug v = some (some (.named .stone))) ∧
          (¬MockCache.InBounds v → (MockCache.ofChunkData data).query .debug v = some none) :=
  (exporter_and_cache_agree .debug .debug _ .enable ⟨0, ⟨64, by decide, by decide⟩, 0⟩
    (fun _ => .stone) rfl (Option.some_ne_none _).symm fun v inside => by
      obtain ⟨p, hp, hblock⟩ := stoneWorld_near ⟨0, ⟨64, by decide, by decide⟩, 0⟩ (by decide)
        (by decide) (by decide) v inside
      exact ⟨p, stoneState, hp, hblock, by decide⟩).1

end FpgaCraft.Server
