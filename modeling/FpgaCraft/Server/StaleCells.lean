import FpgaCraft.Server.BlockNames

/-! ## What a snapshot remembers

A cell whose block the plugin cannot get keeps what an earlier snapshot put there, from
around another center. -/
namespace FpgaCraft.Server
open Library

variable {profile : Software.Profile} {game : Game} {pos : BlockPosition}

/-! ### When a lookup fails -/

/-- The position is within the height of the world, and in a chunk that is loaded. -/
def Game.Loaded (game : Game) (p : BlockPosition) : Prop :=
  (0 ≤ p.y.val ∧ p.y.val < 256) ∧ (game.blockAt p).isSome = true

theorem Game.block_eq_error_iff {p : BlockPosition} (answered : game.block p ≠ none) :
    (∃ error, game.block p = some (.error error)) ↔ ¬game.Loaded p := by
  unfold Game.block Loaded at *
  by_cases height : p.y.val < 0 ∨ (CHUNK_HEIGHT : Int) ≤ p.y.val
  · rw [if_pos height]
    simp only [CHUNK_HEIGHT] at height
    exact iff_of_true ⟨_, rfl⟩ fun h => by omega
  · rw [if_neg height] at answered ⊢
    simp only [CHUNK_HEIGHT] at height
    unfold blockGet at answered ⊢
    by_cases valid : p.valid = true
    · rw [if_pos valid] at answered ⊢
      cases hblock : game.blockAt p with
      | none => exact iff_of_true ⟨.chunkNotLoaded, rfl⟩ fun h => Bool.false_ne_true h.2
      | some block =>
        rw [hblock] at answered
        refine iff_of_false ?_ fun h => h ⟨by omega, rfl⟩
        rintro ⟨error, herror⟩
        obtain ⟨result, hresult, herror⟩ := Option.bind_eq_some_iff.mp herror
        obtain ⟨id, -, rfl⟩ := Option.map_eq_some_iff.mp hresult
        rw [BlockGetResult.get_new] at herror
        obtain ⟨state, -, herror⟩ := Option.map_eq_some_iff.mp herror
        cases herror
    · rw [if_neg valid] at answered
      exact absurd rfl answered

/-! ### Histories -/

namespace FpgaPlugin

/-- The plugin after calls of `save_chunk_local` in these worlds. -/
def after (profile : Software.Profile) (games : List Game) : Option FpgaPlugin :=
  games.foldlM (fun plugin game => (plugin.saveChunkLocal profile game).map Prod.fst) enable

def Forgets (profile : Software.Profile) (game : Game) : Prop :=
  ∀ (games games' : List Game) (plugin plugin' : FpgaPlugin), after profile games = some plugin →
    after profile games' = some plugin' → plugin.chunkCenter ≠ game.firstPlayer →
      plugin'.chunkCenter ≠ game.firstPlayer →
        plugin.saveChunkLocal profile game = plugin'.saveChunkLocal profile game

theorem forgets_of_loaded (hplayer : game.firstPlayer = some pos)
    (loaded : ∀ (i : Fin (CHUNK_SIZE * CHUNK_SIZE * CHUNK_SIZE)) p,
      recenter profile pos i = some p → game.Loaded p) :
    Forgets profile game := by
  intro games games' plugin plugin' _ _ moved moved'
  rw [hplayer] at moved moved'
  rw [saveChunkLocal_of_moved hplayer moved, saveChunkLocal_of_moved hplayer moved']
  refine congrArg (Option.bind · _) (fill_congr (fun i _ a b => ?_) fun i hi =>
    absurd (List.mem_finRange i) hi)
  cases hp : recenter profile pos i with
  | none => simp only [saveCell, hp, Option.bind_eq_bind, Option.bind_none]
  | some p =>
    cases hblock : game.block p with
    | none => simp only [saveCell, hp, hblock, Option.bind_eq_bind, Option.bind_some, Option.bind_none]
    | some result =>
      cases result with
      | ok state => rw [saveCell_of_ok hp hblock, saveCell_of_ok hp hblock]
      | error error =>
        exact absurd (loaded i p hp)
          ((Game.block_eq_error_iff (by rw [hblock]; exact Option.some_ne_none _)).mp ⟨error, hblock⟩)

theorem stale_cell {plugin plugin' : FpgaPlugin} {saved : Option ChunkData} {p : BlockPosition}
    {i : Fin (CHUNK_SIZE * CHUNK_SIZE * CHUNK_SIZE)} (hplayer : game.firstPlayer = some pos)
    (hsave : plugin.saveChunkLocal profile game = some (plugin', saved))
    (moved : plugin.chunkCenter ≠ some pos) (hp : recenter profile pos i = some p)
    (unloaded : ¬game.Loaded p) : plugin'.chunkData i = plugin.chunkData i := by
  have hcell := saveCell_of_saved hplayer hsave moved i
  have answered : game.block p ≠ none := fun h => by
    simp only [saveCell, hp, h, Option.bind_eq_bind, Option.bind_some, Option.bind_none] at hcell
    cases hcell
  obtain ⟨error, herror⟩ := (Game.block_eq_error_iff answered).mpr unloaded
  rw [saveCell_of_error hp herror] at hcell
  exact (Option.some.inj hcell).symm

end FpgaPlugin

/-! ### A world of stone -/

def stoneWorld (pos : BlockPosition) : Game :=
  ⟨.inOrder, fun _ => some ⟨.stone, 0⟩, some pos⟩

def stoneState : BlockState := ⟨1, by decide⟩

theorem stoneWorld_near (pos : BlockPosition) (hx : -33554400 ≤ pos.x.val ∧ pos.x.val ≤ 33554400)
    (hy : 32 ≤ pos.y.val ∧ pos.y.val ≤ 224) (hz : -33554400 ≤ pos.z.val ∧ pos.z.val ≤ 33554400)
    (v : Offset) (inside : v.Inside) :
    ∃ p, pos.Displaced v p ∧ (stoneWorld pos).block p = some (.ok stoneState) := by
  have hid : BlockId.vanillaId .inOrder ⟨.stone, 0⟩ = some 1 := by decide +kernel
  exact Game.near_of_uniform (fun _ => Game.block_of_uniform _ (fun _ => rfl) hid (by decide))
    hx hy hz v inside

theorem stone_snapshot (profile : Software.Profile) (center : BlockPosition) (hx : center.x = 0)
    (hy : 32 ≤ center.y.val ∧ center.y.val ≤ 224) (hz : center.z = 0) :
    ∃ data, FpgaPlugin.enable.saveChunkLocal profile (stoneWorld center) =
      some (⟨data, some center⟩, some data) ∧ ∀ i, data i = .stone := by
  have near := stoneWorld_near center (by rw [hx]; decide) hy (by rw [hz]; decide)
  have moved : FpgaPlugin.enable.chunkCenter ≠ some center := (Option.some_ne_none _).symm
  obtain ⟨data, hsave⟩ := FpgaPlugin.exists_saved profile (stoneWorld center) .enable rfl moved
    fun v inside => (near v inside).imp fun p h => ⟨.ok stoneState, h⟩
  refine ⟨data, hsave, fun i => ?_⟩
  obtain ⟨p, hp, hblock⟩ := near (offset i) (offset_inside i)
  have hcell := FpgaPlugin.saveCell_of_saved rfl hsave moved i
  rw [saveCell_of_ok (recenter_of_displaced profile hp) hblock] at hcell
  exact (Option.some.inj hcell).symm

theorem exists_stone (profile : Software.Profile) (pos : BlockPosition) :
    ∃ center data, center ≠ pos ∧
      FpgaPlugin.enable.saveChunkLocal profile (stoneWorld center) =
        some (⟨data, some center⟩, some data) ∧ ∀ i, data i = .stone := by
  by_cases below : pos.y.val = 64
  · obtain ⟨data, h⟩ := stone_snapshot profile ⟨0, ⟨65, by decide, by decide⟩, 0⟩ rfl (by decide) rfl
    refine ⟨_, data, ?_, h⟩
    rintro rfl
    exact absurd below (by decide)
  · obtain ⟨data, h⟩ := stone_snapshot profile ⟨0, ⟨64, by decide, by decide⟩, 0⟩ rfl (by decide) rfl
    refine ⟨_, data, ?_, h⟩
    rintro rfl
    exact below rfl

/-! ### Two histories -/

theorem FpgaPlugin.loaded_of_forgets (hplayer : game.firstPlayer = some pos)
    (returns : (enable.saveChunkLocal profile game).isSome = true) (forgets : Forgets profile game)
    {i : Fin (CHUNK_SIZE * CHUNK_SIZE * CHUNK_SIZE)} {p : BlockPosition}
    (hp : recenter profile pos i = some p) : game.Loaded p := by
  by_contra unloaded
  obtain ⟨⟨plugin, saved⟩, hsave⟩ := Option.isSome_iff_exists.mp returns
  obtain ⟨center, data, apart, hstone, stone⟩ := exists_stone profile pos
  have moved : enable.chunkCenter ≠ some pos := (Option.some_ne_none _).symm
  have moved' : (⟨data, some center⟩ : FpgaPlugin).chunkCenter ≠ some pos := fun h =>
    apart (Option.some.inj h)
  have hsame := forgets [] [stoneWorld center] enable ⟨data, some center⟩ rfl
    (by simp only [after, List.foldlM_cons, List.foldlM_nil, hstone, Option.map_some]; rfl)
    (hplayer ▸ moved) (hplayer ▸ moved')
  have fresh := stale_cell hplayer hsave moved hp unloaded
  have stale := stale_cell hplayer (hsame.symm.trans hsave) moved' hp unloaded
  have clash : Block.stone = Block.air := (stone i).symm.trans (stale.symm.trans fresh)
  cases clash

/-- For every world and center where the call returns: what it leaves is the same after any
two histories exactly when every position of the window is within the height of the world and
in a loaded chunk. -/
theorem snapshot_forgets_iff (profile : Software.Profile) (game : Game) (pos : BlockPosition)
    (hplayer : game.firstPlayer = some pos)
    (returns : (FpgaPlugin.enable.saveChunkLocal profile game).isSome = true) :
    FpgaPlugin.Forgets profile game ↔
      ∀ (i : Fin (CHUNK_SIZE * CHUNK_SIZE * CHUNK_SIZE)) p,
        recenter profile pos i = some p → game.Loaded p :=
  ⟨fun forgets _ _ hp => FpgaPlugin.loaded_of_forgets hplayer returns forgets hp,
    FpgaPlugin.forgets_of_loaded hplayer⟩

theorem snapshot_forgets_iff_dirt : FpgaPlugin.Forgets .debug dirtWorld := by
  obtain ⟨plugin, saved, hsave⟩ := exists_snapshot_of_dirt
  refine (snapshot_forgets_iff .debug dirtWorld ⟨0, ⟨64, by decide, by decide⟩, 0⟩ rfl
    (Option.isSome_iff_exists.mpr ⟨_, hsave⟩)).mpr fun i p hp => ?_
  obtain ⟨q, displaced, hblock⟩ := dirtWorld_near (offset i) (offset_inside i)
  obtain rfl : q = p := Option.some.inj ((recenter_of_displaced .debug displaced).symm.trans hp)
  by_contra unloaded
  have answered : dirtWorld.block q ≠ none := by
    rw [hblock]
    exact Option.some_ne_none _
  obtain ⟨error, herror⟩ := (Game.block_eq_error_iff answered).mpr unloaded
  cases hblock.symm.trans herror

def unloadedWorld : Game := ⟨.inOrder, fun _ => none, some ⟨0, ⟨66, by decide, by decide⟩, 0⟩⟩

theorem unloadedWorld_near (v : Offset) (inside : v.Inside) :
    ∃ p : BlockPosition, BlockPosition.Displaced ⟨0, ⟨66, by decide, by decide⟩, 0⟩ v p ∧
      unloadedWorld.block p = some (.error .chunkNotLoaded) := by
  refine Game.near_of_uniform (fun p valid height => ?_) (by decide) (by decide) (by decide) v inside
  unfold Game.block Game.blockGet
  rw [if_neg (by simp only [CHUNK_HEIGHT]; omega), if_pos valid]
  rfl

theorem unloadedWorld_saved {plugin : FpgaPlugin}
    (moved : plugin.chunkCenter ≠ unloadedWorld.firstPlayer) :
    plugin.saveChunkLocal .debug unloadedWorld =
      some (⟨plugin.chunkData, unloadedWorld.firstPlayer⟩, some plugin.chunkData) := by
  obtain ⟨data, hsave⟩ := FpgaPlugin.exists_saved .debug unloadedWorld plugin rfl moved
    fun v inside => (unloadedWorld_near v inside).imp fun p h => ⟨.error .chunkNotLoaded, h⟩
  have same : data = plugin.chunkData := by
    funext i
    obtain ⟨p, hp, hblock⟩ := unloadedWorld_near (offset i) (offset_inside i)
    have hcell := FpgaPlugin.saveCell_of_saved rfl hsave moved i
    rw [saveCell_of_error (recenter_of_displaced .debug hp) hblock] at hcell
    exact (Option.some.inj hcell).symm
  rw [hsave, same]
  rfl

theorem unloaded_shows_old_chunk :
    ∃ old : FpgaPlugin,
      FpgaPlugin.after .debug [stoneWorld ⟨0, ⟨65, by decide, by decide⟩, 0⟩] = some old ∧
        old.saveChunkLocal .debug unloadedWorld =
          some (⟨fun _ => .stone, unloadedWorld.firstPlayer⟩, some fun _ => .stone) ∧
        FpgaPlugin.enable.saveChunkLocal .debug unloadedWorld =
          some (⟨fun _ => .air, unloadedWorld.firstPlayer⟩, some fun _ => .air) ∧
        ¬FpgaPlugin.Forgets .debug unloadedWorld := by
  obtain ⟨data, hstone, stone⟩ := stone_snapshot .debug ⟨0, ⟨65, by decide, by decide⟩, 0⟩ rfl
    (by decide) rfl
  obtain rfl : data = fun _ => .stone := funext stone
  have reached : FpgaPlugin.after .debug [stoneWorld ⟨0, ⟨65, by decide, by decide⟩, 0⟩] =
      some ⟨fun _ => .stone, some ⟨0, ⟨65, by decide, by decide⟩, 0⟩⟩ := by
    simp only [FpgaPlugin.after, List.foldlM_cons, List.foldlM_nil, hstone, Option.map_some]
    rfl
  have moved : some (⟨0, ⟨65, by decide, by decide⟩, 0⟩ : BlockPosition) ≠
      unloadedWorld.firstPlayer := by decide
  have fresh : FpgaPlugin.enable.chunkCenter ≠ unloadedWorld.firstPlayer := by decide
  refine ⟨_, reached, unloadedWorld_saved moved, unloadedWorld_saved fresh, fun forgets => ?_⟩
  have same := forgets _ [] _ _ reached rfl moved fresh
  rw [unloadedWorld_saved moved, unloadedWorld_saved fresh] at same
  have clash := congrFun (Option.some.inj (Prod.mk.inj (Option.some.inj same)).2) 0
  cases clash

end FpgaCraft.Server
