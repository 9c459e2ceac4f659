import FpgaCraft.Server.Window

/-! ## The names of saved blocks

`save_chunk_local` takes the vanilla id of a state for the id of a kind. The two numberings
part after the first states: most blocks are saved as another one, or as air. -/
namespace FpgaCraft.Server
open Library

/-! ### Kinds of states -/

theorem Block.ofKind_of_le {kind : BlockKind} (h : 68 ≤ kind.number.val) : ofKind kind = .air := by
  unfold ofKind
  split <;> first | rfl | exact absurd h (by decide)

theorem BlockId.kind_of_vanillaId {table : VanillaIdTable} {block : BlockId} {id : BitVec 16}
    (h : block.vanillaId table = some id) :
    ∃ state : BlockState, state.id = id ∧ state.kind = block.kind := by
  have hmem : id.toNat ∈ (table.row block.kind).map BitVec.toNat :=
    List.mem_map_of_mem (List.mem_of_getElem? h)
  rw [(table.states block.kind).mem_iff, List.mem_range'_1] at hmem
  obtain ⟨lower, upper⟩ := hmem
  have hsum := runStart_add_le stateCounts block.kind.number
  rw [sum_stateCounts] at hsum
  refine ⟨⟨id, by omega⟩, rfl, ?_⟩
  exact congrArg BlockKind.mk (Fin.ext (runIndex_of_mem lower upper))

theorem Game.kind_of_block {game : Game} {p : BlockPosition} {block : BlockId} {state : BlockState}
    (hworld : game.blockAt p = some block) (h : game.block p = some (.ok state)) :
    state.kind = block.kind := by
  unfold Game.block at h
  split at h
  · cases h
  · obtain ⟨result, hget, h⟩ := Option.bind_eq_some_iff.mp h
    unfold blockGet at hget
    split at hget
    · rw [hworld] at hget
      obtain ⟨id, hid, rfl⟩ := Option.map_eq_some_iff.mp hget
      rw [BlockGetResult.get_new] at h
      obtain ⟨same, hsame, heq⟩ := Option.map_eq_some_iff.mp h
      obtain rfl := Except.ok.inj heq
      obtain ⟨known, rfl, hkind⟩ := BlockId.kind_of_vanillaId hid
      rw [← hkind]
      unfold BlockState.fromId at hsame
      rw [dif_pos known.valid] at hsame
      rw [← Option.some.inj hsame]
    · cases hget

/-! ### The two numberings -/

def misnumbered : List (Nat × Nat) :=
  [(9, 10), (12, 17), (26, 26), (28, 28), (30, 30), (34, 49), (59, 61), (66, 68), (73, 81), (145, 186),
    (231, 231)]

def Misnumbered (id : Nat) : Prop := ∃ r ∈ misnumbered, r.1 ≤ id ∧ id ≤ r.2

instance (id : Nat) : Decidable (Misnumbered id) :=
  inferInstanceAs (Decidable (∃ r ∈ misnumbered, r.1 ≤ id ∧ id ≤ r.2))

theorem Misnumbered.le {id : Nat} (h : Misnumbered id) : id ≤ 231 := by
  obtain ⟨r, hr, -, upper⟩ := h
  have last : ∀ r ∈ misnumbered, r.2 ≤ 231 := by decide
  exact upper.trans (last r hr)

theorem valid_of_small {n : Nat} (h : n < 232) : (BitVec.ofNat 16 n).toNat < 17112 := by
  rw [BitVec.toNat_ofNat]
  omega

theorem savedBlock_small : ∀ n (h : n < 232),
    savedBlock ⟨BitVec.ofNat 16 n, valid_of_small h⟩ =
      .ofKind (BlockState.kind ⟨BitVec.ofNat 16 n, valid_of_small h⟩) ↔ ¬Misnumbered n := by
  decide +kernel

theorem savedBlock_large {state : BlockState} (h : 232 ≤ state.id.toNat) :
    savedBlock state = .air ∧ Block.ofKind state.kind = .air := by
  constructor
  · unfold savedBlock BlockKind.fromId
    split
    · refine Block.ofKind_of_le ?_
      change 68 ≤ (state.id.setWidth 32).toNat
      rw [BitVec.toNat_setWidth]
      have := state.valid
      omega
    · rfl
  · refine Block.ofKind_of_le ?_
    have hsum : (stateCounts.take 68).sum = 232 := by decide
    have hlength : (stateCounts.take 68).length = 68 := by decide
    have := le_runIndex (stateCounts.take 68) (stateCounts.drop 68) (hsum.trans_le h)
    rwa [hlength, List.take_append_drop] at this

theorem savedBlock_eq_iff (state : BlockState) :
    savedBlock state = .ofKind state.kind ↔ ¬Misnumbered state.id.toNat := by
  rcases Nat.lt_or_ge state.id.toNat 232 with small | large
  · have h := savedBlock_small state.id.toNat small
    simpa only [BitVec.ofNat_toNat, BitVec.setWidth_eq] using h
  · obtain ⟨saved, named⟩ := savedBlock_large large
    rw [saved, named]
    exact iff_of_true rfl fun h => absurd h.le (by omega)

/-- Of the states of the palette only stone and snowy grass are saved as what they are. -/
theorem savedBlock_of_palette (state : BlockState) (h : Block.ofKind state.kind ≠ .air) :
    savedBlock state = .ofKind state.kind ↔ state.id = 1 ∨ state.id = 8 := by
  rcases Nat.lt_or_ge state.id.toNat 232 with small | large
  · have palette : ∀ n (hn : n < 232),
        Block.ofKind (BlockState.kind ⟨BitVec.ofNat 16 n, valid_of_small hn⟩) ≠ .air →
          (¬Misnumbered n ↔ BitVec.ofNat 16 n = 1 ∨ BitVec.ofNat 16 n = 8) := by
      decide +kernel
    have := palette state.id.toNat small
    simp only [BitVec.ofNat_toNat, BitVec.setWidth_eq] at this
    rw [savedBlock_eq_iff, this h]
  · exact absurd (savedBlock_large large).2 h

/-! ### The cells of a snapshot -/

/-- For every world, call and cell whose block the plugin can get: after a call with a moved
player the cell has the name of the world's block unless its vanilla id is misnumbered;
otherwise the cell is left as it was. -/
theorem snapshot_names_block_iff (profile : Software.Profile) (game : Game)
    (plugin plugin' : FpgaPlugin) (saved : Option ChunkData) (pos p : BlockPosition) (v : Offset)
    (inside : v.Inside) (block : BlockId) (state : BlockState)
    (hplayer : game.firstPlayer = some pos)
    (hsave : plugin.saveChunkLocal profile game = some (plugin', saved))
    (hp : pos.Displaced v p) (hworld : game.blockAt p = some block)
    (hblock : game.block p = some (.ok state)) :
    plugin'.chunkData (v.cell inside) = .ofKind block.kind ↔
      if plugin.chunkCenter = some pos then
        plugin.chunkData (v.cell inside) = .ofKind block.kind
      else ¬Misnumbered state.id.toNat := by
  split
  · rename_i unmoved
    unfold FpgaPlugin.saveChunkLocal at hsave
    rw [hplayer] at hsave
    dsimp only at hsave
    rw [if_pos unmoved] at hsave
    obtain ⟨rfl, -⟩ := Prod.mk.inj (Option.some.inj hsave)
    exact Iff.rfl
  · rename_i moved
    rw [FpgaPlugin.saved_cell inside hplayer hsave moved hp hblock, ← Game.kind_of_block hworld hblock]
    exact savedBlock_eq_iff state

/-! ### A world of one block -/

def VanillaIdTable.inOrder : VanillaIdTable where
  row kind := (List.range' (runStart stateCounts kind.number)
    (stateCounts.getD kind.number 0)).map (BitVec.ofNat 16)
  states kind := by
    rw [List.map_map, List.map_congr_left (g := id), List.map_id]
    intro n hn
    have hsum := runStart_add_le stateCounts kind.number
    rw [sum_stateCounts] at hsum
    rw [List.mem_range'_1] at hn
    rw [Function.comp_apply, BitVec.toNat_ofNat, id]
    omega

def dirtWorld : Game :=
  ⟨.inOrder, fun _ => some ⟨.dirt, 0⟩, some ⟨0, ⟨64, by decide, by decide⟩, 0⟩⟩

def dirtState : BlockState := ⟨10, by decide⟩

theorem dirtWorld_block {p : BlockPosition} (valid : p.valid = true)
    (height : 0 ≤ p.y.val ∧ p.y.val < 256) : dirtWorld.block p = some (.ok dirtState) := by
  have hid : BlockId.vanillaId .inOrder ⟨.dirt, 0⟩ = some 10 := by decide +kernel
  exact Game.block_of_uniform dirtWorld (fun _ => rfl) hid (by decide) valid height

theorem dirtWorld_near (v : Offset) (inside : v.Inside) :
    ∃ p : BlockPosition, BlockPosition.Displaced ⟨0, ⟨64, by decide, by decide⟩, 0⟩ v p ∧
      dirtWorld.block p = some (.ok dirtState) :=
  Game.near_of_uniform (fun _ => dirtWorld_block) (by decide) (by decide) (by decide) v inside

theorem exists_snapshot_of_dirt :
    ∃ plugin saved, FpgaPlugin.enable.saveChunkLocal .debug dirtWorld = some (plugin, saved) := by
  obtain ⟨data, hsave⟩ := FpgaPlugin.exists_saved .debug dirtWorld .enable rfl
    (Option.some_ne_none _).symm fun v inside => (dirtWorld_near v inside).imp fun p h => ⟨.ok dirtState, h⟩
  exact ⟨_, _, hsave⟩

theorem snapshot_names_block_iff_dirt :
    ∃ plugin saved p, ∃ inside : Offset.Inside ⟨0, -1, 0⟩,
      FpgaPlugin.enable.saveChunkLocal .debug dirtWorld = some (plugin, saved) ∧
        dirtWorld.block p = some (.ok dirtState) ∧
        (plugin.chunkData (Offset.cell ⟨0, -1, 0⟩ inside) = .ofKind .dirt ↔
          if FpgaPlugin.enable.chunkCenter = some ⟨0, ⟨64, by decide, by decide⟩, 0⟩ then
            FpgaPlugin.enable.chunkData (Offset.cell ⟨0, -1, 0⟩ inside) = .ofKind .dirt
          else ¬Misnumbered dirtState.id.toNat) := by
  obtain ⟨plugin, saved, hsave⟩ := exists_snapshot_of_dirt
  have inside : Offset.Inside ⟨0, -1, 0⟩ := by unfold Offset.Inside; decide
  obtain ⟨p, hp, hblock⟩ := dirtWorld_near ⟨0, -1, 0⟩ inside
  exact ⟨plugin, saved, p, inside, hsave, hblock,
    snapshot_names_block_iff .debug dirtWorld .enable plugin saved _ p _ inside ⟨.dirt, 0⟩ dirtState
      rfl hsave hp rfl hblock⟩

/-- The first snapshot of the world of dirt shows air below the player. -/
theorem dirt_saved_as_air :
    ∃ plugin saved p, ∃ inside : Offset.Inside ⟨0, -1, 0⟩,
      FpgaPlugin.enable.saveChunkLocal .debug dirtWorld = some (plugin, saved) ∧
        BlockPosition.Displaced ⟨0, ⟨64, by decide, by decide⟩, 0⟩ ⟨0, -1, 0⟩ p ∧
        dirtWorld.block p = some (.ok dirtState) ∧ dirtState.kind = .dirt ∧
        plugin.chunkData (Offset.cell ⟨0, -1, 0⟩ inside) = .air ∧
        plugin.chunkData (Offset.cell ⟨0, -1, 0⟩ inside) ≠ .ofKind .dirt := by
  obtain ⟨plugin, saved, hsave⟩ := exists_snapshot_of_dirt
  have inside : Offset.Inside ⟨0, -1, 0⟩ := by unfold Offset.Inside; decide
  obtain ⟨p, hp, hblock⟩ := dirtWorld_near ⟨0, -1, 0⟩ inside
  have hcell := FpgaPlugin.saved_cell inside rfl hsave (Option.some_ne_none _).symm hp hblock
  have hair : savedBlock dirtState = .air := by decide
  refine ⟨plugin, saved, p, inside, hsave, hp, hblock, by decide +kernel, hcell.trans hair, ?_⟩
  rw [hcell, hair]
  decide

end FpgaCraft.Server
