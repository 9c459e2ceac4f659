import FpgaCraft.Server.BlockStore

/-! Runs of edits of a chunk section, against the map from coordinates to blocks that the
section is for. -/
namespace FpgaCraft.Server
open Library

abbrev Cells : Type := Nat → Nat → Nat → BlockId

namespace Cells

def set (cells : Cells) (x y z : Nat) (block : BlockId) : Cells :=
  fun x' y' z' => if x' = x ∧ y' = y ∧ z' = z then block else cells x' y' z'

def flat (cells : Cells) : List BlockId :=
  (List.range SECTION_VOLUME).map fun i => cells (i % 16) (i / 256) (i / 16 % 16)

@[simp] theorem length_flat (cells : Cells) : cells.flat.length = SECTION_VOLUME := by
  simp [flat]

theorem getElem?_flat (cells : Cells) {x y z : Nat} (hx : x < 16) (hy : y < 16) (hz : z < 16) :
    cells.flat[y * 256 + (z * 16 + x)]? = some (cells x y z) := by
  have low : (y * 256 + (z * 16 + x)) % 16 = x := by omega
  have high : (y * 256 + (z * 16 + x)) / 256 = y := by omega
  have middle : (y * 256 + (z * 16 + x)) / 16 % 16 = z := by omega
  rw [flat, List.getElem?_map, List.getElem?_range (by simp only [SECTION_VOLUME]; omega)]
  simp only [Option.map_some, low, high, middle]

theorem flat_set (cells : Cells) {x y z : Nat} (hx : x < 16) (hy : y < 16) (hz : z < 16)
    (block : BlockId) : (cells.set x y z block).flat = cells.flat.set (y * 256 + (z * 16 + x)) block := by
  apply List.ext_getElem?
  intro i
  simp only [flat, List.getElem?_set, List.getElem?_map, List.length_map, List.length_range]
  by_cases hi : i < SECTION_VOLUME
  · have same : (i % 16 = x ∧ i / 256 = y ∧ i / 16 % 16 = z) ↔ y * 256 + (z * 16 + x) = i := by
      simp only [SECTION_VOLUME] at hi
      omega
    rw [List.getElem?_range hi]
    simp only [Option.map_some, set, same]
    split
    · rename_i h
      simp [h, hi]
    · rfl
  · have outside : y * 256 + (z * 16 + x) ≠ i := by
      simp only [SECTION_VOLUME] at hi
      omega
    have past : (List.range SECTION_VOLUME)[i]? = none := List.getElem?_eq_none (by simpa using hi)
    simp [outside, past]

theorem flat_congr {cells cells' : Cells}
    (h : ∀ x y z, x < 16 ∧ y < 16 ∧ z < 16 → cells x y z = cells' x y z) : cells.flat = cells'.flat := by
  simp only [flat]
  apply List.map_congr_left
  intro i hi
  rw [List.mem_range, SECTION_VOLUME] at hi
  apply h
  omega

theorem mem_flat (cells : Cells) {x y z : Nat} (inside : x < 16 ∧ y < 16 ∧ z < 16) :
    cells x y z ∈ cells.flat :=
  List.mem_of_getElem? (cells.getElem?_flat inside.1 inside.2.1 inside.2.2)

theorem flat_const (block : BlockId) : flat (fun _ _ _ => block) = List.replicate SECTION_VOLUME block := by
  simp [flat]

end Cells

inductive Edit where
  | set (x y z : Nat) (block : BlockId)
  | fill (block : BlockId)

namespace Edit

def block : Edit → BlockId
  | .set _ _ _ block => block
  | .fill block => block

def apply : Edit → Cells → Cells
  | .set x y z block, cells => cells.set x y z block
  | .fill block, _ => fun _ _ _ => block

theorem apply_congr (e : Edit) {cells cells' : Cells} {x y z : Nat}
    (h : cells x y z = cells' x y z) : e.apply cells x y z = e.apply cells' x y z := by
  cases e with
  | fill block => rfl
  | set x' y' z' block => simp [apply, Cells.set, h]

def lastSet (edits : List Edit) : Cells :=
  edits.foldl (fun cells edit => edit.apply cells) fun _ _ _ => .air

end Edit

namespace BlockStore
variable {table : VanillaIdTable} {store : BlockStore} {cells : Cells} {block : BlockId}

variable (table) in
/-- A setter that returns `None` leaves the store as it is. -/
def edit : Edit → BlockStore → Option BlockStore
  | .set x y z block, store => (store.setBlockAt table x y z block).map fun store' => store'.getD store
  | .fill block, store => store.fill block

theorem Holds.blockAt (h : Holds table store cells.flat) (x y z : Nat) :
    store.blockAt table x y z =
      some (if x < 16 ∧ y < 16 ∧ z < 16 then some (cells x y z) else none) := by
  by_cases inside : x < 16 ∧ y < 16 ∧ z < 16
  · obtain ⟨hx, hy, hz⟩ := inside
    rw [if_pos ⟨hx, hy, hz⟩, BlockStore.blockAt, blockIndex_eq hx hy hz]
    simp only [h.blockAtIndex, cells.getElem?_flat hx hy hz, Option.map_some]
  · rw [if_neg inside, BlockStore.blockAt, blockIndex_eq_none inside]

def applied (store : BlockStore) (table : VanillaIdTable) (cells : Cells) : Edit → Cells
  | .set x y z block => if x < 16 ∧ y < 16 ∧ z < 16
      then cells.set x y z (store.written table block) else cells
  | .fill block => fun _ _ _ => block

/-- The air count is at least the number of cells that hold air. -/
structure Counted (table : VanillaIdTable) (store : BlockStore) (cells : Cells) : Prop where
  holds : Holds table store cells.flat
  air : cells.flat.countP BlockId.isAir ≤ store.airBlockCount

theorem counted_new : Counted table new fun _ _ _ => .air := by
  constructor
  · rw [Cells.flat_const]
    exact holds_new
  · exact List.countP_le_length.trans (Cells.length_flat _).le

variable (table store block) in
theorem countP_set_written_le (content : List BlockId) {index : Nat} (hi : index < content.length) :
    (content.set index (store.written table block)).countP BlockId.isAir ≤
      (content.set index block).countP BlockId.isAir := by
  have written := countP_set_toNat BlockId.isAir hi (store.written table block)
  have told := countP_set_toNat BlockId.isAir hi block
  have less : (store.written table block).isAir.toNat ≤ block.isAir.toNat := by
    apply Bool.toNat_le_toNat
    exact isAir_of_written
  omega

theorem getD_setBlockAt {x y z : Nat} (inside : x < 16 ∧ y < 16 ∧ z < 16) :
    edit table (.set x y z block) store =
      store.setBlockAtIndex table (y * 256 + (z * 16 + x)) block := by
  rw [edit, BlockStore.setBlockAt, blockIndex_eq inside.1 inside.2.1 inside.2.2, Option.map_map]
  exact Option.map_id'

theorem setBlockAt_of_edit {x y z : Nat} (inside : x < 16 ∧ y < 16 ∧ z < 16) {store' : BlockStore}
    (h : edit table (.set x y z block) store = some store') :
    store.setBlockAt table x y z block = some (some store') := by
  rw [getD_setBlockAt inside] at h
  rw [BlockStore.setBlockAt, blockIndex_eq inside.1 inside.2.1 inside.2.2]
  simp only [h, Option.map_some]

theorem edit_outside {x y z : Nat} (outside : ¬(x < 16 ∧ y < 16 ∧ z < 16)) :
    edit table (.set x y z block) store = some store := by
  rw [edit, BlockStore.setBlockAt, blockIndex_eq_none outside]
  rfl

theorem index_lt {x y z : Nat} (inside : x < 16 ∧ y < 16 ∧ z < 16) :
    y * 256 + (z * 16 + x) < SECTION_VOLUME := by
  simp only [SECTION_VOLUME]
  omega

/-- An edit with a known block changes the map as `applied` says. The air count stays exact if
the block is the one that is written. -/
theorem Counted.edit (h : Counted table store cells) (e : Edit) (hblock : e.block.Known table) :
    ∃ store', BlockStore.edit table e store = some store' ∧
      Counted table store' (store.applied table cells e) ∧
      (∀ other ∈ store'.entries, other ∈ store.entries ∨ other = .air ∨ other = e.block) ∧
      (store.overflows e.block = false → store.Narrow → store'.Narrow) ∧
      (store.written table e.block = e.block →
        cells.flat.countP BlockId.isAir = store.airBlockCount →
        (store.applied table cells e).flat.countP BlockId.isAir = store'.airBlockCount) := by
  cases e with
  | fill block =>
    obtain ⟨store', hfill, hholds, hentries, hnarrow, hair⟩ := h.holds.fill hblock
    rw [← Cells.flat_const] at hholds hair
    refine ⟨store', hfill, ⟨hholds, hair.ge⟩, ?_, fun _ => hnarrow, fun _ _ => hair.symm⟩
    exact fun other hother => .inr (hentries other hother)
  | set x y z block =>
    replace hblock : block.Known table := hblock
    by_cases inside : x < 16 ∧ y < 16 ∧ z < 16
    · obtain ⟨store', hset, hholds, hentries, hgrown, hair⟩ :=
        h.holds.setBlockAtIndex h.air hblock (index_lt inside)
      have least := countP_set_written_le table store block cells.flat
        ((index_lt inside).trans_eq cells.length_flat.symm)
      have before := h.air
      rw [← cells.flat_set inside.1 inside.2.1 inside.2.2] at hholds
      refine ⟨store', by rw [getD_setBlockAt inside, hset], ?_, ?_, ?_, ?_⟩
      · simp only [applied, if_pos inside]
        refine ⟨hholds, ?_⟩
        rw [cells.flat_set inside.1 inside.2.1 inside.2.2]
        omega
      · intro other hother
        exact (hentries other hother).imp_right .inr
      · intro room narrow
        exact (hgrown room).narrow narrow
      · intro told exact
        simp only [applied, if_pos inside, Edit.block] at told ⊢
        rw [told, cells.flat_set inside.1 inside.2.1 inside.2.2]
        omega
    · refine ⟨store, edit_outside inside, ?_, fun _ => .inl, fun _ => id, ?_⟩
      · simpa only [applied, if_neg inside] using h
      · intro _ exact
        simpa only [applied, if_neg inside] using exact

theorem counted_run {edits : List Edit} (known : ∀ e ∈ edits, e.block.Known table) :
    ∃ store cells, run (edit table) edits new = some store ∧ Counted table store cells := by
  induction edits using List.reverseRecOn with
  | nil => exact ⟨new, _, rfl, counted_new⟩
  | append_singleton edits e ih =>
    obtain ⟨store, cells, hrun, h⟩ := ih fun e he => known e (List.mem_append_left _ he)
    obtain ⟨store', hedit, h', -⟩ := h.edit e (known e (by simp))
    exact ⟨store', _, (run_concat_eq_some _).mpr ⟨store, hrun, hedit⟩, h'⟩

/-- In every run of edits no call panics, and a block set at a cell is found there afterwards
with every other cell as it was, except where the palette overflows: then the cell reads as the
block of vanilla id 256 instead. -/
theorem set_block_reads_back (table : VanillaIdTable) (edits : List Edit)
    (known : ∀ e ∈ edits, e.block.Known table) (block : BlockId) (hblock : block.Known table)
    (x y z : Nat) (inside : x < 16 ∧ y < 16 ∧ z < 16) :
    ∃ store store', run (edit table) edits new = some store ∧
      store.setBlockAt table x y z block = some (some store') ∧
      (∀ x' y' z', store'.blockAt table x' y' z' =
        if x' = x ∧ y' = y ∧ z' = z
        then some (some (if store.overflows block then table.fromIds 256 else block))
        else store.blockAt table x' y' z') ∧
      (store'.blockAt table x y z = some (some block) ↔
        store.overflows block = true → block = table.fromIds 256) := by
  obtain ⟨store, cells, hrun, h⟩ := counted_run known
  obtain ⟨store', hset, hholds, -⟩ := h.holds.setBlockAtIndex h.air hblock (index_lt inside)
  rw [← cells.flat_set inside.1 inside.2.1 inside.2.2] at hholds
  have reads (x' y' z' : Nat) : store'.blockAt table x' y' z' =
      if x' = x ∧ y' = y ∧ z' = z
      then some (some (if store.overflows block then table.fromIds 256 else block))
      else store.blockAt table x' y' z' := by
    rw [hholds.blockAt, h.holds.blockAt]
    simp only [Cells.set, written]
    split
    · rename_i inside'
      split <;> rfl
    · rename_i outside'
      rw [if_neg]
      rintro ⟨rfl, rfl, rfl⟩
      exact outside' inside
  refine ⟨store, store', hrun, ?_, reads, ?_⟩
  · exact setBlockAt_of_edit inside (by rw [getD_setBlockAt inside, hset])
  · rw [reads, if_pos ⟨rfl, rfl, rfl⟩, Option.some.injEq, Option.some.injEq]
    cases store.overflows block <;> simp [eq_comm]

theorem set_block_reads_back_dirt :
    ∃ store store', run (edit .inOrder) [.fill ⟨.stone, 0⟩] new = some store ∧
      store.setBlockAt .inOrder 1 2 3 ⟨.dirt, 0⟩ = some (some store') ∧
      store'.blockAt .inOrder 1 2 3 = some (some ⟨.dirt, 0⟩) := by
  obtain ⟨store, store', hrun, hset, -, hiff⟩ := set_block_reads_back .inOrder [.fill ⟨.stone, 0⟩]
    (by simp [Edit.block, BlockId.known_stone]) ⟨.dirt, 0⟩ (BlockId.known_iff.mpr (by decide))
    1 2 3 (by decide)
  have room : (run (edit .inOrder) [.fill ⟨.stone, 0⟩] new).map (fun s => s.overflows ⟨.dirt, 0⟩) =
      some false := by decide +kernel
  rw [hrun, Option.map_some, Option.some.injEq] at room
  exact ⟨store, store', hrun, hset, hiff.mpr fun full => absurd (room.symm.trans full) Bool.false_ne_true⟩

/-! ### Full palettes -/

section Full

/-- A store on its own palette, which is air and the blocks set so far. -/
structure Filling (store : BlockStore) (blocks : List BlockId) : Prop where
  palette : ∃ palette, store.palette = some palette ∧ palette.len = blocks.length + 1
  entries : ∀ other ∈ store.entries, other = .air ∨ other ∈ blocks
  width : store.blocks.bitsPerValue ≤ MAX_BITS_PER_BLOCK

theorem Filling.fresh {blocks : List BlockId} (h : Filling store blocks) (hair : block ≠ .air)
    (hnew : block ∉ blocks) {palette : Palette} (hpalette : store.palette = some palette) :
    palette.indexOf block = none := by
  rw [Palette.indexOf_eq_none_iff]
  intro i hi
  have entry : block ∈ store.entries := by
    simpa only [BlockStore.entries, hpalette] using List.mem_of_getElem? hi
  rcases h.entries block entry with air | old
  · exact hair air
  · exact hnew old

theorem filling_run {sets : List ((Nat × Nat × Nat) × BlockId)}
    (inside : ∀ s ∈ sets, s.1.1 < 16 ∧ s.1.2.1 < 16 ∧ s.1.2.2 < 16)
    (known : ∀ s ∈ sets, s.2.Known table) (proper : ∀ s ∈ sets, s.2 ≠ .air)
    (distinct : (sets.map Prod.snd).Nodup) (few : sets.length ≤ 255) :
    ∃ store cells, run (edit table) (sets.map fun s => .set s.1.1 s.1.2.1 s.1.2.2 s.2) new =
      some store ∧ Counted table store cells ∧ Filling store (sets.map Prod.snd) := by
  induction sets using List.reverseRecOn with
  | nil =>
    refine ⟨new, _, rfl, counted_new, ⟨⟨.new, rfl, rfl⟩, ?_, by decide⟩⟩
    intro other hother
    left
    simpa [new, BlockStore.entries, Palette.new] using hother
  | append_singleton sets s ih =>
    rw [List.map_append, List.nodup_append] at distinct
    simp only [List.length_append, List.length_singleton] at few
    obtain ⟨store, cells, hrun, h, filling⟩ := ih (fun s hs => inside s (List.mem_append_left _ hs))
      (fun s hs => known s (List.mem_append_left _ hs))
      (fun s hs => proper s (List.mem_append_left _ hs)) distinct.1 (by omega)
    have hs : s ∈ sets ++ [s] := by simp
    obtain ⟨palette, hpalette, hlen⟩ := filling.palette
    have hnew : s.2 ∉ sets.map Prod.snd := by
      intro old
      exact distinct.2.2 s.2 old s.2 (by simp) rfl
    have fresh := filling.fresh (proper s hs) hnew hpalette
    have room : store.overflows s.2 = false := by
      rw [Bool.eq_false_iff, ne_eq, overflows_iff hpalette, hlen, List.length_map]
      omega
    obtain ⟨store', hset, hholds, hentries, hgrown, hair⟩ :=
      h.holds.setBlockAtIndex h.air (known s hs) (index_lt (inside s hs))
    rw [written_of_not_overflows room] at hholds
    rw [← cells.flat_set (inside s hs).1 (inside s hs).2.1 (inside s hs).2.2] at hholds hair
    obtain ⟨palette', index, hpalette', grown, narrow⟩ := hgrown room palette hpalette
    have before := h.air
    refine ⟨store', _, ?_, ⟨hholds, by omega⟩, ⟨⟨palette', hpalette', ?_⟩, ?_, narrow filling.width⟩⟩
    · rw [List.map_append]
      exact (run_concat_eq_some _).mpr ⟨store, hrun, by rw [getD_setBlockAt (inside s hs), hset]⟩
    · rw [(grown.fresh fresh).1, hlen, List.length_map, List.length_map, List.length_append,
        List.length_singleton]
    · intro other hother
      simp only [List.map_append, List.mem_append]
      rcases hentries other hother with old | rfl
      · exact (filling.entries other old).imp_right .inl
      · exact .inr (.inr (by simp))

/-- The 256th block besides air overflows the palette. -/
theorem Filling.overflows {blocks : List BlockId} (filling : Filling store blocks) (h : Counted table store cells)
    (full : blocks.length = 255) (hair : block ≠ .air) (hnew : block ∉ blocks) :
    store.overflows block = true := by
  obtain ⟨palette, hpalette, hlen⟩ := filling.palette
  rw [full] at hlen
  have room := (h.holds.indexes palette hpalette).1.room
  have eight : store.blocks.bitsPerValue = MAX_BITS_PER_BLOCK := by
    have wide : 8 ≤ store.blocks.bitsPerValue := by
      apply (Nat.pow_le_pow_iff_right (by decide : 1 < 2)).mp
      rwa [hlen] at room
    exact Nat.le_antisymm filling.width wide
  exact (overflows_iff hpalette).mpr ⟨filling.fresh hair hnew hpalette, hlen, eight⟩

theorem palette_set {store' : BlockStore} (h : store.palette = none) {x y z : Nat}
    (hset : edit table (.set x y z block) store = some store') : store'.palette = none := by
  by_cases inside : x < 16 ∧ y < 16 ∧ z < 16
  · rw [getD_setBlockAt inside] at hset
    obtain ⟨count, resolved, value, hresolved, hsame⟩ := palette_of_setBlockAtIndex hset
    rw [getBlockPaletteIndex] at hresolved
    simp only [h, Option.bind_eq_bind, Option.bind_eq_some_iff, Option.pure_def, Option.some.injEq,
      Prod.mk.injEq] at hresolved
    obtain ⟨_, -, rfl, -⟩ := hresolved
    rw [hsame]
  · rw [edit_outside inside] at hset
    rw [← Option.some.inj hset, h]

/-- From its 256th block besides air on, a section is on the global palette, whatever is set later. -/
theorem palette_of_full {sets later : List ((Nat × Nat × Nat) × BlockId)}
    (inside : ∀ s ∈ sets, s.1.1 < 16 ∧ s.1.2.1 < 16 ∧ s.1.2.2 < 16)
    (known : ∀ s ∈ sets ++ later, s.2.Known table) (proper : ∀ s ∈ sets, s.2 ≠ .air)
    (distinct : (sets.map Prod.snd).Nodup) (full : sets.length = 256) :
    ∃ store cells, run (edit table) ((sets ++ later).map fun s => .set s.1.1 s.1.2.1 s.1.2.2 s.2) new =
      some store ∧ Counted table store cells ∧ store.palette = none := by
  induction later using List.reverseRecOn with
  | nil =>
    rw [List.append_nil] at known ⊢
    obtain rfl | ⟨sets, s, rfl⟩ := List.eq_nil_or_concat' sets
    · cases full
    rw [List.map_append, List.nodup_append] at distinct
    rw [List.length_append, List.length_singleton, Nat.add_right_cancel_iff] at full
    have hs : s ∈ sets ++ [s] := List.mem_append_right _ (List.mem_singleton_self s)
    obtain ⟨store, cells, hrun, h, filling⟩ := @filling_run table sets
      (fun s hs => inside s (List.mem_append_left _ hs)) (fun s hs => known s (List.mem_append_left _ hs))
      (fun s hs => proper s (List.mem_append_left _ hs)) distinct.1 full.le
    have hnew : s.2 ∉ sets.map Prod.snd := by
      intro old
      exact distinct.2.2 s.2 old s.2 (List.mem_singleton_self _) rfl
    have overflows : store.overflows s.2 = true :=
      filling.overflows h (by rw [List.length_map, full]) (proper s hs) hnew
    obtain ⟨store', hedit, h', -⟩ := h.edit (.set s.1.1 s.1.2.1 s.1.2.2 s.2) (known s hs)
    refine ⟨store', _, ?_, h', ?_⟩
    · rw [List.map_append]
      exact (run_concat_eq_some _).mpr ⟨store, hrun, hedit⟩
    · rw [getD_setBlockAt (inside s hs)] at hedit
      exact h.holds.palette_overflowed overflows hedit
  | append_singleton later s ih =>
    rw [← List.append_assoc] at known ⊢
    have hs : s ∈ (sets ++ later) ++ [s] := List.mem_append_right _ (List.mem_singleton_self s)
    obtain ⟨store, cells, hrun, h, global⟩ := ih fun s hs => known s (List.mem_append_left _ hs)
    obtain ⟨store', hedit, h', -⟩ := h.edit (.set s.1.1 s.1.2.1 s.1.2.2 s.2) (known s hs)
    refine ⟨store', _, ?_, h', palette_set global hedit⟩
    rw [List.map_append]
    exact (run_concat_eq_some _).mpr ⟨store, hrun, hedit⟩

/-- Whatever 255 distinct blocks are set in a new section, wherever, the next new block reads as
the block of vanilla id 256. -/
theorem full_palette_misreads (table : VanillaIdTable) (sets : List ((Nat × Nat × Nat) × BlockId))
    (inside : ∀ s ∈ sets, s.1.1 < 16 ∧ s.1.2.1 < 16 ∧ s.1.2.2 < 16)
    (known : ∀ s ∈ sets, s.2.Known table) (proper : ∀ s ∈ sets, s.2 ≠ .air)
    (distinct : (sets.map Prod.snd).Nodup) (full : sets.length = 255)
    (x y z : Nat) (within : x < 16 ∧ y < 16 ∧ z < 16) (block : BlockId) (hblock : block.Known table)
    (hair : block ≠ .air) (hnew : block ∉ sets.map Prod.snd) :
    ∃ store store', run (edit table) (sets.map fun s => .set s.1.1 s.1.2.1 s.1.2.2 s.2) new =
        some store ∧ store.setBlockAt table x y z block = some (some store') ∧
      store'.blockAt table x y z = some (some (table.fromIds 256)) := by
  obtain ⟨store, cells, hrun, h, filling⟩ := filling_run inside known proper distinct full.le
  have overflows : store.overflows block = true :=
    filling.overflows h (by rw [List.length_map, full]) hair hnew
  obtain ⟨store', hset, hholds, -⟩ := h.holds.setBlockAtIndex h.air hblock (index_lt within)
  rw [← cells.flat_set within.1 within.2.1 within.2.2] at hholds
  refine ⟨store, store', hrun, ?_, ?_⟩
  · exact setBlockAt_of_edit within (by rw [getD_setBlockAt within, hset])
  · rw [hholds.blockAt, if_pos within]
    simp [Cells.set, written, overflows]

theorem full_palette_misreads_notes :
    ∃ store store', run (edit .inOrder) (((List.range 255).map fun i =>
        ((0, 0, 0), (⟨⟨74⟩, i⟩ : BlockId))).map fun s => .set s.1.1 s.1.2.1 s.1.2.2 s.2) new =
        some store ∧ store.setBlockAt .inOrder 1 2 3 ⟨.stone, 0⟩ = some (some store') ∧
      store'.blockAt .inOrder 1 2 3 = some (some (VanillaIdTable.inOrder.fromIds 256)) := by
  apply full_palette_misreads .inOrder _ _ _ _ _ _ 1 2 3 (by decide)
  · exact BlockId.known_iff.mpr (by decide)
  · decide
  · simp [BlockKind.stone]
  · simp
  · intro s hs
    obtain ⟨i, hi, rfl⟩ := List.mem_map.mp hs
    rw [List.mem_range] at hi
    exact BlockId.known_noteBlock .inOrder (by omega)
  · simp [BlockId.air, BlockKind.air]
  · rw [List.map_map]
    apply List.nodup_range.map
    intro i j h
    simpa using h
  · simp

end Full

/-! ### Few blocks -/

section Few
variable {allowed : List BlockId}

/-- The store as a map whose palette stays among a few blocks. -/
structure Exactly (table : VanillaIdTable) (allowed : List BlockId) (store : BlockStore)
    (cells : Cells) : Prop where
  counted : Counted table store cells
  entries : ∀ other ∈ store.entries, other = .air ∨ other ∈ allowed
  air : cells.flat.countP BlockId.isAir = store.airBlockCount
  narrow : store.Narrow

theorem Exactly.not_overflows (h : Exactly table allowed store cells) (few : allowed.length ≤ 255)
    (hblock : block = .air ∨ block ∈ allowed) : store.overflows block = false := by
  rw [Bool.eq_false_iff]
  intro overflows
  cases hpalette : store.palette with
  | none => simp [BlockStore.overflows, hpalette] at overflows
  | some palette =>
    obtain ⟨fresh, hlen, -⟩ := (overflows_iff hpalette).mp overflows
    have indexes := (h.counted.holds.indexes palette hpalette).1
    have nodup : (block :: palette.blocks).Nodup := by
      rw [List.nodup_cons]
      refine ⟨?_, indexes.sound.nodup_blocks indexes.grown⟩
      rw [List.mem_iff_getElem?, not_exists]
      exact Palette.indexOf_eq_none_iff.mp fresh
    have within : block :: palette.blocks ⊆ .air :: allowed := by
      intro other hother
      rw [List.mem_cons]
      rcases List.mem_cons.mp hother with rfl | hother
      · exact hblock
      · exact h.entries other (by simpa only [BlockStore.entries, hpalette] using hother)
    have := (nodup.subperm within).length_le
    rw [Palette.len] at hlen
    simp only [List.length_cons] at this
    omega

theorem Exactly.applied (h : Exactly table allowed store cells) (few : allowed.length ≤ 255)
    (e : Edit) (he : e.block = .air ∨ e.block ∈ allowed) (x y z : Nat)
    (inside : x < 16 ∧ y < 16 ∧ z < 16) :
    store.applied table cells e x y z = e.apply cells x y z := by
  cases e with
  | fill block => rfl
  | set x' y' z' block =>
    have told : store.written table block = block :=
      written_of_not_overflows (h.not_overflows few he)
    simp only [BlockStore.applied, Edit.apply]
    split
    · exact congrArg (fun block => cells.set x' y' z' block x y z) told
    · rename_i outside
      rw [Cells.set, if_neg]
      rintro ⟨rfl, rfl, rfl⟩
      exact outside inside

theorem exactly_new (allowed : List BlockId) : Exactly table allowed new fun _ _ _ => .air := by
  refine ⟨counted_new, ?_, ?_, ⟨rfl, by decide⟩⟩
  · intro other hother
    left
    simpa [new, BlockStore.entries, Palette.new] using hother
  · rw [Cells.flat_const, List.countP_replicate]
    rfl

theorem Exactly.edit (h : Exactly table allowed store cells) (few : allowed.length ≤ 255)
    (known : ∀ block ∈ allowed, block.Known table) (e : Edit)
    (he : e.block = .air ∨ e.block ∈ allowed) :
    ∃ store' cells', BlockStore.edit table e store = some store' ∧
      Exactly table allowed store' cells' ∧
      ∀ x y z, x < 16 ∧ y < 16 ∧ z < 16 → cells' x y z = e.apply cells x y z := by
  have hblock : e.block.Known table := by
    rcases he with air | mem
    · rw [air]
      exact ⟨0, BlockId.vanillaId_air table⟩
    · exact known _ mem
  have room : store.overflows e.block = false := h.not_overflows few he
  obtain ⟨store', hedit, h', hentries, hnarrow, hair⟩ := h.counted.edit e hblock
  refine ⟨store', _, hedit, ⟨h', ?_, hair (written_of_not_overflows room) h.air, hnarrow room h.narrow⟩,
    h.applied few e he⟩
  intro other hother
  rcases hentries other hother with old | air | rfl
  · exact h.entries other old
  · exact .inl air
  · exact he

theorem exactly_run (few : allowed.length ≤ 255) (known : ∀ block ∈ allowed, block.Known table)
    {edits : List Edit} (uses : ∀ e ∈ edits, e.block = .air ∨ e.block ∈ allowed) :
    ∃ store cells, run (edit table) edits new = some store ∧ Exactly table allowed store cells ∧
      ∀ x y z, x < 16 ∧ y < 16 ∧ z < 16 → cells x y z = Edit.lastSet edits x y z := by
  induction edits using List.reverseRecOn with
  | nil => exact ⟨new, _, rfl, exactly_new allowed, fun _ _ _ _ => rfl⟩
  | append_singleton edits e ih =>
    obtain ⟨store, cells, hrun, h, hlast⟩ := ih fun e he => uses e (List.mem_append_left _ he)
    obtain ⟨store', cells', hedit, h', hcells⟩ := h.edit few known e (uses e (by simp))
    refine ⟨store', cells', (run_concat_eq_some _).mpr ⟨store, hrun, hedit⟩, h', ?_⟩
    intro x y z inside
    rw [hcells x y z inside, Edit.lastSet, List.foldl_append]
    exact e.apply_congr (hlast x y z inside)

/-- With at most 255 blocks besides air, a section is the map of the blocks set last in every run:
no call panics, each cell reads as its block, and the air count is that of the map. -/
theorem section_is_last_set (table : VanillaIdTable) (allowed : List BlockId)
    (few : allowed.length ≤ 255) (known : ∀ block ∈ allowed, block.Known table)
    (edits : List Edit) (uses : ∀ e ∈ edits, e.block = .air ∨ e.block ∈ allowed) :
    ∃ store, run (edit table) edits new = some store ∧
      (∀ x y z, store.blockAt table x y z =
        some (if x < 16 ∧ y < 16 ∧ z < 16 then some (Edit.lastSet edits x y z) else none)) ∧
      store.airBlockCount = (Edit.lastSet edits).flat.countP BlockId.isAir := by
  obtain ⟨store, cells, hrun, h, hlast⟩ := exactly_run few known uses
  refine ⟨store, hrun, ?_, ?_⟩
  · intro x y z
    rw [h.counted.holds.blockAt]
    congr 1
    split
    · rename_i inside
      rw [hlast x y z inside]
    · rfl
  · rw [← h.air, Cells.flat_congr hlast]

theorem section_is_last_set_stone :
    ∃ store, run (edit .inOrder) [.fill ⟨.stone, 0⟩, .set 1 2 3 .air] new = some store ∧
      store.blockAt .inOrder 1 2 3 = some (some .air) ∧
      store.blockAt .inOrder 0 0 0 = some (some ⟨.stone, 0⟩) := by
  obtain ⟨store, hrun, hreads, -⟩ := section_is_last_set .inOrder [⟨.stone, 0⟩] (by decide)
    (by simp [BlockId.known_stone]) [.fill ⟨.stone, 0⟩, .set 1 2 3 .air]
    (by simp [Edit.block])
  exact ⟨store, hrun, hreads 1 2 3, hreads 0 0 0⟩

end Few
end BlockStore
end FpgaCraft.Server
