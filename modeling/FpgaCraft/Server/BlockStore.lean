import FpgaCraft.Server.PackedArray
import FpgaCraft.Server.Palette

/-! The blocks of a chunk section (`feather/base/src/chunk/blocks.rs`): indices into a palette
or, past 256 entries, vanilla ids. A panic is `none`. -/
namespace FpgaCraft.Server
open Library

abbrev GLOBAL_BITS_PER_BLOCK : Nat := 15
abbrev MIN_BITS_PER_BLOCK : Nat := 4
abbrev MAX_BITS_PER_BLOCK : Nat := 8
abbrev SECTION_WIDTH : Nat := 16
abbrev SECTION_VOLUME : Nat := 4096

def blockIndex (x y z : Nat) : Option Nat :=
  if SECTION_WIDTH ≤ x ∨ SECTION_WIDTH ≤ y ∨ SECTION_WIDTH ≤ z then none
  else some (y <<< 8 ||| z <<< 4 ||| x)

/-- `palette` is `none` if the store is using the global palette. -/
structure BlockStore where
  palette : Option Palette
  blocks : PackedArray
  airBlockCount : Nat

namespace BlockStore
variable (table : VanillaIdTable)

def new : BlockStore where
  palette := some .new
  blocks := .new SECTION_VOLUME MIN_BITS_PER_BLOCK (by decide)
  airBlockCount := SECTION_VOLUME

def decode (palette : Option Palette) (value : U64) : Option BlockId :=
  match palette with
  | some palette => some (palette.get value.toNat)
  | none => BlockId.fromVanillaId table (value.setWidth 16)

def blockAtIndex (self : BlockStore) (index : Nat) : Option BlockId :=
  (self.blocks.get index).bind (decode table self.palette)

def blockAt (self : BlockStore) (x y z : Nat) : Option (Option BlockId) :=
  match blockIndex x y z with
  | none => some none
  | some index => (self.blockAtIndex table index).map some

def useVanillaIds (palette : Palette) (blocks : PackedArray) : Option PackedArray :=
  (List.range SECTION_VOLUME).foldlM
    (fun blocks i => do
      let value ← blocks.get i
      let id ← (palette.get value.toNat).vanillaId table
      blocks.set i (id.setWidth 64)) blocks

def useGlobalPalette (self : BlockStore) (palette : Palette) : Option BlockStore := do
  let blocks ← self.blocks.resized GLOBAL_BITS_PER_BLOCK (by decide)
  let blocks ← useVanillaIds table palette blocks
  pure { self with palette := none, blocks := blocks }

theorem width_succ {bits : Nat} (h : ¬MAX_BITS_PER_BLOCK < bits + 1) :
    0 < bits + 1 ∧ bits + 1 < 64 := by
  simp only [MAX_BITS_PER_BLOCK] at h
  omega

def resizeIfNeeded (self : BlockStore) (palette : Palette) : Option BlockStore :=
  if self.blocks.mask.toNat < palette.len - 1 then
    if h : MAX_BITS_PER_BLOCK < self.blocks.bitsPerValue + 1 then self.useGlobalPalette table palette
    else do
      let blocks ← self.blocks.resized (self.blocks.bitsPerValue + 1) (width_succ h)
      pure { self with blocks := blocks }
  else some self

def getBlockPaletteIndex (self : BlockStore) (block : BlockId) : Option (BlockStore × Nat) :=
  match self.palette with
  | some palette => do
    let (palette, index) ← palette.indexOrInsert block
    let store ← resizeIfNeeded table { self with palette := some palette } palette
    pure (store, index)
  | none => do
    let id ← block.vanillaId table
    pure (self, id.toNat)

def updateAirBlockCount (self : BlockStore) (old new : BlockId) : Option BlockStore :=
  if old.isAir && !new.isAir then
    if self.airBlockCount = 0 then none
    else some { self with airBlockCount := self.airBlockCount - 1 }
  else if !old.isAir && new.isAir then some { self with airBlockCount := self.airBlockCount + 1 }
  else some self

def setBlockAtIndex (self : BlockStore) (index : Nat) (block : BlockId) : Option BlockStore := do
  let old ← self.blockAtIndex table index
  let store ← self.updateAirBlockCount old block
  let (store, value) ← store.getBlockPaletteIndex table block
  let blocks ← store.blocks.set index (BitVec.ofNat 64 value)
  pure { store with blocks := blocks }

/-- Coordinates out of bounds leave the store as it is; the inner result is `none`. -/
def setBlockAt (self : BlockStore) (x y z : Nat) (block : BlockId) : Option (Option BlockStore) :=
  match blockIndex x y z with
  | none => some none
  | some index => (self.setBlockAtIndex table index block).map some

def fill (self : BlockStore) (block : BlockId) : Option BlockStore := do
  let palette := match self.palette with
    | some palette => palette.clear
    | none => .new
  let (palette, index) ← palette.indexOrInsert block
  let blocks ← self.blocks.fill (BitVec.ofNat 64 index)
  pure ⟨some palette, blocks, if block.isAir then SECTION_VOLUME else 0⟩

end BlockStore

/-! ### Cells of a section -/

theorem blockIndex_eq {x y z : Nat} (hx : x < 16) (hy : y < 16) (hz : z < 16) :
    blockIndex x y z = some (y * 256 + (z * 16 + x)) := by
  have low : z <<< 4 + x = z <<< 4 ||| x := Nat.shiftLeft_add_eq_or_of_lt hx z
  have row : z <<< 4 + x < 2 ^ 8 := by
    rw [Nat.shiftLeft_eq]
    omega
  have high : y <<< 8 + (z <<< 4 + x) = y <<< 8 ||| (z <<< 4 + x) :=
    Nat.shiftLeft_add_eq_or_of_lt row y
  have inside : ¬(SECTION_WIDTH ≤ x ∨ SECTION_WIDTH ≤ y ∨ SECTION_WIDTH ≤ z) := by
    simp only [SECTION_WIDTH]
    omega
  rw [blockIndex, if_neg inside, Nat.or_assoc, ← low, ← high, Nat.shiftLeft_eq, Nat.shiftLeft_eq]

theorem blockIndex_eq_none {x y z : Nat} (h : ¬(x < 16 ∧ y < 16 ∧ z < 16)) :
    blockIndex x y z = none := by
  have outside : SECTION_WIDTH ≤ x ∨ SECTION_WIDTH ≤ y ∨ SECTION_WIDTH ≤ z := by
    simp only [SECTION_WIDTH]
    omega
  rw [blockIndex, if_pos outside]

/-! ### What a store holds -/

namespace BlockStore
variable {table : VanillaIdTable}

def overflows (self : BlockStore) (block : BlockId) : Bool :=
  match self.palette with
  | some palette => (palette.indexOf block).isNone && palette.len == 256 &&
      self.blocks.bitsPerValue == MAX_BITS_PER_BLOCK
  | none => false

variable (table) in
/-- The block that is found where `block` is set: after an overflow the value is still the
palette index 256, which now is a vanilla id. -/
def written (self : BlockStore) (block : BlockId) : BlockId :=
  if self.overflows block then table.fromIds 256 else block

/-- The palettes of a store: nothing is ever removed from them, and their indices fit. -/
structure Indexes (table : VanillaIdTable) (palette : Palette) (bits : Nat) : Prop where
  sound : palette.Sound
  grown : palette.freeIndices = []
  known : ∀ block ∈ palette.blocks, block.Known table
  room : palette.len ≤ 2 ^ bits

def entries (self : BlockStore) : List BlockId :=
  match self.palette with
  | some palette => palette.blocks
  | none => []

/-- A store on a palette of its own, whose array was never widened to vanilla ids. -/
structure Narrow (store : BlockStore) : Prop where
  palette : store.palette.isSome = true
  width : store.blocks.bitsPerValue ≤ MAX_BITS_PER_BLOCK

/-- The store holds a list of blocks, one for each index. -/
structure Holds (table : VanillaIdTable) (store : BlockStore) (content : List BlockId) : Prop where
  length : content.length = SECTION_VOLUME
  width : store.blocks.bitsPerValue ≤ MAX_BITS_PER_BLOCK ∨
    store.blocks.bitsPerValue = GLOBAL_BITS_PER_BLOCK
  values : store.blocks.iter.map (decode table store.palette) = content.map some
  indexes : ∀ palette, store.palette = some palette →
    Indexes table palette store.blocks.bitsPerValue ∧
      ∀ value ∈ store.blocks.iter, value.toNat < palette.len
  ids : store.palette = none → store.blocks.bitsPerValue = GLOBAL_BITS_PER_BLOCK

theorem Holds.length_blocks {store : BlockStore} {content : List BlockId}
    (h : Holds table store content) : store.blocks.length = SECTION_VOLUME := by
  have := congrArg List.length h.values
  simpa [h.length] using this

theorem Holds.blockAtIndex {store : BlockStore} {content : List BlockId}
    (h : Holds table store content) (index : Nat) : store.blockAtIndex table index = content[index]? := by
  have entry := congrArg (fun values => values[index]?) h.values
  simp only [List.getElem?_map] at entry
  rw [BlockStore.blockAtIndex, store.blocks.get_eq]
  cases hv : store.blocks.iter[index]? with
  | none => simpa [hv, eq_comm] using entry
  | some value =>
    cases hc : content[index]? with
    | none => simp [hv, hc] at entry
    | some block => simpa [hv, hc] using entry

theorem Holds.known {store : BlockStore} {content : List BlockId} (h : Holds table store content)
    {block : BlockId} (hblock : block ∈ content) : block.Known table := by
  have entry : some block ∈ store.blocks.iter.map (decode table store.palette) := by
    rw [h.values]
    exact List.mem_map_of_mem hblock
  obtain ⟨value, hvalue, hdecode⟩ := List.mem_map.mp entry
  unfold decode at hdecode
  cases hpalette : store.palette with
  | none =>
    rw [hpalette] at hdecode
    exact BlockId.known_fromVanillaId hdecode
  | some palette =>
    rw [hpalette] at hdecode
    obtain ⟨indexes, bound⟩ := h.indexes palette hpalette
    have read := List.getElem?_eq_getElem (l := palette.blocks) (bound value hvalue)
    rw [← Option.some.inj hdecode, Palette.get_of_getElem? read]
    exact indexes.known _ (List.getElem_mem _)

theorem indexes_new (bits : Nat) : Indexes table .new bits := by
  refine ⟨Palette.sound_new, rfl, ?_, Nat.one_le_two_pow⟩
  intro block hblock
  obtain rfl : block = .air := by simpa [Palette.new] using hblock
  exact ⟨0, BlockId.vanillaId_air table⟩

theorem holds_new : Holds table new (List.replicate SECTION_VOLUME .air) := by
  have iter : new.blocks.iter = List.replicate SECTION_VOLUME 0 := PackedArray.iter_new _ _
  refine ⟨List.length_replicate, .inl (by decide), ?_, ?_, ?_⟩
  · rw [iter, List.map_replicate, List.map_replicate]
    rfl
  · rintro palette ⟨⟩
    refine ⟨indexes_new _, ?_⟩
    intro value hvalue
    rw [iter] at hvalue
    obtain rfl := List.eq_of_mem_replicate hvalue
    decide
  · intro h
    cases h

/-! ### Growing the palette -/

section Index
variable {store : BlockStore} {content : List BlockId} {palette : Palette} {block : BlockId}

/-- Inserting a block keeps the entries that are in use. -/
structure Grown (palette palette' : Palette) (block : BlockId) (index : Nat) : Prop where
  inserted : Palette.Inserted palette palette' block index
  grown : palette'.freeIndices = []
  entries : palette.blocks <+: palette'.blocks
  mem : ∀ other ∈ palette'.blocks, other ∈ palette.blocks ∨ other = block
  old : palette.indexOf block ≠ none → palette' = palette
  fresh : palette.indexOf block = none → palette'.len = palette.len + 1 ∧ index = palette.len

theorem grown_of_insert (sound : palette.Sound) (free : palette.freeIndices = []) (block : BlockId) :
    ∃ palette' index, palette.indexOrInsert block = some (palette', index) ∧
      Grown palette palette' block index := by
  obtain ⟨palette', index, h, inserted⟩ := sound.indexOrInsert block
  refine ⟨palette', index, h, ?_⟩
  unfold Palette.indexOrInsert at h
  cases hindex : palette.indexOf block with
  | some i =>
    simp only [hindex, Option.some.injEq, Prod.mk.injEq] at h
    obtain ⟨rfl, rfl⟩ := h
    refine ⟨inserted, free, List.prefix_rfl, ?_, ?_, ?_⟩
    · exact fun _ => Or.inl
    · exact fun _ => rfl
    · simp [hindex]
  | none =>
    simp only [hindex, Palette.insert, free, Option.some.injEq, Prod.mk.injEq] at h
    obtain ⟨rfl, rfl⟩ := h
    refine ⟨inserted, rfl, List.prefix_append _ _, ?_, ?_, ?_⟩
    · simp
    · simp [hindex]
    · simp [Palette.len]

section Grown
variable {palette' : Palette} {index : Nat} (grown : Grown palette palette' block index)
include grown

theorem Grown.len_le : palette.len ≤ palette'.len := grown.entries.length_le

theorem Grown.index_lt : index < palette'.len :=
  (List.getElem?_eq_some_iff.mp grown.inserted.entry).1

theorem Grown.get {i : Nat} (hi : i < palette.len) : palette'.get i = palette.get i := by
  obtain ⟨tail, htail⟩ := grown.entries
  rw [Palette.get, Palette.get, ← htail, List.getElem?_append_left hi]

theorem Grown.known {bits : Nat} (indexes : Indexes table palette bits) (hblock : block.Known table) :
    ∀ other ∈ palette'.blocks, other.Known table := by
  intro other hother
  rcases grown.mem other hother with old | rfl
  · exact indexes.known other old
  · exact hblock

theorem Grown.len_le_succ : palette'.len ≤ palette.len + 1 := by
  cases hindex : palette.indexOf block with
  | some i =>
    rw [grown.old (by simp [hindex])]
    exact Nat.le_succ _
  | none => exact (grown.fresh hindex).1.le

theorem Grown.len_le_known {bits : Nat} (indexes : Indexes table palette bits)
    (hblock : block.Known table) : palette'.len ≤ 17112 :=
  BlockId.length_le_of_known (grown.inserted.sound.nodup_blocks grown.grown)
    (grown.known indexes hblock)

/-- The store with the grown palette, in an array of the same values, holds what it did. -/
theorem Grown.holds (h : Holds table store content) (hpalette : store.palette = some palette)
    (hblock : block.Known table) {blocks : PackedArray} {bits : Nat}
    (hview : blocks.view = ⟨bits, store.blocks.iter⟩)
    (hbits : bits ≤ MAX_BITS_PER_BLOCK ∨ bits = GLOBAL_BITS_PER_BLOCK)
    (room : palette'.len ≤ 2 ^ bits) :
    Holds table ⟨some palette', blocks, store.airBlockCount⟩ content := by
  obtain ⟨indexes, bound⟩ := h.indexes palette hpalette
  have hwidth : blocks.bitsPerValue = bits := congrArg PackedArray.Row.width hview
  have hiter : blocks.iter = store.blocks.iter := congrArg PackedArray.Row.values hview
  refine ⟨h.length, ?_, ?_, ?_, ?_⟩
  · simpa only [hwidth] using hbits
  · rw [← h.values, hiter, hpalette]
    apply List.map_congr_left
    intro value hvalue
    simp only [decode, grown.get (bound value hvalue)]
  · rintro _ ⟨⟩
    rw [hwidth, hiter]
    refine ⟨⟨grown.inserted.sound, grown.grown, grown.known indexes hblock, room⟩, ?_⟩
    intro value hvalue
    exact (bound value hvalue).trans_le grown.len_le
  · intro h
    cases h

end Grown

def GrownTo (store store' : BlockStore) (block : BlockId) : Prop :=
  ∀ palette, store.palette = some palette → ∃ palette' index, store'.palette = some palette' ∧
    Grown palette palette' block index ∧
      (store.blocks.bitsPerValue ≤ MAX_BITS_PER_BLOCK →
        store'.blocks.bitsPerValue ≤ MAX_BITS_PER_BLOCK)

theorem GrownTo.narrow {store' : BlockStore} (grown : store.GrownTo store' block) (h : store.Narrow) :
    store'.Narrow := by
  obtain ⟨palette, hpalette⟩ := Option.isSome_iff_exists.mp h.palette
  obtain ⟨palette', -, hpalette', -, width⟩ := grown palette hpalette
  exact ⟨Option.isSome_iff_exists.mpr ⟨palette', hpalette'⟩, width h.width⟩

/-- What resolving a block to a value yields: a store that holds the same blocks, and a value
of its array for the block that will be found there. -/
structure Resolved (table : VanillaIdTable) (store : BlockStore) (content : List BlockId)
    (store' : BlockStore) (value : Nat) (block found : BlockId) : Prop where
  holds : Holds table store' content
  fits : value < 2 ^ store'.blocks.bitsPerValue
  found : decode table store'.palette (BitVec.ofNat 64 value) = some found
  index : ∀ palette, store'.palette = some palette → value < palette.len
  air : store'.airBlockCount = store.airBlockCount
  entries : ∀ other ∈ store'.entries, other ∈ store.entries ∨ other = block
  grown : store.overflows block = false → store.GrownTo store' block

theorem two_pow_width_lt (blocks : PackedArray) : 2 ^ blocks.bitsPerValue < 2 ^ 64 :=
  Nat.pow_lt_pow_right (by decide) blocks.width.2

theorem decode_ofNat {palette : Palette} {index bits : Nat} (hindex : index < palette.len)
    (room : palette.len ≤ 2 ^ bits) (hbits : bits < 64) :
    decode table (some palette) (BitVec.ofNat 64 index) = some (palette.get index) := by
  have small : index < 2 ^ 64 :=
    (hindex.trans_le room).trans (Nat.pow_lt_pow_right (by decide) hbits)
  rw [decode, BitVec.toNat_ofNat, Nat.mod_eq_of_lt small]

theorem Grown.resolved {palette' : Palette} {index : Nat} (grown : Grown palette palette' block index)
    (h : Holds table store content) (hpalette : store.palette = some palette)
    (hblock : block.Known table) {blocks : PackedArray} {bits : Nat}
    (hview : blocks.view = ⟨bits, store.blocks.iter⟩)
    (hbits : bits ≤ MAX_BITS_PER_BLOCK ∨ bits = GLOBAL_BITS_PER_BLOCK)
    (narrow : store.blocks.bitsPerValue ≤ MAX_BITS_PER_BLOCK → bits ≤ MAX_BITS_PER_BLOCK)
    (room : palette'.len ≤ 2 ^ bits) :
    Resolved table store content ⟨some palette', blocks, store.airBlockCount⟩ index block block := by
  have hwidth : blocks.bitsPerValue = bits := congrArg PackedArray.Row.width hview
  refine ⟨grown.holds h hpalette hblock hview hbits room, ?_, ?_, ?_, rfl, ?_, ?_⟩
  · rw [hwidth]
    exact grown.index_lt.trans_le room
  · rw [decode_ofNat grown.index_lt room (hwidth ▸ blocks.width.2),
      Palette.get_of_getElem? grown.inserted.entry]
  · rintro _ ⟨⟩
    exact grown.index_lt
  · simpa only [BlockStore.entries, hpalette] using grown.mem
  · intro _ _ hsome
    obtain rfl := Option.some.inj (hpalette.symm.trans hsome)
    exact ⟨palette', index, rfl, grown, fun h => hwidth.trans_le (narrow h)⟩

theorem exists_useVanillaIds {blocks : PackedArray} (hwidth : blocks.bitsPerValue = GLOBAL_BITS_PER_BLOCK)
    (hlength : blocks.length = SECTION_VOLUME)
    (known : ∀ value ∈ blocks.iter, (palette.get value.toNat).Known table) :
    ∃ blocks', useVanillaIds table palette blocks = some blocks' ∧
      blocks'.bitsPerValue = GLOBAL_BITS_PER_BLOCK ∧
      blocks'.iter.map (decode table none) = blocks.iter.map (decode table (some palette)) := by
  let id (value : U64) : BitVec 16 := ((palette.get value.toNat).vanillaId table).getD 0
  have hid (value : U64) (hvalue : value ∈ blocks.iter) :
      (palette.get value.toNat).vanillaId table = some (id value) := by
    obtain ⟨id', hid'⟩ := known value hvalue
    simp only [id, hid', Option.getD_some]
  have hf (value : U64) (hvalue : value ∈ blocks.iter) :
      ((palette.get value.toNat).vanillaId table).map (BitVec.setWidth 64) =
          some ((id value).setWidth 64) ∧
        ((id value).setWidth 64).toNat < 2 ^ blocks.bitsPerValue := by
    have small := BlockId.vanillaId_lt (hid value hvalue)
    rw [hid value hvalue, hwidth]
    refine ⟨rfl, ?_⟩
    rw [BitVec.toNat_setWidth_of_le (by decide)]
    exact small.trans (by decide)
  obtain ⟨blocks', hloop, hview⟩ := blocks.exists_replaced hf hlength.ge
  refine ⟨blocks', ?_, ?_, ?_⟩
  · rw [useVanillaIds, ← hloop]
    refine congrArg (fun step => (List.range SECTION_VOLUME).foldlM step blocks) ?_
    funext array i
    simp only [Option.bind_eq_bind, Option.bind_map]
    rfl
  · exact (congrArg PackedArray.Row.width hview).trans hwidth
  · have iter : blocks'.iter = _ := congrArg PackedArray.Row.values hview
    have full : blocks.iter.length ≤ SECTION_VOLUME := (blocks.length_iter.trans hlength).le
    rw [iter, List.take_of_length_le full, List.drop_of_length_le full, List.append_nil, List.map_map]
    apply List.map_congr_left
    intro value hvalue
    simp only [Function.comp_apply, decode]
    rw [BitVec.setWidth_setWidth_of_le _ (by decide), BitVec.setWidth_eq]
    exact BlockId.fromVanillaId_vanillaId (hid value hvalue)

theorem written_of_not_overflows (h : store.overflows block = false) :
    store.written table block = block := by
  simp [written, h]

theorem overflows_iff (hpalette : store.palette = some palette) :
    store.overflows block = true ↔ palette.indexOf block = none ∧ palette.len = 256 ∧
      store.blocks.bitsPerValue = MAX_BITS_PER_BLOCK := by
  simp [overflows, hpalette, and_assoc]

section Resize
variable {palette' : Palette} {index : Nat}

theorem Grown.useGlobalPalette (grown : Grown palette palette' block index)
    (h : Holds table store content) (hpalette : store.palette = some palette)
    (hblock : block.Known table) (overflows : store.overflows block = true) :
    ∃ store', BlockStore.useGlobalPalette table { store with palette := some palette' } palette' =
        some store' ∧ Resolved table store content store' index block (table.fromIds 256) := by
  obtain ⟨indexes, bound⟩ := h.indexes palette hpalette
  obtain ⟨hindex, hlen, hwidth⟩ := (overflows_iff hpalette).mp overflows
  obtain ⟨-, rfl⟩ := grown.fresh hindex
  obtain ⟨wide, hresized, hview⟩ := store.blocks.exists_resized (w := GLOBAL_BITS_PER_BLOCK)
    (by decide) (by rw [hwidth]; decide)
  have hiter : wide.iter = store.blocks.iter := congrArg PackedArray.Row.values hview
  have hlength : wide.length = SECTION_VOLUME := by
    rw [PackedArray.length_of_view hview, PackedArray.length_iter, h.length_blocks]
  have known (value : U64) (hvalue : value ∈ wide.iter) : (palette'.get value.toNat).Known table := by
    rw [hiter] at hvalue
    have small := (bound value hvalue).trans_le grown.len_le
    apply grown.known indexes hblock
    rw [Palette.get, List.getElem?_eq_getElem small, Option.getD_some]
    exact List.getElem_mem small
  obtain ⟨blocks, hblocks, hbits, hvalues⟩ :=
    exists_useVanillaIds (congrArg PackedArray.Row.width hview) hlength known
  refine ⟨⟨none, blocks, store.airBlockCount⟩, ?_, ⟨h.length, .inr hbits, ?_, ?_, fun _ => hbits⟩,
    ?_, ?_, ?_, rfl, by simp [BlockStore.entries], by simp [overflows]⟩
  · simp [BlockStore.useGlobalPalette, hresized, hblocks]
  · rw [hvalues, hiter, ← h.values, hpalette]
    apply List.map_congr_left
    intro value hvalue
    simp only [decode, grown.get (bound value hvalue)]
  · intro _ hnone
    cases hnone
  · rw [hbits, hlen]
    decide
  · rw [hlen]
    rfl
  · intro _ hnone
    cases hnone

theorem Grown.resizeIfNeeded (grown : Grown palette palette' block index)
    (h : Holds table store content) (hpalette : store.palette = some palette)
    (hblock : block.Known table) :
    ∃ store', BlockStore.resizeIfNeeded table { store with palette := some palette' } palette' =
        some store' ∧ Resolved table store content store' index block (store.written table block) := by
  obtain ⟨indexes, bound⟩ := h.indexes palette hpalette
  have known := grown.len_le_known indexes hblock
  have step := grown.len_le_succ
  have mask : store.blocks.mask.toNat = 2 ^ store.blocks.bitsPerValue - 1 :=
    toNat_lowMask store.blocks.width.2
  have pos := Nat.two_pow_pos store.blocks.bitsPerValue
  by_cases full : store.blocks.mask.toNat < palette'.len - 1
  · have exactly : palette.len = 2 ^ store.blocks.bitsPerValue := by
      have := indexes.room
      omega
    have fresh : palette.indexOf block = none := by
      by_contra hold
      have := grown.old hold
      rw [this] at full
      omega
    by_cases wide : MAX_BITS_PER_BLOCK < store.blocks.bitsPerValue + 1
    · have hwidth : store.blocks.bitsPerValue = MAX_BITS_PER_BLOCK := by
        rcases h.width with small | global
        · simp only [MAX_BITS_PER_BLOCK] at wide small ⊢
          omega
        · have many : 17112 < 2 ^ GLOBAL_BITS_PER_BLOCK := by decide
          have := grown.len_le
          rw [global] at exactly
          omega
      have overflows : store.overflows block = true :=
        (overflows_iff hpalette).mpr ⟨fresh, by rw [exactly, hwidth]; rfl, hwidth⟩
      obtain ⟨store', hstore, resolved⟩ := grown.useGlobalPalette h hpalette hblock overflows
      refine ⟨store', ?_, ?_⟩
      · rw [BlockStore.resizeIfNeeded, if_pos full, dif_pos wide, hstore]
      · rw [written, if_pos overflows]
        exact resolved
    · have within : store.blocks.bitsPerValue ≠ MAX_BITS_PER_BLOCK := by
        simp only [MAX_BITS_PER_BLOCK] at wide ⊢
        omega
      obtain ⟨blocks, hresized, hview⟩ := store.blocks.exists_resized (width_succ wide) (Nat.le_succ _)
      refine ⟨⟨some palette', blocks, store.airBlockCount⟩, ?_, ?_⟩
      · rw [BlockStore.resizeIfNeeded, if_pos full, dif_neg wide, hresized]
        rfl
      · rw [written_of_not_overflows]
        · have narrow : store.blocks.bitsPerValue + 1 ≤ MAX_BITS_PER_BLOCK := by
            simp only [MAX_BITS_PER_BLOCK] at wide ⊢
            omega
          apply grown.resolved h hpalette hblock hview (.inl narrow) fun _ => narrow
          rw [Nat.pow_succ]
          omega
        · rw [Bool.eq_false_iff, ne_eq, overflows_iff hpalette]
          rintro ⟨-, -, hwidth⟩
          exact within hwidth
  · have room : palette'.len ≤ 2 ^ store.blocks.bitsPerValue := by omega
    refine ⟨⟨some palette', store.blocks, store.airBlockCount⟩, ?_, ?_⟩
    · rw [BlockStore.resizeIfNeeded, if_neg full]
    rw [written_of_not_overflows]
    · exact grown.resolved h hpalette hblock rfl h.width id room
    · rw [Bool.eq_false_iff, ne_eq, overflows_iff hpalette]
      rintro ⟨fresh, hlen, hwidth⟩
      rw [hwidth, (grown.fresh fresh).1, hlen] at room
      exact absurd room (by decide)

end Resize

theorem Holds.getBlockPaletteIndex (h : Holds table store content) (hblock : block.Known table) :
    ∃ store' value, store.getBlockPaletteIndex table block = some (store', value) ∧
      Resolved table store content store' value block (store.written table block) := by
  cases hpalette : store.palette with
  | none =>
    obtain ⟨id, hid⟩ := hblock
    have plain : store.written table block = block := by simp [written, overflows, hpalette]
    refine ⟨store, id.toNat, by simp [BlockStore.getBlockPaletteIndex, hpalette, hid], h, ?_, ?_, ?_,
      rfl, fun _ => .inl, ?_⟩
    · rw [h.ids hpalette]
      exact (BlockId.vanillaId_lt hid).trans (by decide)
    · have narrow : (BitVec.ofNat 64 id.toNat).setWidth 16 = id := by
        apply BitVec.eq_of_toNat_eq
        simp only [BitVec.toNat_setWidth, BitVec.toNat_ofNat]
        omega
      rw [plain, hpalette, decode, narrow]
      exact BlockId.fromVanillaId_vanillaId hid
    · intro palette hsome
      rw [hpalette] at hsome
      cases hsome
    · intro _ palette hsome
      rw [hpalette] at hsome
      cases hsome
  | some palette =>
    obtain ⟨indexes, bound⟩ := h.indexes palette hpalette
    obtain ⟨palette', index, hinsert, grown⟩ := grown_of_insert indexes.sound indexes.grown block
    obtain ⟨store', hstore, resolved⟩ := grown.resizeIfNeeded h hpalette hblock
    refine ⟨store', index, ?_, resolved⟩
    simp [BlockStore.getBlockPaletteIndex, hpalette, hinsert, hstore]

/-! ### Setting and filling -/

theorem isAir_fromIds (table : VanillaIdTable) : (table.fromIds 256).isAir = false := by
  obtain ⟨block, hblock⟩ : ∃ block : BlockId, block.vanillaId table = some 256 :=
    BlockId.exists_vanillaId (by decide)
  obtain ⟨⟨id, valid⟩, rfl, hkind⟩ := BlockId.kind_of_vanillaId hblock
  have same : table.fromIds 256 = block :=
    Option.some.inj (BlockId.fromVanillaId_vanillaId hblock)
  have kind : BlockState.kind ⟨256, by decide⟩ = ⟨74⟩ := by decide +kernel
  rw [same, BlockId.isAir, ← hkind, kind]
  decide

theorem isAir_of_written (h : (store.written table block).isAir = true) : block.isAir = true := by
  rw [written] at h
  split at h
  · rw [isAir_fromIds] at h
    cases h
  · exact h

variable (block) in
theorem exists_updateAirBlockCount {old : BlockId} (counted : old.isAir = true → 0 < store.airBlockCount) :
    ∃ count, store.updateAirBlockCount old block = some { store with airBlockCount := count } ∧
      count + old.isAir.toNat = store.airBlockCount + block.isAir.toNat := by
  unfold BlockStore.updateAirBlockCount
  cases hold : old.isAir
  · cases hnew : block.isAir
    · exact ⟨_, rfl, rfl⟩
    · exact ⟨_, rfl, rfl⟩
  · have pos := counted hold
    cases hnew : block.isAir
    · refine ⟨store.airBlockCount - 1, ?_, ?_⟩
      · simp [pos.ne']
      · simp only [Bool.toNat_true, Bool.toNat_false]
        omega
    · exact ⟨_, rfl, rfl⟩

theorem countP_set_toNat {α : Type*} (p : α → Bool) {l : List α} {i : Nat} (hi : i < l.length) (a : α) :
    (l.set i a).countP p + (p l[i]).toNat = l.countP p + (p a).toNat := by
  rw [List.countP_set hi]
  cases h : p l[i]
  · cases p a <;> simp
  · have pos : 0 < l.countP p := List.countP_pos_iff.mpr ⟨l[i], List.getElem_mem hi, h⟩
    cases p a <;> simp <;> omega

theorem Holds.setBlockAtIndex (h : Holds table store content)
    (counted : content.countP BlockId.isAir ≤ store.airBlockCount) (hblock : block.Known table)
    {index : Nat} (hi : index < SECTION_VOLUME) :
    ∃ store', store.setBlockAtIndex table index block = some store' ∧
      Holds table store' (content.set index (store.written table block)) ∧
      (∀ other ∈ store'.entries, other ∈ store.entries ∨ other = block) ∧
      (store.overflows block = false → store.GrownTo store' block) ∧
      store'.airBlockCount + content.countP BlockId.isAir =
        store.airBlockCount + (content.set index block).countP BlockId.isAir := by
  have hi' : index < content.length := by rw [h.length]; exact hi
  have hold : store.blockAtIndex table index = some content[index] := by
    rw [h.blockAtIndex, List.getElem?_eq_getElem hi']
  obtain ⟨count, hupdate, hcount⟩ :=
    exists_updateAirBlockCount block fun hair : content[index].isAir = true =>
      (List.countP_pos_iff.mpr ⟨_, List.getElem_mem hi', hair⟩).trans_le counted
  have h' : Holds table { store with airBlockCount := count } content :=
    ⟨h.length, h.width, h.values, h.indexes, h.ids⟩
  obtain ⟨store', value, hvalue, resolved⟩ := h'.getBlockPaletteIndex hblock
  have small : value < 2 ^ 64 := resolved.fits.trans (two_pow_width_lt _)
  have toNat : (BitVec.ofNat 64 value).toNat = value := by
    rw [BitVec.toNat_ofNat, Nat.mod_eq_of_lt small]
  have bound : index < store'.blocks.length := hi.trans_eq resolved.holds.length_blocks.symm
  have fits : (BitVec.ofNat 64 value).toNat < 2 ^ store'.blocks.bitsPerValue := by
    rw [toNat]
    exact resolved.fits
  obtain ⟨blocks, hset, hview⟩ := PackedArray.exists_set bound fits
  have hwidth : blocks.bitsPerValue = store'.blocks.bitsPerValue := congrArg PackedArray.Row.width hview
  have hiter : blocks.iter = _ := congrArg PackedArray.Row.values hview
  refine ⟨{ store' with blocks := blocks }, ?_, ?_, resolved.entries, ?_, ?_⟩
  · simp [BlockStore.setBlockAtIndex, hold, hupdate, hvalue, hset]
  · refine ⟨by rw [List.length_set, h.length], by simpa only [hwidth] using resolved.holds.width,
      ?_, ?_, by simpa only [hwidth] using resolved.holds.ids⟩
    · rw [hiter, List.map_set, List.map_set, resolved.holds.values, resolved.found]
      rfl
    · intro palette hpalette
      obtain ⟨indexes, bound⟩ := resolved.holds.indexes palette hpalette
      rw [hwidth, hiter]
      refine ⟨indexes, ?_⟩
      intro v hv
      rcases List.mem_or_eq_of_mem_set hv with old | rfl
      · exact bound v old
      · rw [toNat]
        exact resolved.index palette hpalette
  · intro overflows palette hpalette
    obtain ⟨palette', index, hsome, grown, narrow⟩ := resolved.grown overflows palette hpalette
    exact ⟨palette', index, hsome, grown, fun h => hwidth.trans_le (narrow h)⟩
  · have := countP_set_toNat BlockId.isAir hi' block
    have air : store'.airBlockCount = count := resolved.air
    simp only [air]
    omega

theorem Holds.fill (h : Holds table store content) (hblock : block.Known table) :
    ∃ store', store.fill block = some store' ∧
      Holds table store' (List.replicate SECTION_VOLUME block) ∧
      (∀ other ∈ store'.entries, other = .air ∨ other = block) ∧ (store.Narrow → store'.Narrow) ∧
      store'.airBlockCount = (List.replicate SECTION_VOLUME block).countP BlockId.isAir := by
  have hclear : (match store.palette with
      | some palette => palette.clear
      | none => .new) = Palette.new := by
    cases hpalette : store.palette with
    | none => rfl
    | some palette =>
      have free := (h.indexes palette hpalette).1.grown
      simp only [Palette.clear, free, Palette.new]
  obtain ⟨palette, index, hinsert, grown⟩ := grown_of_insert Palette.sound_new rfl block
  have two : palette.len ≤ 2 := grown.len_le_succ
  have wide : 2 ≤ 2 ^ store.blocks.bitsPerValue :=
    Nat.le_self_pow store.blocks.width.1.ne' 2
  have toNat : (BitVec.ofNat 64 index).toNat = index := by
    have := grown.index_lt
    rw [BitVec.toNat_ofNat]
    omega
  have fits : (BitVec.ofNat 64 index).toNat < 2 ^ store.blocks.bitsPerValue := by
    have := grown.index_lt
    omega
  obtain ⟨blocks, hfill, hview⟩ := PackedArray.exists_fill fits
  have hwidth : blocks.bitsPerValue = store.blocks.bitsPerValue := congrArg PackedArray.Row.width hview
  have hiter : blocks.iter = _ := congrArg PackedArray.Row.values hview
  refine ⟨⟨some palette, blocks, if block.isAir then SECTION_VOLUME else 0⟩, ?_,
    ⟨List.length_replicate, ?_, ?_, ?_, ?_⟩, ?_, ?_, ?_⟩
  · unfold BlockStore.fill
    rw [hclear]
    simp [hinsert, hfill]
  · simpa only [hwidth] using h.width
  · rw [hiter, h.length_blocks, List.map_replicate, List.map_replicate,
      decode_ofNat grown.index_lt (two.trans wide) store.blocks.width.2,
      Palette.get_of_getElem? grown.inserted.entry]
  · rintro _ ⟨⟩
    rw [hwidth, hiter]
    refine ⟨⟨grown.inserted.sound, grown.grown, grown.known (indexes_new 0) hblock, two.trans wide⟩, ?_⟩
    intro value hvalue
    rw [List.eq_of_mem_replicate hvalue, toNat]
    exact grown.index_lt
  · intro h
    cases h
  · intro other hother
    simpa [Palette.new] using grown.mem other hother
  · exact fun narrow => ⟨rfl, hwidth.trans_le narrow.width⟩
  · rw [List.countP_replicate]

/-! ### The global palette -/

section Global
variable {store' : BlockStore} {index : Nat}

theorem updateAirBlockCount_eq {old : BlockId} (h : store.updateAirBlockCount old block = some store') :
    ∃ count, store' = { store with airBlockCount := count } := by
  rw [updateAirBlockCount] at h
  split at h
  · split at h
    · cases h
    · exact ⟨_, (Option.some.inj h).symm⟩
  · split at h
    · exact ⟨_, (Option.some.inj h).symm⟩
    · exact ⟨store.airBlockCount, (Option.some.inj h).symm⟩

/-- The palette after a set is that after the block was resolved to a value. -/
theorem palette_of_setBlockAtIndex (h : store.setBlockAtIndex table index block = some store') :
    ∃ count resolved value, { store with airBlockCount := count }.getBlockPaletteIndex table block =
      some (resolved, value) ∧ store'.palette = resolved.palette := by
  rw [setBlockAtIndex] at h
  simp only [Option.bind_eq_bind, Option.bind_eq_some_iff, Option.pure_def, Option.some.injEq] at h
  obtain ⟨old, -, counted, hcount, ⟨resolved, value⟩, hresolved, blocks, -, rfl⟩ := h
  obtain ⟨count, rfl⟩ := updateAirBlockCount_eq hcount
  exact ⟨count, resolved, value, hresolved, rfl⟩

theorem palette_useGlobalPalette (h : store.useGlobalPalette table palette = some store') :
    store'.palette = none := by
  rw [useGlobalPalette] at h
  simp only [Option.bind_eq_bind, Option.bind_eq_some_iff, Option.pure_def, Option.some.injEq] at h
  obtain ⟨_, -, _, -, rfl⟩ := h
  rfl

theorem Holds.palette_overflowed (h : Holds table store content) (overflows : store.overflows block = true)
    (hset : store.setBlockAtIndex table index block = some store') : store'.palette = none := by
  cases hpalette : store.palette with
  | none => simp [BlockStore.overflows, hpalette] at overflows
  | some palette =>
    obtain ⟨fresh, hlen, hwidth⟩ := (overflows_iff hpalette).mp overflows
    obtain ⟨indexes, -⟩ := h.indexes palette hpalette
    obtain ⟨palette', i, hinsert, grown⟩ := grown_of_insert indexes.sound indexes.grown block
    obtain ⟨count, resolved, value, hresolved, hsame⟩ := palette_of_setBlockAtIndex hset
    have full : store.blocks.mask.toNat < palette'.len - 1 := by
      have mask : store.blocks.mask.toNat = 2 ^ store.blocks.bitsPerValue - 1 :=
        toNat_lowMask store.blocks.width.2
      rw [mask, hwidth, (grown.fresh fresh).1, hlen]
      decide
    have wide : MAX_BITS_PER_BLOCK < store.blocks.bitsPerValue + 1 := by
      rw [hwidth]
      exact Nat.lt_succ_self _
    rw [BlockStore.getBlockPaletteIndex] at hresolved
    simp only [hpalette, hinsert, resizeIfNeeded, if_pos full, dif_pos wide, Option.bind_eq_bind,
      Option.bind_some, Option.bind_eq_some_iff, Option.pure_def, Option.some.injEq, Prod.mk.injEq] at hresolved
    obtain ⟨_, hglobal, rfl, -⟩ := hresolved
    rw [hsame, palette_useGlobalPalette hglobal]

end Global
end Index
end BlockStore
end FpgaCraft.Server
