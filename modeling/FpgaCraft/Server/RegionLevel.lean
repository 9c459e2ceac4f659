import FpgaCraft.Server.ChunkEdits
import FpgaCraft.Server.RegionFile

/-! A chunk as NBT data (`feather/base/src/anvil/region.rs`): its blocks, each section with a palette
of block names. Light, biomes and entities are left out. A panic is `none`. -/
namespace FpgaCraft.Server
open Library

/-- The names of blocks, which are generated functions; a map of properties is a list. -/
structure BlockFns where
  identifier : BlockId → String
  toPropertiesMap : BlockId → List (String × String)
  fromIdentifierAndProperties : String → List (String × String) → Option BlockId

/-- The block is found again by its name. -/
def BlockFns.Names (fns : BlockFns) (block : BlockId) : Prop :=
  fns.fromIdentifierAndProperties (fns.identifier block) (fns.toPropertiesMap block) = some block

structure LevelPaletteEntry where
  name : String
  properties : Option (List (String × String))

structure LevelSection where
  y : Int
  states : List U64
  palette : List LevelPaletteEntry

structure ChunkLevel where
  xPos : I32
  zPos : I32
  sections : List LevelSection

/-- As many bits for a value as the words have room for. Words that are too few or too many for such
an array, whose reads then go out of bounds or leave some words out, are `none` as well. -/
def PackedArray.fromU64Vec (bits : List U64) (length : Nat) : Option PackedArray :=
  let bitsPerValue := bits.length * 64 / length
  if h : (0 < bitsPerValue ∧ bitsPerValue < 64) ∧ bits.length = neededU64s length bitsPerValue then
    some ⟨length, bitsPerValue, bits, h.1, h.2⟩
  else none

namespace BlockStore
variable (table : VanillaIdTable)

def countAirBlocks (blocks : PackedArray) (palette : Option Palette) : Option Nat :=
  (blocks.iter.mapM (decode table palette)).map fun blocks => blocks.countP BlockId.isAir

def fromRawParts (palette : Option Palette) (blocks : PackedArray) : Option BlockStore :=
  (countAirBlocks table blocks palette).map (BlockStore.mk palette blocks)

end BlockStore

/-! ### Saving -/

section Save
variable (fns : BlockFns)

def rawPaletteToPaletteEntries (palette : List BlockId) : List LevelPaletteEntry :=
  palette.map fun block => ⟨fns.identifier block, some (fns.toPropertiesMap block)⟩

/-- A store on the global palette has none to convert. -/
def convertPalette (store : BlockStore) : Option (List LevelPaletteEntry) :=
  store.palette.map fun palette => rawPaletteToPaletteEntries fns palette.blocks

def levelSection (y : Nat) (store : BlockStore) : Option LevelSection :=
  (convertPalette fns store).map fun palette => ⟨(y : Int) - 1, store.blocks.bits, palette⟩

/-- The sections that are kept, from the one of index `y` on. -/
def levelSections : Nat → List (Option BlockStore) → Option (List LevelSection)
  | _, [] => some []
  | y, none :: slots => levelSections (y + 1) slots
  | y, some store :: slots => do
    let first ← levelSection fns y store
    let rest ← levelSections (y + 1) slots
    pure (first :: rest)

def chunkToChunkRoot (pos : ChunkPosition) (chunk : Chunk) : Option (ChunkRoot ChunkLevel) :=
  (levelSections fns 0 chunk.sections).map fun sections => ⟨⟨pos.x, pos.z, sections⟩, DATA_VERSION⟩

end Save

/-! ### Loading -/

section Load
variable (fns : BlockFns) (table : VanillaIdTable)

def readPalette : List LevelPaletteEntry → Palette → Option (Except RegionError Palette)
  | [], palette => some (.ok palette)
  | entry :: entries, palette =>
    match fns.fromIdentifierAndProperties entry.name (entry.properties.getD []) with
    | none => some (.error (.invalidBlock entry.name))
    | some block => (palette.indexOrInsert block).bind fun result => readPalette entries result.1

def Chunk.setSectionAt (self : Chunk) (y : Int) (slot : Option BlockStore) : Option Chunk :=
  if 0 ≤ y + 1 ∧ y + 1 < self.sections.length then
    some { self with sections := self.sections.set (y + 1).toNat slot }
  else none

def readSectionIntoChunk (level : LevelSection) (chunk : Chunk) : Option (Except RegionError Chunk) := do
  match ← readPalette fns level.palette .new with
  | .error err => pure (.error err)
  | .ok palette =>
    let data ← if level.states.isEmpty then some (.new SECTION_VOLUME 4 (by decide))
      else PackedArray.fromU64Vec level.states SECTION_VOLUME
    let blocks ← BlockStore.fromRawParts table (some palette) data
    let chunk ← chunk.setSectionAt level.y (some blocks)
    pure (.ok chunk)

def readSections : List LevelSection → Chunk → Option (Except RegionError Chunk)
  | [], chunk => some (.ok chunk)
  | level :: levels, chunk =>
    (readSectionIntoChunk fns table level chunk).bind fun
      | .error err => some (.error err)
      | .ok chunk => readSections levels chunk

/-- The chunk of some NBT data; its heightmaps are not recalculated. -/
def readLevel (level : ChunkLevel) : Option (Except RegionError Chunk) :=
  readSections fns table level.sections .new

end Load

namespace RegionHandle
variable (fns : BlockFns) (table : VanillaIdTable) (nbt : Nbt ChunkLevel)

def saveChunk (self : RegionHandle) (pos : ChunkPosition) (chunk : Chunk) : Option RegionHandle :=
  (chunkToChunkRoot fns pos chunk).bind (self.saveRoot nbt pos)

def loadChunk (self : RegionHandle) (pos : ChunkPosition) : Option (Except RegionError Chunk) :=
  match self.loadRoot nbt pos with
  | .error err => some (.error err)
  | .ok root => readLevel fns table root.level

end RegionHandle

/-! ### What comes back -/

section Round
variable {fns : BlockFns} {table : VanillaIdTable} {store : BlockStore} {slots : List (Option BlockStore)}

/-- A section that is read again as it was saved, as its blocks have names. -/
structure BlockStore.Storable (fns : BlockFns) (table : VanillaIdTable) (store : BlockStore) : Prop where
  held : ∃ content, Holds table store content ∧ store.airBlockCount = content.countP BlockId.isAir
  narrow : store.Narrow
  named : ∀ block ∈ store.entries, fns.Names block

structure Chunk.Storable (fns : BlockFns) (table : VanillaIdTable) (chunk : Chunk) : Prop where
  length : chunk.sections.length = NUM_SECTIONS + 2
  stores : ∀ store, some store ∈ chunk.sections → store.Storable fns table

/-- The chunk as it is loaded again. -/
def Chunk.reloaded (chunk : Chunk) : Chunk := ⟨chunk.sections, .new⟩

theorem readPalette_entries {before after : List BlockId} (distinct : (before ++ after).Nodup)
    (named : ∀ block ∈ after, fns.Names block) :
    readPalette fns (rawPaletteToPaletteEntries fns after) ⟨before, []⟩ = some (.ok ⟨before ++ after, []⟩) := by
  induction after generalizing before with
  | nil =>
    rw [List.append_nil]
    rfl
  | cons block after ih =>
    have named_block : fns.fromIdentifierAndProperties (fns.identifier block) (fns.toPropertiesMap block) =
        some block := named block List.mem_cons_self
    have fresh : Palette.indexOf ⟨before, []⟩ block = none := by
      rw [Palette.indexOf_eq_none_iff]
      intro i hi
      exact (List.nodup_append.mp distinct).2.2 block (List.mem_of_getElem? hi) block List.mem_cons_self rfl
    have inserted : Palette.indexOrInsert ⟨before, []⟩ block = some (⟨before ++ [block], []⟩, before.length) := by
      rw [Palette.indexOrInsert, fresh]
      rfl
    rw [List.append_cons] at distinct ⊢
    rw [rawPaletteToPaletteEntries, List.map_cons, readPalette]
    simp only [Option.getD_some, named_block, inserted, Option.bind_some]
    exact ih distinct fun other hother => named other (List.mem_cons_of_mem _ hother)

theorem readPalette_palette {palette : Palette} {bits : Nat}
    (indexes : BlockStore.Indexes table palette bits) (named : ∀ block ∈ palette.blocks, fns.Names block) :
    readPalette fns (rawPaletteToPaletteEntries fns palette.blocks) .new = some (.ok palette) := by
  have distinct := indexes.sound.nodup_blocks indexes.grown
  obtain ⟨blocks, free⟩ := palette
  obtain rfl : free = [] := indexes.grown
  cases blocks with
  | nil => cases indexes.sound.first
  | cons first rest =>
    obtain rfl : first = .air := Option.some.inj indexes.sound.first
    have air : fns.fromIdentifierAndProperties (fns.identifier .air) (fns.toPropertiesMap .air) = some .air :=
      named .air List.mem_cons_self
    have kept : Palette.new.indexOrInsert .air = some (.new, 0) := rfl
    rw [rawPaletteToPaletteEntries, List.map_cons, readPalette]
    simp only [Option.getD_some, air, kept, Option.bind_some]
    exact @readPalette_entries _ [.air] rest distinct fun block hblock =>
      named block (List.mem_cons_of_mem _ hblock)

/-- The number of words tells the width, up to eight bits. -/
theorem fromU64Vec_bits {blocks : PackedArray} (length : blocks.length = SECTION_VOLUME)
    (width : blocks.bitsPerValue ≤ MAX_BITS_PER_BLOCK) :
    blocks.bits.isEmpty = false ∧ PackedArray.fromU64Vec blocks.bits SECTION_VOLUME = some blocks := by
  have table : ∀ w ≤ MAX_BITS_PER_BLOCK, 0 < w → PackedArray.neededU64s SECTION_VOLUME w ≠ 0 ∧
      PackedArray.neededU64s SECTION_VOLUME w * 64 / SECTION_VOLUME = w := by decide
  have filled := blocks.filled
  rw [length] at filled
  obtain ⟨words, same⟩ := table _ width blocks.width.1
  constructor
  · rw [List.isEmpty_eq_false_iff, ne_eq, ← List.length_eq_zero_iff, filled]
    exact words
  · obtain ⟨size, bitsPerValue, bits, hwidth, hfilled⟩ := blocks
    dsimp only at length filled same
    subst length
    rw [PackedArray.fromU64Vec]
    simp only [filled, same]
    rw [dif_pos ⟨hwidth, trivial⟩]

theorem mapM_eq_some_of_map {α β : Type} {f : α → Option β} {values : List α} {results : List β}
    (h : values.map f = results.map some) : values.mapM f = some results := by
  induction values generalizing results with
  | nil =>
    cases results with
    | nil => rfl
    | cons _ _ => cases h
  | cons value values ih =>
    cases results with
    | nil => cases h
    | cons result results =>
      obtain ⟨first, rest⟩ := List.cons.inj h
      rw [List.mapM_cons, first, ih rest]
      rfl

theorem BlockStore.Storable.fromRawParts (h : store.Storable fns table) :
    BlockStore.fromRawParts table store.palette store.blocks = some store := by
  obtain ⟨content, holds, air⟩ := h.held
  rw [BlockStore.fromRawParts, BlockStore.countAirBlocks, mapM_eq_some_of_map holds.values]
  simp only [Option.map_some, ← air]

/-- A section is read back as it was saved. -/
theorem BlockStore.Storable.reads (h : store.Storable fns table) {y : Nat} {chunk : Chunk}
    (inside : y < chunk.sections.length) :
    ∃ level, levelSection fns y store = some level ∧ readSectionIntoChunk fns table level chunk =
      some (.ok { chunk with sections := chunk.sections.set y (some store) }) := by
  obtain ⟨content, holds, -⟩ := h.held
  obtain ⟨palette, hpalette⟩ := Option.isSome_iff_exists.mp h.narrow.palette
  have named : ∀ block ∈ palette.blocks, fns.Names block := by
    intro block hblock
    exact h.named block (by simpa only [BlockStore.entries, hpalette] using hblock)
  obtain ⟨some_words, words⟩ := fromU64Vec_bits holds.length_blocks h.narrow.width
  have parts := h.fromRawParts
  rw [hpalette] at parts
  have place : (y : Int) - 1 + 1 = y := by omega
  refine ⟨⟨(y : Int) - 1, store.blocks.bits, _⟩, by rw [levelSection, convertPalette, hpalette]; rfl, ?_⟩
  simp only [readSectionIntoChunk, readPalette_palette (holds.indexes palette hpalette).1 named, some_words,
    words, parts, Chunk.setSectionAt, place, Option.bind_eq_bind, Option.bind_some, Bool.false_eq_true,
    if_false, Int.toNat_natCast]
  rw [if_pos ⟨by omega, by omega⟩]
  rfl

theorem exists_levelSections {y : Nat} {before : List (Option BlockStore)} (hy : before.length = y)
    (stores : ∀ store, some store ∈ slots → store.Storable fns table) (heightmaps : HeightmapStore) :
    ∃ levels, levelSections fns y slots = some levels ∧
      readSections fns table levels ⟨before ++ List.replicate slots.length none, heightmaps⟩ =
        some (.ok ⟨before ++ slots, heightmaps⟩) := by
  induction slots generalizing y before with
  | nil => exact ⟨[], rfl, rfl⟩
  | cons slot slots ih =>
    have next : (before ++ [slot]).length = y + 1 := by rw [List.length_append, hy, List.length_singleton]
    obtain ⟨levels, hlevels, hread⟩ := ih next fun store hstore => stores store (List.mem_cons_of_mem _ hstore)
    rw [List.append_assoc, List.append_assoc, List.singleton_append, List.singleton_append] at hread
    cases slot with
    | none => exact ⟨levels, hlevels, hread⟩
    | some store =>
      have inside : y < (before ++ List.replicate (slots.length + 1) (none : Option BlockStore)).length := by
        rw [List.length_append, List.length_replicate]
        omega
      obtain ⟨level, hlevel, hsection⟩ := @BlockStore.Storable.reads _ _ _ (stores store List.mem_cons_self) _
        ⟨before ++ List.replicate (slots.length + 1) none, heightmaps⟩ inside
      refine ⟨level :: levels, by rw [levelSections, hlevel, hlevels]; rfl, ?_⟩
      rw [List.replicate_succ, List.set_append_right _ _ hy.le, hy, Nat.sub_self, List.set_cons_zero] at hsection
      rw [readSections, List.length_cons, List.replicate_succ, hsection]
      exact hread

/-- A chunk whose sections can be stored is loaded as it was saved, but for its heightmaps. -/
theorem Chunk.Storable.reload {chunk : Chunk} (h : chunk.Storable fns table) (pos : ChunkPosition) :
    ∃ root, chunkToChunkRoot fns pos chunk = some root ∧
      readLevel fns table root.level = some (.ok chunk.reloaded) := by
  obtain ⟨levels, hlevels, hread⟩ := @exists_levelSections _ _ _ 0 [] rfl h.stores .new
  refine ⟨⟨⟨pos.x, pos.z, levels⟩, DATA_VERSION⟩, by rw [chunkToChunkRoot, hlevels]; rfl, ?_⟩
  rw [h.length] at hread
  exact hread

/-- A save panics exactly for a section that is kept without a palette of its own. -/
theorem levelSections_eq_none_iff {y : Nat} :
    levelSections fns y slots = none ↔ ∃ store, some store ∈ slots ∧ store.palette = none := by
  induction slots generalizing y with
  | nil => simp [levelSections]
  | cons slot slots ih =>
    cases slot with
    | none => simp [levelSections, ih]
    | some store =>
      have first : levelSection fns y store = none ↔ store.palette = none := by
        simp only [levelSection, convertPalette, Option.map_eq_none_iff]
      have both : levelSections fns y (some store :: slots) = none ↔
          levelSection fns y store = none ∨ levelSections fns (y + 1) slots = none := by
        rw [levelSections]
        cases levelSection fns y store <;> cases levelSections fns (y + 1) slots <;> simp
      rw [both, first, ih]
      simp

theorem chunkToChunkRoot_eq_none_iff {pos : ChunkPosition} {chunk : Chunk} :
    chunkToChunkRoot fns pos chunk = none ↔ ∃ store, some store ∈ chunk.sections ∧ store.palette = none := by
  rw [chunkToChunkRoot, Option.map_eq_none_iff, levelSections_eq_none_iff]

theorem BlockStore.Exactly.storable {allowed : List BlockId} {cells : Cells}
    (h : BlockStore.Exactly table allowed store cells)
    (named : ∀ block, block = .air ∨ block ∈ allowed → fns.Names block) : store.Storable fns table where
  held := ⟨cells.flat, h.counted.holds, h.air.symm⟩
  narrow := h.narrow
  named := fun block hblock => named block (h.entries block hblock)

/-- A chunk that edits built, with at most 255 named blocks besides air in a section, can be saved. -/
theorem Chunk.storable_of_run {traits : BlockTraits} {allowed : Nat → List BlockId}
    (few : ∀ i, (allowed i).length ≤ 255) (known : ∀ i, ∀ block ∈ allowed i, block.Known table)
    (named : ∀ i block, block = .air ∨ block ∈ allowed i → fns.Names block) {edits : List ChunkEdit}
    (uses : ∀ e ∈ edits, e.Uses allowed False) :
    ∃ chunk, run (Chunk.edit table traits) edits .new = some chunk ∧ chunk.Storable fns table := by
  obtain ⟨chunk, hrun, h⟩ := @Chunk.holds_run _ traits _ _ few known _ uses
  refine ⟨chunk, hrun, h.length, ?_⟩
  intro store hstore
  obtain ⟨i, hi⟩ := List.mem_iff_getElem?.mp hstore
  obtain ⟨held, exactly, -⟩ := h.slots i (some store) hi
  exact exactly.storable (named i)

end Round

/-! ### Sections that were on the global palette -/

def BlockFns.airOrStone : BlockFns where
  identifier block := if block.isAir then "minecraft:air" else "minecraft:stone"
  toPropertiesMap _ := []
  fromIdentifierAndProperties name _ := if name = "minecraft:air" then some .air
    else if name = "minecraft:stone" then some ⟨.stone, 0⟩ else none

/-- A block of notes, each of another pitch, in one cell. -/
def noteBlocks : List ((Nat × Nat × Nat) × BlockId) := (List.range 256).map fun i => ((1, 2, 3), ⟨.noteBlock, i⟩)

section Notes
variable {s : (Nat × Nat × Nat) × BlockId}

theorem cell_noteBlocks (h : s ∈ noteBlocks) : s.1.1 < 16 ∧ s.1.2.1 < 16 ∧ s.1.2.2 < 16 := by
  obtain ⟨i, -, rfl⟩ := List.mem_map.mp h
  exact (by decide : 1 < 16 ∧ 2 < 16 ∧ 3 < 16)

theorem known_noteBlocks (h : s ∈ noteBlocks) : s.2.Known .inOrder := by
  obtain ⟨i, hi, rfl⟩ := List.mem_map.mp h
  rw [List.mem_range] at hi
  exact BlockId.known_noteBlock .inOrder (by omega)

theorem ne_air_noteBlocks (h : s ∈ noteBlocks) : s.2 ≠ .air := by
  obtain ⟨i, -, rfl⟩ := List.mem_map.mp h
  intro air
  cases congrArg BlockId.kind air

theorem nodup_noteBlocks : (noteBlocks.map Prod.snd).Nodup := by
  rw [noteBlocks, List.map_map]
  apply List.nodup_range.map
  intro i j same
  simpa using same

theorem length_noteBlocks : noteBlocks.length = 256 := by
  rw [noteBlocks, List.length_map, List.length_range]

end Notes

section Refilled
variable {fns : BlockFns} {table : VanillaIdTable} {store store' : BlockStore} {content : List BlockId}
  {block : BlockId}

/-- A word of four values 1 of 15 bits. -/
def filledWord : U64 := 1 ||| 1 <<< 15 ||| 1 <<< 30 ||| 1 <<< 45

theorem BlockStore.Holds.refill (h : Holds table store content) (global : store.palette = none)
    (proper : block ≠ .air) (hfill : store.fill block = some store') :
    store'.palette = some ⟨[.air, block], []⟩ ∧ store'.blocks.bits = List.replicate 1024 filledWord := by
  have wide : store.blocks.bitsPerValue = 15 := h.ids global
  have words : store.blocks.bits.length = 1024 := by
    rw [store.blocks.filled, h.length_blocks, wide]
    rfl
  have inserted : Palette.new.indexOrInsert block = some (⟨[.air, block], []⟩, 1) := by
    have fresh : Palette.new.indexOf block = none := by
      rw [Palette.indexOf_eq_none_iff]
      intro i hi
      obtain rfl : block = .air := List.mem_singleton.mp (List.mem_of_getElem? hi)
      exact proper rfl
    rw [Palette.indexOrInsert, fresh]
    rfl
  rw [BlockStore.fill, global] at hfill
  simp only [inserted, Option.bind_eq_bind, Option.bind_some, Option.bind_eq_some_iff, Option.pure_def,
    Option.some.injEq] at hfill
  obtain ⟨blocks, hblocks, rfl⟩ := hfill
  rw [PackedArray.fill, Option.ite_none_right_eq_some, Option.some.injEq] at hblocks
  obtain ⟨-, rfl⟩ := hblocks
  refine ⟨rfl, ?_⟩
  dsimp only
  rw [words, wide]
  rfl

/-- The array that is read from such words. -/
def PackedArray.misread : PackedArray where
  length := SECTION_VOLUME
  bitsPerValue := 16
  bits := List.replicate 1024 filledWord
  width := by decide
  filled := List.length_replicate

theorem fromU64Vec_misread :
    PackedArray.fromU64Vec (List.replicate 1024 filledWord) SECTION_VOLUME = some .misread := by
  have words : (List.replicate 1024 filledWord).length = 1024 := List.length_replicate
  rw [PackedArray.fromU64Vec]
  simp only [words]
  rfl

/-- Each value is out of the bounds of the palette, but for the last of a word, which is zero. -/
theorem decode_misread : PackedArray.misread.iter.map (BlockStore.decode table (some ⟨[.air, block], []⟩)) =
    (List.replicate SECTION_VOLUME .air).map some := by
  rw [List.map_replicate, List.eq_replicate_iff]
  refine ⟨by rw [List.length_map, PackedArray.length_iter]; rfl, ?_⟩
  intro result hresult
  obtain ⟨value, hvalue, rfl⟩ := List.mem_map.mp hresult
  obtain ⟨word, hword, hvalue⟩ := List.mem_flatMap.mp (List.mem_of_mem_take hvalue)
  obtain rfl := List.eq_of_mem_replicate hword
  obtain ⟨i, hi, rfl⟩ := List.mem_map.mp hvalue
  have values : ∀ i < 4, (filledWord >>> (i * 16) &&& PackedArray.misread.mask).toNat = 0 ∨
      2 ≤ (filledWord >>> (i * 16) &&& PackedArray.misread.mask).toNat := by decide
  rw [BlockStore.decode, Palette.get]
  rcases values i (List.mem_range.mp hi) with zero | outside
  · rw [show (filledWord >>> (i * PackedArray.misread.bitsPerValue) &&& PackedArray.misread.mask).toNat = 0 from zero]
    rfl
  · rw [List.getElem?_eq_none outside]
    rfl

variable (block) in
def BlockStore.misread : BlockStore := ⟨some ⟨[.air, block], []⟩, .misread, SECTION_VOLUME⟩

theorem blockAt_misread {x y z : Nat} (inside : x < 16 ∧ y < 16 ∧ z < 16) :
    (BlockStore.misread block).blockAt table x y z = some (some .air) := by
  have index := BlockStore.index_lt inside
  have read := congrArg (fun values => values[y * 256 + (z * 16 + x)]?) (@decode_misread table block)
  simp only [List.getElem?_map, List.getElem?_replicate, if_pos index, Option.map_some,
    Option.map_eq_some_iff] at read
  obtain ⟨value, hvalue, hdecode⟩ := read
  rw [BlockStore.blockAt, blockIndex_eq inside.1 inside.2.1 inside.2.2]
  simp only [BlockStore.blockAtIndex, PackedArray.get_eq, BlockStore.misread, hvalue, Option.bind_some, hdecode,
    Option.map_some]

theorem fromRawParts_misread :
    BlockStore.fromRawParts table (some ⟨[.air, block], []⟩) .misread = some (.misread block) := by
  rw [BlockStore.fromRawParts, BlockStore.countAirBlocks, mapM_eq_some_of_map decode_misread, Option.map_some,
    List.countP_replicate]
  rfl

/-- Whatever 256 distinct blocks besides air are set in a new section, and whatever is set later: once
the section is filled with a block, it is saved without a failure, and loaded as air. -/
theorem refilled_section_reads_air (fns : BlockFns) (table : VanillaIdTable)
    (sets later : List ((Nat × Nat × Nat) × BlockId))
    (inside : ∀ s ∈ sets, s.1.1 < 16 ∧ s.1.2.1 < 16 ∧ s.1.2.2 < 16)
    (known : ∀ s ∈ sets ++ later, s.2.Known table) (proper : ∀ s ∈ sets, s.2 ≠ .air)
    (distinct : (sets.map Prod.snd).Nodup) (full : sets.length = 256) (block : BlockId)
    (hblock : block.Known table) (hair : block ≠ .air) (named : fns.Names .air ∧ fns.Names block) :
    ∃ store reread, run (BlockStore.edit table)
        ((sets ++ later).map (fun s => .set s.1.1 s.1.2.1 s.1.2.2 s.2) ++ [.fill block]) .new = some store ∧
      (∀ x y z, x < 16 ∧ y < 16 ∧ z < 16 → store.blockAt table x y z = some (some block) ∧
        reread.blockAt table x y z = some (some .air)) ∧
      ∀ (chunk : Chunk) (y : Nat), y < chunk.sections.length →
        ∃ level, levelSection fns y store = some level ∧ readSectionIntoChunk fns table level chunk =
          some (.ok { chunk with sections := chunk.sections.set y (some reread) }) := by
  obtain ⟨before, cells, hrun, h, global⟩ := BlockStore.palette_of_full inside known proper distinct full
  obtain ⟨store, hfill, holds, -⟩ := h.holds.fill hblock
  obtain ⟨palette, words⟩ := h.holds.refill global hair hfill
  rw [← Cells.flat_const] at holds
  refine ⟨store, .misread block, (run_concat_eq_some _).mpr ⟨before, hrun, hfill⟩, fun x y z within => ⟨?_, ?_⟩,
    fun chunk y bound => ?_⟩
  · rw [holds.blockAt, if_pos within]
  · exact blockAt_misread within
  · have read := readPalette_palette (holds.indexes _ palette).1 fun other hother => by
      simp only [List.mem_cons, List.not_mem_nil, or_false] at hother
      rcases hother with rfl | rfl
      · exact named.1
      · exact named.2
    have some_words : (List.replicate 1024 filledWord).isEmpty = false := rfl
    have place : (y : Int) - 1 + 1 = y := by omega
    refine ⟨⟨(y : Int) - 1, store.blocks.bits, _⟩, by rw [levelSection, convertPalette, palette]; rfl, ?_⟩
    simp only [readSectionIntoChunk, read, words, some_words, fromU64Vec_misread, fromRawParts_misread,
      Chunk.setSectionAt, place, Option.bind_eq_bind, Option.bind_some, Bool.false_eq_true, if_false,
      Int.toNat_natCast]
    rw [if_pos ⟨by omega, by omega⟩]
    rfl

theorem refilled_section_reads_air_stone : ∃ store reread,
    run (BlockStore.edit .inOrder)
        (noteBlocks.map (fun s => .set s.1.1 s.1.2.1 s.1.2.2 s.2) ++ [.fill ⟨.stone, 0⟩]) .new = some store ∧
      store.blockAt .inOrder 4 5 6 = some (some ⟨.stone, 0⟩) ∧
      ∃ level, levelSection .airOrStone 3 store = some level ∧
        readSectionIntoChunk .airOrStone .inOrder level .new =
          some (.ok { Chunk.new with sections := Chunk.new.sections.set 3 (some reread) }) ∧
        reread.blockAt .inOrder 4 5 6 = some (some .air) := by
  obtain ⟨store, reread, hrun, reads, saved⟩ := refilled_section_reads_air .airOrStone .inOrder noteBlocks []
    (fun _ => cell_noteBlocks) (fun s hs => known_noteBlocks (by rwa [List.append_nil] at hs))
    (fun _ => ne_air_noteBlocks) nodup_noteBlocks length_noteBlocks ⟨.stone, 0⟩ (BlockId.known_stone _)
    (by decide) ⟨rfl, rfl⟩
  rw [List.append_nil] at hrun
  obtain ⟨level, hlevel, hread⟩ := saved .new 3 (by decide)
  obtain ⟨before, after⟩ := reads 4 5 6 (by decide)
  exact ⟨store, reread, hrun, before, level, hlevel, hread, after⟩

end Refilled
end FpgaCraft.Server
