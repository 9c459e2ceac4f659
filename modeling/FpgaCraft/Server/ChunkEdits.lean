import FpgaCraft.Server.Chunk

/-! Runs of edits of a chunk. -/
namespace FpgaCraft.Server
open Library

inductive ChunkEdit where
  | set (x y z : Nat) (block : BlockId)
  | fill (i : Nat) (block : BlockId)
  | recalculate

abbrev Column : Type := Nat → Cells

namespace ChunkEdit

def apply : ChunkEdit → Column → Column
  | .set x y z block, column => Function.update column (Chunk.sectionForY y)
      ((column (Chunk.sectionForY y)).set x (y % SECTION_HEIGHT) z block)
  | .fill i block, column => Function.update column i fun _ _ _ => block
  | .recalculate, column => column

def lastSet (edits : List ChunkEdit) : Column :=
  edits.foldl (fun column e => e.apply column) fun _ _ _ _ => .air

/-- The edits whose callers stay in the columns of the chunk, with the blocks allowed for a section.
Where sections are to be `tight`, none is filled with another kind of air. -/
def Uses (allowed : Nat → List BlockId) (tight : Prop) : ChunkEdit → Prop
  | .set x y z block => x < 16 ∧ z < 16 ∧ (block = .air ∨ block ∈ allowed (Chunk.sectionForY y))
  | .fill i block => (block = .air ∨ block ∈ allowed i) ∧ (tight → block = .air ∨ block.isAir = false)
  | .recalculate => True

end ChunkEdit

namespace Chunk
variable (table : VanillaIdTable) (traits : BlockTraits)

def edit : ChunkEdit → Chunk → Option Chunk
  | .set x y z block, chunk => (chunk.setBlockAt table traits x y z block).map Prod.fst
  | .fill i block, chunk => (chunk.fillSection i block).map Prod.fst
  | .recalculate, chunk => chunk.recalculateHeightmaps table traits

def cells (chunk : Chunk) : Nat → Nat → Nat → BlockId :=
  fun x y z => (blockAtFn table chunk.sections x y z).getD .air

/-- The chunk holds its columns, and below `limit` its heightmaps cover their blocks. -/
structure Holds (allowed : Nat → List BlockId) (tight : Prop) (limit : Nat) (chunk : Chunk)
    (column : Column) : Prop where
  length : chunk.sections.length = NUM_SECTIONS + 2
  slots : ∀ i slot, chunk.sections[i]? = some slot → SlotHolds table (allowed i) tight slot (column i)
  maps : ∀ p ∈ chunk.heightmaps.maps traits,
    p.2.Valid ∧ p.2.Covers p.1 (chunk.cells table) limit

variable {table traits} {allowed : Nat → List BlockId} {tight : Prop} {limit : Nat} {chunk : Chunk} {column : Column}
  {x y z : Nat} {block : BlockId}

theorem cells_new (x y z : Nat) : new.cells table x y z = .air := by
  have slot : new.sections[sectionForY y]? = some none ∨ new.sections[sectionForY y]? = none := by
    simp only [new, List.getElem?_replicate]
    split
    · exact .inl rfl
    · exact .inr rfl
  rw [cells, blockAtFn]
  rcases slot with h | h
  all_goals rw [h]; rfl

theorem holds_new : Holds table traits allowed tight limit new fun _ _ _ _ => .air := by
  refine ⟨List.length_replicate, ?_, ?_⟩
  · intro i slot hslot
    obtain rfl := List.eq_of_mem_replicate (List.mem_of_getElem? hslot)
    exact fun _ _ _ _ => rfl
  · intro p hp
    have fresh : p.2 = .new := by
      simp only [HeightmapStore.maps, new, HeightmapStore.new, List.mem_cons, List.not_mem_nil,
        or_false] at hp
      rcases hp with rfl | rfl | rfl | rfl | rfl
      all_goals rfl
    rw [fresh]
    refine ⟨Heightmap.valid_new, Heightmap.covers_new ?_⟩
    intro x y z
    rw [cells_new]
    exact HeightmapStore.isSolid_air _ hp rfl

theorem Holds.exists_slot (h : Holds table traits allowed tight limit chunk column) (hy : y < 272) :
    ∃ slot, chunk.sections[sectionForY y]? = some slot := by
  have bound : sectionForY y < chunk.sections.length := by
    rw [h.length, sectionForY]
    simp only [SECTION_HEIGHT, NUM_SECTIONS]
    omega
  exact ⟨_, List.getElem?_eq_getElem bound⟩

theorem Holds.no_slot (h : Holds table traits allowed tight limit chunk column) (hy : ¬y < 272) :
    chunk.sections[sectionForY y]? = none := by
  apply List.getElem?_eq_none
  rw [h.length, sectionForY]
  simp only [SECTION_HEIGHT, NUM_SECTIONS]
  omega

theorem cells_eq {slot : Option BlockStore} (hslot : chunk.sections[sectionForY y]? = some slot)
    (hread : readSlot table slot x (y % SECTION_HEIGHT) z = some (some block)) :
    chunk.cells table x y z = block := by
  rw [cells, blockAtFn, hslot, Option.bind_some, hread]
  rfl

theorem Holds.read (h : Holds table traits allowed tight limit chunk column) (hx : x < 16) (hz : z < 16)
    (hy : y < 272) : blockAtFn table chunk.sections x y z = some (chunk.cells table x y z) ∧
      chunk.blockAt table x y z = some (some (chunk.cells table x y z)) ∧
      (chunk.cells table x y z).Same (column (sectionForY y) x (y % SECTION_HEIGHT) z) := by
  obtain ⟨slot, hslot⟩ := h.exists_slot hy
  have inside : x < 16 ∧ y % SECTION_HEIGHT < 16 ∧ z < 16 := ⟨hx, Nat.mod_lt _ (by decide), hz⟩
  obtain ⟨b, hread, same⟩ := (h.slots _ slot hslot).read x (y % SECTION_HEIGHT) z
  rw [if_pos (.inr inside)] at hread
  have hfn : blockAtFn table chunk.sections x y z = some b := by
    rw [blockAtFn, hslot, Option.bind_some, hread]
    rfl
  rw [cells_eq hslot hread]
  refine ⟨hfn, ?_, same inside⟩
  rw [Chunk.blockAt, hslot]
  exact hread

theorem Holds.known (h : Holds table traits allowed tight limit chunk column) (hx : x < 16) (hz : z < 16)
    (hy : y < 272) : (chunk.cells table x y z).Known table := by
  obtain ⟨slot, hslot⟩ := h.exists_slot hy
  have read := (h.read hx hz hy).2.1
  rw [Chunk.blockAt, hslot] at read
  exact (h.slots _ slot hslot).known read

theorem cells_set {slot' : Option BlockStore} (sections : List (Option BlockStore)) (i : Nat)
    (heightmaps : HeightmapStore) (x y z : Nat) :
    cells table ⟨sections.set i slot', heightmaps⟩ x y z =
      if i = sectionForY y ∧ i < sections.length
      then ((readSlot table slot' x (y % SECTION_HEIGHT) z).join).getD .air
      else cells table ⟨sections, heightmaps⟩ x y z := by
  simp only [cells, blockAtFn, List.getElem?_set]
  by_cases same : i = sectionForY y
  · by_cases bound : i < sections.length
    · rw [if_pos same, if_pos bound, if_pos ⟨same, bound⟩, Option.bind_some]
    · simp [same, show ¬sectionForY y < sections.length from same ▸ bound]
  · simp [same]

theorem slots_set (h : Holds table traits allowed tight limit chunk column) {i : Nat}
    {slot' : Option BlockStore} {cells : Cells} (hslot' : SlotHolds table (allowed i) tight slot' cells) :
    ∀ j slot, (chunk.sections.set i slot')[j]? = some slot →
      SlotHolds table (allowed j) tight slot (Function.update column i cells j) := by
  intro j slot hslot
  rw [List.getElem?_set] at hslot
  by_cases hij : i = j
  · subst hij
    rw [if_pos rfl, Option.ite_none_right_eq_some] at hslot
    obtain rfl := Option.some.inj hslot.2
    rw [Function.update_self]
    exact hslot'
  · rw [if_neg hij] at hslot
    rw [Function.update_of_ne (Ne.symm hij)]
    exact h.slots j slot hslot

section Few
variable (few : ∀ i, (allowed i).length ≤ 255) (known : ∀ i, ∀ block ∈ allowed i, block.Known table)
include few known

omit few known in
theorem Holds.withSlots (h : Holds table traits allowed tight limit chunk column)
    {sections : List (Option BlockStore)} (length : sections.length = chunk.sections.length)
    {column' : Column}
    (slots : ∀ i slot, sections[i]? = some slot → SlotHolds table (allowed i) tight slot (column' i)) :
    Holds table traits allowed tight 0 ⟨sections, chunk.heightmaps⟩ column' := by
  refine ⟨length.trans h.length, slots, ?_⟩
  intro p hp
  refine ⟨(h.maps p hp).1, ?_⟩
  intro x z _ _ y _ hy
  exact absurd hy (Nat.not_lt_zero y)

omit few known in
theorem sectionForY_inj {y y' : Nat} (section_eq : sectionForY y' = sectionForY y)
    (mod_eq : y' % SECTION_HEIGHT = y % SECTION_HEIGHT) : y' = y := by
  simp only [sectionForY, SECTION_HEIGHT] at section_eq mod_eq
  omega

theorem Holds.setBlockAt (h : Holds table traits allowed tight limit chunk column) (hlimit : limit ≤ 272)
    (hx : x < 16) (hz : z < 16) (hblock : block = .air ∨ block ∈ allowed (sectionForY y)) :
    ∃ chunk', chunk.setBlockAt table traits x y z block = some (chunk', decide (y < 272)) ∧
      Holds table traits allowed tight limit chunk' ((ChunkEdit.set x y z block).apply column) := by
  by_cases hy : y < 272
  · obtain ⟨slot, hslot⟩ := h.exists_slot hy
    have inside (y' : Nat) {x' z' : Nat} (hx' : x' < 16) (hz' : z' < 16) :
        x' < 16 ∧ y' % SECTION_HEIGHT < 16 ∧ z' < 16 := ⟨hx', Nat.mod_lt _ (by decide), hz'⟩
    obtain ⟨slot', hset, hslot', moved⟩ :=
      (h.slots _ slot hslot).set (few _) (known _) hblock (inside y hx hz)
    have bound : sectionForY y < chunk.sections.length := (List.getElem?_eq_some_iff.mp hslot).1
    have mid := h.withSlots (by rw [List.length_set]) (slots_set h hslot')
    -- what a read finds afterwards at a height of the section
    have after (x' y' z' : Nat) (hx' : x' < 16) (hz' : z' < 16) (hy' : y' < 272)
        (hsection : sectionForY y' = sectionForY y) :=
      moved.reads x' (y' % SECTION_HEIGHT) z' _ (inside y' hx' hz') (by
        have read := (mid.read hx' hz' hy').2.1
        rw [Chunk.blockAt, hsection, List.getElem?_set_self bound] at read
        exact read)
    have step (isSolid : HeightmapFunction) (map : Heightmap)
        (hmap : (map.Valid ∧ map.Covers isSolid (chunk.cells table) limit) ∧
          ∀ b : BlockId, b.isAir = true → isSolid b = false) :
        ∃ map', map.update isSolid x y z (chunk.cells table x y z) block
            (blockAtFn table (chunk.sections.set (sectionForY y) slot')) = some map' ∧
          map'.Valid ∧ map'.Covers isSolid
            (cells table ⟨chunk.sections.set (sectionForY y) slot', chunk.heightmaps⟩) limit := by
      apply hmap.1.1.update hx hz (by omega) hmap.1.2
      · intro i hi
        exact (mid.read hx hz (by omega)).1
      · intro x' y' z' hx' hz' hy' hne hsolid
        by_cases hsection : sectionForY y' = sectionForY y
        · rcases after x' y' z' hx' hz' (by omega) hsection with air | read
          · rw [air, hmap.2 .air rfl] at hsolid
            cases hsolid
          · rw [if_neg] at read
            · rw [cells_eq (hsection ▸ hslot) read]
              exact hsolid
            · rintro ⟨hx, hmod, hz⟩
              exact hne (by rw [hx, hz, sectionForY_inj hsection hmod])
        · rw [cells_set, if_neg (fun same => hsection same.1.symm)] at hsolid
          exact hsolid
      · intro hsolid
        rcases after x y z hx hz hy rfl with air | read
        · rw [air, hmap.2 .air rfl] at hsolid
          cases hsolid
        · rw [if_pos ⟨rfl, rfl, rfl⟩] at read
          rw [← read]
          exact hsolid
    obtain ⟨heightmaps, hupdate, hmaps⟩ := HeightmapStore.exists_forEach
      (fun p hp => ⟨h.maps p hp, fun b => HeightmapStore.isSolid_air _ hp⟩) step
    refine ⟨⟨chunk.sections.set (sectionForY y) slot', heightmaps⟩, ?_, mid.length, mid.slots, hmaps⟩
    have read := (h.read hx hz hy).2.1
    rw [Chunk.setBlockAt, read, Option.bind_some, hslot]
    simp only [hset, decide_eq_true hy, Option.bind_eq_bind, Option.bind_some, HeightmapStore.update,
      hupdate]
    rfl
  · refine ⟨chunk, ?_, h.length, ?_, h.maps⟩
    · rw [Chunk.setBlockAt, Chunk.blockAt, h.no_slot hy, decide_eq_false hy]
      rfl
    · intro i slot hslot
      have other : i ≠ sectionForY y := by
        rintro rfl
        rw [h.no_slot hy] at hslot
        cases hslot
      rw [ChunkEdit.apply, Function.update_of_ne other]
      exact h.slots i slot hslot

theorem Holds.fillSection (h : Holds table traits allowed tight limit chunk column) {i : Nat}
    (hblock : block = .air ∨ block ∈ allowed i) (proper : tight → block = .air ∨ block.isAir = false) :
    ∃ chunk', chunk.fillSection i block = some (chunk', decide (i < NUM_SECTIONS + 2)) ∧
      Holds table traits allowed tight 0 chunk' ((ChunkEdit.fill i block).apply column) := by
  rw [← h.length]
  by_cases hi : i < chunk.sections.length
  · have hslot := List.getElem?_eq_getElem hi
    obtain ⟨slot', hfill, hslot'⟩ := (h.slots i _ hslot).fill (few i) (known i) hblock proper
    refine ⟨⟨chunk.sections.set i slot', chunk.heightmaps⟩, ?_,
      h.withSlots (by rw [List.length_set]) (slots_set h hslot')⟩
    rw [Chunk.fillSection, hslot, decide_eq_true hi]
    simp only [hfill, Option.bind_eq_bind, Option.bind_some]
    rfl
  · have hslot : chunk.sections[i]? = none := List.getElem?_eq_none (Nat.le_of_not_lt hi)
    refine ⟨chunk, by rw [Chunk.fillSection, hslot, decide_eq_false hi], h.withSlots rfl ?_⟩
    intro j slot hslot'
    have other : j ≠ i := by
      rintro rfl
      rw [hslot] at hslot'
      cases hslot'
    rw [ChunkEdit.apply, Function.update_of_ne other]
    exact h.slots j slot hslot'

omit few known in
theorem Holds.recalculateHeightmaps (h : Holds table traits allowed tight limit chunk column) :
    ∃ chunk', chunk.recalculateHeightmaps table traits = some chunk' ∧
      Holds table traits allowed tight CHUNK_HEIGHT chunk' column := by
  have step (isSolid : HeightmapFunction) (map : Heightmap) (valid : map.Valid) :
      ∃ map', map.recalculate isSolid (blockAtFn table chunk.sections) = some map' ∧
        map'.Valid ∧ map'.Covers isSolid (chunk.cells table) CHUNK_HEIGHT := by
    apply valid.recalculate
    intro x z hx hz y hy
    simp only [CHUNK_HEIGHT] at hy
    exact (h.read hx hz (by omega)).1
  obtain ⟨heightmaps, hrecalculate, hmaps⟩ :=
    HeightmapStore.exists_forEach (fun p hp => (h.maps p hp).1) step
  refine ⟨⟨chunk.sections, heightmaps⟩, ?_, h.length, h.slots, hmaps⟩
  rw [Chunk.recalculateHeightmaps, HeightmapStore.recalculate, hrecalculate]
  rfl

omit few known in
theorem Holds.uncovered (h : Holds table traits allowed tight limit chunk column) :
    Holds table traits allowed tight 0 chunk column :=
  h.withSlots rfl h.slots

theorem Holds.edit (h : Holds table traits allowed tight 0 chunk column) {e : ChunkEdit}
    (he : e.Uses allowed tight) : ∃ chunk', Chunk.edit table traits e chunk = some chunk' ∧
      Holds table traits allowed tight 0 chunk' (e.apply column) := by
  cases e with
  | set x y z block =>
    obtain ⟨chunk', hset, h'⟩ := h.setBlockAt few known (Nat.zero_le _) he.1 he.2.1 he.2.2
    exact ⟨chunk', by rw [Chunk.edit, hset, Option.map_some], h'⟩
  | fill i block =>
    obtain ⟨chunk', hfill, h'⟩ := h.fillSection few known he.1 he.2
    exact ⟨chunk', by rw [Chunk.edit, hfill, Option.map_some], h'⟩
  | recalculate =>
    obtain ⟨chunk', hrecalculate, h'⟩ := h.recalculateHeightmaps
    exact ⟨chunk', hrecalculate, h'.uncovered⟩

theorem Holds.edit_covered (h : Holds table traits allowed tight CHUNK_HEIGHT chunk column) {e : ChunkEdit}
    (he : e.Uses allowed tight) (nofill : ∀ i block, e ≠ .fill i block) :
    ∃ chunk', Chunk.edit table traits e chunk = some chunk' ∧
      Holds table traits allowed tight CHUNK_HEIGHT chunk' (e.apply column) := by
  cases e with
  | set x y z block =>
    obtain ⟨chunk', hset, h'⟩ := h.setBlockAt few known (by decide) he.1 he.2.1 he.2.2
    exact ⟨chunk', by rw [Chunk.edit, hset, Option.map_some], h'⟩
  | fill i block => exact absurd rfl (nofill i block)
  | recalculate => exact h.recalculateHeightmaps

theorem holds_run {edits : List ChunkEdit} (uses : ∀ e ∈ edits, e.Uses allowed tight) :
    ∃ chunk, run (edit table traits) edits new = some chunk ∧ Holds table traits allowed tight 0 chunk
      (ChunkEdit.lastSet edits) := by
  induction edits using List.reverseRecOn with
  | nil => exact ⟨new, rfl, holds_new⟩
  | append_singleton edits e ih =>
    obtain ⟨chunk, hrun, h⟩ := ih fun e he => uses e (List.mem_append_left _ he)
    obtain ⟨chunk', hedit, h'⟩ := h.edit few known (uses e (by simp))
    refine ⟨chunk', (run_concat_eq_some _).mpr ⟨chunk, hrun, hedit⟩, ?_⟩
    rw [ChunkEdit.lastSet, List.foldl_append]
    exact h'

theorem covered_run {edits : List ChunkEdit} (uses : ∀ e ∈ edits, e.Uses allowed tight)
    (nofill : ∀ e ∈ edits, ∀ i block, e ≠ .fill i block)
    (h : Holds table traits allowed tight CHUNK_HEIGHT chunk column) :
    ∃ chunk' column', run (edit table traits) edits chunk = some chunk' ∧
      Holds table traits allowed tight CHUNK_HEIGHT chunk' column' := by
  induction edits generalizing chunk column with
  | nil => exact ⟨chunk, column, rfl, h⟩
  | cons e edits ih =>
    obtain ⟨mid, hedit, hmid⟩ := h.edit_covered few known (uses e (by simp)) (nofill e (by simp))
    obtain ⟨chunk', column', hrun, h'⟩ := ih (fun e he => uses e (List.mem_cons_of_mem _ he))
      (fun e he => nofill e (List.mem_cons_of_mem _ he)) hmid
    exact ⟨chunk', column', (run_cons_eq_some _).mpr ⟨mid, hedit, hrun⟩, h'⟩

end Few

theorem Holds.blockAt (h : Holds table traits allowed tight limit chunk column) (hx : x < 16)
    (hz : z < 16) : if y < 272 then
      ∃ b, chunk.blockAt table x y z = some (some b) ∧
        b.Same (column (sectionForY y) x (y % SECTION_HEIGHT) z)
    else chunk.blockAt table x y z = some none := by
  split
  · rename_i hy
    obtain ⟨-, read, same⟩ := h.read hx hz hy
    exact ⟨_, read, same⟩
  · rename_i hy
    rw [Chunk.blockAt, h.no_slot hy]

theorem Holds.covers (h : Holds table traits allowed tight CHUNK_HEIGHT chunk column) :
    ∀ p ∈ chunk.heightmaps.maps traits, ∀ x y z b, x < 16 → z < 16 → y < CHUNK_HEIGHT →
      chunk.blockAt table x y z = some (some b) → p.1 b = true →
        ∃ height, p.2.height x z = some height ∧ y ≤ height := by
  intro p hp x y z b hx hz hy hread hsolid
  obtain ⟨valid, covers⟩ := h.maps p hp
  obtain ⟨height, hheight⟩ := valid.height hx hz
  refine ⟨height, hheight, covers x z hx hz y height hy ?_ hheight⟩
  simp only [CHUNK_HEIGHT] at hy
  have read := (h.read hx hz (by omega : y < 272)).2.1
  rw [read] at hread
  obtain rfl := Option.some.inj (Option.some.inj hread)
  exact hsolid

section Main
variable (table : VanillaIdTable) (traits : BlockTraits) (allowed : Nat → List BlockId)

/-- With at most 255 blocks besides air in a section, a chunk is the map of the blocks set last in
every run: no edit panics, below 272 every block reads as what it is, up to the kinds of air, and
above nothing is read. -/
theorem chunk_is_last_set (few : ∀ i, (allowed i).length ≤ 255)
    (known : ∀ i, ∀ block ∈ allowed i, block.Known table) (edits : List ChunkEdit) (uses : ∀ e ∈ edits, e.Uses allowed False) :
    ∃ chunk, run (edit table traits) edits new = some chunk ∧
      ∀ x y z, x < 16 → z < 16 → if y < 272 then
          ∃ b, chunk.blockAt table x y z = some (some b) ∧
            b.Same (ChunkEdit.lastSet edits (sectionForY y) x (y % SECTION_HEIGHT) z)
        else chunk.blockAt table x y z = some none := by
  obtain ⟨chunk, hrun, h⟩ := holds_run few known uses
  exact ⟨chunk, hrun, fun x y z hx hz => h.blockAt hx hz⟩

theorem chunk_is_last_set_stone :
    ∃ chunk, run (edit .inOrder .solidGround) [.fill 3 ⟨.stone, 0⟩, .set 1 40 2 .air] new = some chunk ∧
      ∃ b, chunk.blockAt .inOrder 5 40 5 = some (some b) ∧ b.Same ⟨.stone, 0⟩ := by
  obtain ⟨chunk, hrun, hreads⟩ := chunk_is_last_set .inOrder .solidGround
    (fun _ => [⟨.stone, 0⟩]) (fun _ => by decide) (fun _ => by simp [BlockId.known_stone])
    [.fill 3 ⟨.stone, 0⟩, .set 1 40 2 .air] (by simp [ChunkEdit.Uses])
  have read := hreads 5 40 5 (by decide) (by decide)
  rw [if_pos (by decide)] at read
  exact ⟨chunk, hrun, read⟩

/-- A section is kept exactly if it has a block, in every run that fills no section with another
kind of air. -/
theorem section_kept_iff (few : ∀ i, (allowed i).length ≤ 255)
    (known : ∀ i, ∀ block ∈ allowed i, block.Known table) (edits : List ChunkEdit) (uses : ∀ e ∈ edits, e.Uses allowed True) :
    ∃ chunk, run (edit table traits) edits new = some chunk ∧
      chunk.sections.length = NUM_SECTIONS + 2 ∧
      ∀ i slot, chunk.sections[i]? = some slot →
        (slot.isSome = true ↔ (ChunkEdit.lastSet edits i).Occupied) := by
  obtain ⟨chunk, hrun, h⟩ := holds_run few known uses
  refine ⟨chunk, hrun, h.length, ?_⟩
  intro i slot hslot
  have hholds := h.slots i slot hslot
  cases slot with
  | none =>
    refine iff_of_false (by simp) ?_
    rintro ⟨x, y, z, inside, solid⟩
    rw [hholds x y z inside] at solid
    cases solid
  | some store =>
    obtain ⟨-, -, -, occupied⟩ := hholds
    exact iff_of_true rfl (occupied trivial)

theorem section_kept_iff_stone :
    ∃ chunk, run (edit .inOrder .solidGround) [.set 1 40 2 ⟨.stone, 0⟩, .set 1 40 2 .air] new =
      some chunk ∧ ∀ i slot, chunk.sections[i]? = some slot → (slot.isSome = true ↔
        (ChunkEdit.lastSet [.set 1 40 2 ⟨.stone, 0⟩, .set 1 40 2 .air] i).Occupied) := by
  obtain ⟨chunk, hrun, -, hkept⟩ := section_kept_iff .inOrder .solidGround (fun _ => [⟨.stone, 0⟩])
    (fun _ => by decide) (fun _ => by simp [BlockId.known_stone])
    [.set 1 40 2 ⟨.stone, 0⟩, .set 1 40 2 .air] (by simp [ChunkEdit.Uses])
  exact ⟨chunk, hrun, hkept⟩

/-- No solid block lies above the height of its column in any of the five heightmaps, in every run
without fills from a new chunk or from a recalculation. -/
theorem heights_cover (few : ∀ i, (allowed i).length ≤ 255)
    (known : ∀ i, ∀ block ∈ allowed i, block.Known table) (before after : List ChunkEdit) (uses : ∀ e ∈ before, e.Uses allowed False)
    (uses' : ∀ e ∈ after, e.Uses allowed False)
    (nofill : ∀ e ∈ after, ∀ i block, e ≠ .fill i block) (edits : List ChunkEdit)
    (split : edits = after ∨ edits = before ++ .recalculate :: after) :
    ∃ chunk, run (edit table traits) edits new = some chunk ∧
      ∀ p ∈ chunk.heightmaps.maps traits, ∀ x y z b, x < 16 → z < 16 → y < CHUNK_HEIGHT →
        chunk.blockAt table x y z = some (some b) → p.1 b = true →
          ∃ height, p.2.height x z = some height ∧ y ≤ height := by
  rcases split with rfl | rfl
  · have start : Holds table traits allowed False CHUNK_HEIGHT new fun _ _ _ _ => .air := holds_new
    obtain ⟨chunk, column, hrun, h⟩ := covered_run few known uses' nofill start
    exact ⟨chunk, hrun, h.covers⟩
  · obtain ⟨mid, hmid, h⟩ : ∃ mid, run (edit table traits) before new = some mid ∧
        Holds table traits allowed False 0 mid (ChunkEdit.lastSet before) :=
      holds_run few known uses
    obtain ⟨fresh, hfresh, h'⟩ := h.recalculateHeightmaps
    obtain ⟨chunk, column, hrun, h''⟩ := covered_run few known uses' nofill h'
    refine ⟨chunk, ?_, h''.covers⟩
    rw [run_append, hmid, Option.bind_some]
    exact (run_cons_eq_some _).mpr ⟨fresh, hfresh, hrun⟩

theorem heights_cover_stone :
    ∃ chunk, run (edit .inOrder .solidGround)
        [.set 0 10 0 ⟨.stone, 0⟩, .set 0 70 0 ⟨.stone, 0⟩, .set 0 70 0 .air] new = some chunk ∧
      ∀ b, chunk.blockAt .inOrder 0 10 0 = some (some b) → BlockTraits.solidGround.oceanFloor b = true →
        ∃ height, chunk.heightmaps.oceanFloor.height 0 0 = some height ∧ 10 ≤ height := by
  obtain ⟨chunk, hrun, hcovers⟩ := heights_cover .inOrder .solidGround (fun _ => [⟨.stone, 0⟩])
    (fun _ => by decide) (fun _ => by simp [BlockId.known_stone]) []
    [.set 0 10 0 ⟨.stone, 0⟩, .set 0 70 0 ⟨.stone, 0⟩, .set 0 70 0 .air] (by simp)
    (by simp [ChunkEdit.Uses]) (by simp) _ (.inl rfl)
  refine ⟨chunk, hrun, ?_⟩
  intro b hread hsolid
  exact hcovers (BlockTraits.solidGround.oceanFloor, chunk.heightmaps.oceanFloor)
    (by simp [HeightmapStore.maps]) 0 10 0 b (by decide) (by decide) (by decide) hread hsolid

end Main
end Chunk
end FpgaCraft.Server
