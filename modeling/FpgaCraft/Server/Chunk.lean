import FpgaCraft.Server.Heightmap
import FpgaCraft.Server.SectionEdits

/-! A chunk of the server's world (`feather/base/src/chunk.rs`): its sections, of which those of
air are not kept, and its heightmaps. A panic is `none`. -/
namespace FpgaCraft.Server
open Library

abbrev SECTION_HEIGHT : Nat := 16
abbrev NUM_SECTIONS : Nat := 16

/-- The sections run from the one below the world to the one above it. -/
structure Chunk where
  sections : List (Option BlockStore)
  heightmaps : HeightmapStore

def readSlot (table : VanillaIdTable) (slot : Option BlockStore) (x y z : Nat) :
    Option (Option BlockId) :=
  match slot with
  | some store => store.blockAt table x y z
  | none => some (some .air)

def BlockStore.nonAirBlocks (self : BlockStore) : Option Nat :=
  if self.airBlockCount ≤ SECTION_VOLUME then some (SECTION_VOLUME - self.airBlockCount) else none

/-- The section after a block of it is set, and whether the setter returned `Some`. -/
def setSlot (table : VanillaIdTable) (slot : Option BlockStore) (x y z : Nat) (block : BlockId) :
    Option (Option BlockStore × Bool) :=
  match slot with
  | some store => do
    let result ← store.setBlockAt table x y z block
    let store := result.getD store
    let nonAir ← store.nonAirBlocks
    pure (if nonAir = 0 then none else some store, result.isSome)
  | none =>
    if block.isAir then some (none, true)
    else do
      let result ← BlockStore.new.setBlockAt table x y z block
      pure (some (result.getD .new), result.isSome)

def fillSlot (slot : Option BlockStore) (block : BlockId) : Option (Option BlockStore) :=
  if block = .air then some none else ((slot.getD .new).fill block).map some

namespace Chunk

def new : Chunk := ⟨List.replicate (NUM_SECTIONS + 2) none, .new⟩

def sectionForY (y : Nat) : Nat := y / SECTION_HEIGHT + 1

variable (table : VanillaIdTable) (traits : BlockTraits)

def blockAt (self : Chunk) (x y z : Nat) : Option (Option BlockId) :=
  match self.sections[sectionForY y]? with
  | none => some none
  | some slot => readSlot table slot x (y % SECTION_HEIGHT) z

/-- The closure the heightmaps read blocks through: an index out of bounds panics. -/
def blockAtFn (sections : List (Option BlockStore)) (x y z : Nat) : Option BlockId :=
  sections[sectionForY y]?.bind fun slot => (readSlot table slot x (y % SECTION_HEIGHT) z).join

/-- The chunk afterwards, and whether the setter returned `Some`. -/
def setBlockAt (self : Chunk) (x y z : Nat) (block : BlockId) : Option (Chunk × Bool) :=
  (self.blockAt table x y z).bind fun
    | none => some (self, false)
    | some oldBlock =>
      match self.sections[sectionForY y]? with
      | none => some (self, false)
      | some slot => do
        let (slot, result) ← setSlot table slot x (y % SECTION_HEIGHT) z block
        let sections := self.sections.set (sectionForY y) slot
        let heightmaps ← self.heightmaps.update traits x y z oldBlock block (blockAtFn table sections)
        pure (⟨sections, heightmaps⟩, result)

def fillSection (self : Chunk) (i : Nat) (block : BlockId) : Option (Chunk × Bool) :=
  match self.sections[i]? with
  | none => some (self, false)
  | some slot => do
    let slot ← fillSlot slot block
    pure ({ self with sections := self.sections.set i slot }, true)

def recalculateHeightmaps (self : Chunk) : Option Chunk := do
  let heightmaps ← self.heightmaps.recalculate traits (blockAtFn table self.sections)
  pure { self with heightmaps := heightmaps }

end Chunk

/-! ### One section -/

def BlockId.Same (block block' : BlockId) : Prop :=
  block = block' ∨ block.isAir = true ∧ block'.isAir = true

theorem BlockId.Same.trans {a b c : BlockId} (h : a.Same b) (h' : b.Same c) : a.Same c := by
  rcases h with rfl | ⟨ha, hb⟩
  · exact h'
  · rcases h' with rfl | ⟨-, hc⟩
    · exact .inr ⟨ha, hb⟩
    · exact .inr ⟨ha, hc⟩

theorem BlockId.Same.symm {a b : BlockId} (h : a.Same b) : b.Same a :=
  h.imp Eq.symm And.symm

theorem BlockId.Same.isAir {a b : BlockId} (h : a.Same b) : a.isAir = b.isAir := by
  rcases h with rfl | ⟨ha, hb⟩
  · rfl
  · rw [ha, hb]

section Slot
variable {table : VanillaIdTable} {allowed : List BlockId} {slot : Option BlockStore} {cells : Cells}
  {tight : Prop} {x y z : Nat} {block : BlockId}

def Cells.Occupied (cells : Cells) : Prop :=
  ∃ x y z, (x < 16 ∧ y < 16 ∧ z < 16) ∧ (cells x y z).isAir = false

/-- The section holds the map, up to the kinds of air; one that is not kept is of air and, if
the sections are `tight`, one that is kept is not. -/
def SlotHolds (table : VanillaIdTable) (allowed : List BlockId) (tight : Prop)
    (slot : Option BlockStore) (cells : Cells) : Prop :=
  match slot with
  | some store => ∃ held, BlockStore.Exactly table allowed store held ∧
      (∀ x y z, x < 16 ∧ y < 16 ∧ z < 16 → (held x y z).Same (cells x y z)) ∧
      (tight → cells.Occupied)
  | none => ∀ x y z, x < 16 ∧ y < 16 ∧ z < 16 → (cells x y z).isAir = true

theorem SlotHolds.read (h : SlotHolds table allowed tight slot cells) (x y z : Nat) :
    ∃ block, readSlot table slot x y z =
        some (if slot = none ∨ x < 16 ∧ y < 16 ∧ z < 16 then some block else none) ∧
      (x < 16 ∧ y < 16 ∧ z < 16 → block.Same (cells x y z)) := by
  cases slot with
  | none => exact ⟨.air, by simp [readSlot], fun inside => .inr ⟨rfl, h x y z inside⟩⟩
  | some store =>
    obtain ⟨held, exactly, same, -⟩ := h
    refine ⟨held x y z, ?_, same x y z⟩
    rw [readSlot, exactly.counted.holds.blockAt]
    simp

theorem SlotHolds.known (h : SlotHolds table allowed tight slot cells)
    (hread : readSlot table slot x y z = some (some block)) : block.Known table := by
  cases slot with
  | none =>
    obtain rfl : BlockId.air = block := Option.some.inj (Option.some.inj hread)
    exact ⟨0, BlockId.vanillaId_air table⟩
  | some store =>
    obtain ⟨held, exactly, -, -⟩ := h
    rw [readSlot, exactly.counted.holds.blockAt, Option.some.injEq,
      Option.ite_none_right_eq_some] at hread
    obtain ⟨inside, hread⟩ := hread
    exact Option.some.inj hread ▸ exactly.counted.holds.known (held.mem_flat inside)

/-- What setting a block may do to the reads of a section. -/
structure SlotSet (table : VanillaIdTable) (slot slot' : Option BlockStore) (x y z : Nat)
    (block : BlockId) : Prop where
  reads : ∀ x' y' z' b, x' < 16 ∧ y' < 16 ∧ z' < 16 → readSlot table slot' x' y' z' = some (some b) →
    b = .air ∨ if x' = x ∧ y' = y ∧ z' = z then b = block
      else readSlot table slot x' y' z' = some (some b)

theorem exists_nonAirBlocks {store : BlockStore} (h : BlockStore.Exactly table allowed store cells) :
    ∃ n, store.nonAirBlocks = some n ∧
      (n = 0 ↔ ∀ x y z, x < 16 ∧ y < 16 ∧ z < 16 → (cells x y z).isAir = true) := by
  have bound : store.airBlockCount ≤ SECTION_VOLUME := by
    rw [← h.air, ← cells.length_flat]
    exact List.countP_le_length
  refine ⟨SECTION_VOLUME - store.airBlockCount, by rw [BlockStore.nonAirBlocks, if_pos bound], ?_⟩
  have full : SECTION_VOLUME - store.airBlockCount = 0 ↔
      cells.flat.countP BlockId.isAir = cells.flat.length := by
    rw [h.air, cells.length_flat]
    omega
  rw [full, List.countP_eq_length]
  constructor
  · intro all x y z inside
    exact all _ (cells.mem_flat inside)
  · intro all block hblock
    obtain ⟨i, hi, rfl⟩ := List.mem_map.mp hblock
    rw [List.mem_range, SECTION_VOLUME] at hi
    apply all
    omega

theorem same_set {held : Cells}
    (same : ∀ x y z, x < 16 ∧ y < 16 ∧ z < 16 → (held x y z).Same (cells x y z)) {x' y' z' : Nat}
    (inside : x' < 16 ∧ y' < 16 ∧ z' < 16) :
    (held.set x y z block x' y' z').Same (cells.set x y z block x' y' z') := by
  simp only [Cells.set]
  split
  · exact .inl rfl
  · exact same x' y' z' inside

theorem slotHolds_of_exactly {store : BlockStore} {held cells' : Cells}
    (exactly : BlockStore.Exactly table allowed store cells')
    (hcells : ∀ x' y' z', x' < 16 ∧ y' < 16 ∧ z' < 16 → cells' x' y' z' = held.set x y z block x' y' z')
    (same : ∀ x y z, x < 16 ∧ y < 16 ∧ z < 16 → (held x y z).Same (cells x y z))
    (occupied : cells'.Occupied) :
    SlotHolds table allowed tight (some store) (cells.set x y z block) := by
  have same' (x' y' z' : Nat) (inside : x' < 16 ∧ y' < 16 ∧ z' < 16) :
      (cells' x' y' z').Same (cells.set x y z block x' y' z') := by
    rw [hcells x' y' z' inside]
    exact same_set same inside
  refine ⟨cells', exactly, same', fun _ => ?_⟩
  obtain ⟨x', y', z', inside, solid⟩ := occupied
  exact ⟨x', y', z', inside, (same' x' y' z' inside).isAir.symm.trans solid⟩

theorem SlotHolds.set (h : SlotHolds table allowed tight slot cells) (few : allowed.length ≤ 255)
    (known : ∀ block ∈ allowed, block.Known table) (hblock : block = .air ∨ block ∈ allowed)
    (inside : x < 16 ∧ y < 16 ∧ z < 16) :
    ∃ slot', setSlot table slot x y z block = some (slot', true) ∧
      SlotHolds table allowed tight slot' (cells.set x y z block) ∧ SlotSet table slot slot' x y z block := by
  cases slot with
  | none =>
    by_cases hair : block.isAir = true
    · refine ⟨none, by simp [setSlot, hair], ?_, ⟨?_⟩⟩
      · intro x' y' z' inside'
        simp only [Cells.set]
        split
        · exact hair
        · exact h x' y' z' inside'
      · rintro x' y' z' b - ⟨⟩
        exact .inl rfl
    · obtain ⟨store, cells', hedit, exactly, hcells⟩ :=
        (BlockStore.exactly_new allowed).edit few known (.set x y z block) hblock
      have occupied : cells'.Occupied := by
        refine ⟨x, y, z, inside, ?_⟩
        rw [hcells x y z inside]
        simpa [Edit.apply, Cells.set] using hair
      refine ⟨some store, by simp [setSlot, hair, BlockStore.setBlockAt_of_edit inside hedit],
        slotHolds_of_exactly exactly hcells (fun x y z inside => .inr ⟨rfl, h x y z inside⟩) occupied,
        ⟨?_⟩⟩
      intro x' y' z' b inside' hb
      rw [readSlot, exactly.counted.holds.blockAt, if_pos inside', hcells x' y' z' inside'] at hb
      obtain rfl := Option.some.inj (Option.some.inj hb)
      simp only [Edit.apply, Cells.set]
      split
      · exact .inr rfl
      · exact .inl rfl
  | some store =>
    obtain ⟨held, exactly, same, -⟩ := h
    obtain ⟨store', cells', hedit, exactly', hcells⟩ :=
      exactly.edit few known (.set x y z block) hblock
    obtain ⟨n, hn, hzero⟩ := exists_nonAirBlocks exactly'
    have hset : setSlot table (some store) x y z block =
        some (if n = 0 then none else some store', true) := by
      simp [setSlot, BlockStore.setBlockAt_of_edit inside hedit, hn]
    rw [hset]
    by_cases empty : n = 0
    · refine ⟨none, by rw [if_pos empty], ?_, ⟨?_⟩⟩
      · intro x' y' z' inside'
        have hair := hzero.mp empty x' y' z' inside'
        rw [hcells x' y' z' inside'] at hair
        exact (same_set same inside').isAir.symm.trans hair
      · rintro x' y' z' b - ⟨⟩
        exact .inl rfl
    · have occupied : cells'.Occupied := by
        rw [hzero] at empty
        simpa only [Cells.Occupied, not_forall, Bool.not_eq_true, exists_prop] using empty
      refine ⟨some store', by rw [if_neg empty],
        slotHolds_of_exactly exactly' hcells same occupied, ⟨?_⟩⟩
      intro x' y' z' b inside' hb
      right
      rw [readSlot, exactly'.counted.holds.blockAt, if_pos inside', hcells x' y' z' inside'] at hb
      obtain rfl := Option.some.inj (Option.some.inj hb)
      simp only [Edit.apply, Cells.set]
      split
      · rfl
      · rw [readSlot, exactly.counted.holds.blockAt, if_pos inside']

theorem SlotHolds.fill (h : SlotHolds table allowed tight slot cells) (few : allowed.length ≤ 255)
    (known : ∀ block ∈ allowed, block.Known table) (hblock : block = .air ∨ block ∈ allowed)
    (proper : tight → block = .air ∨ block.isAir = false) :
    ∃ slot', fillSlot slot block = some slot' ∧ SlotHolds table allowed tight slot' fun _ _ _ => block := by
  unfold fillSlot
  split
  · rename_i hair
    exact ⟨none, rfl, fun _ _ _ _ => hair ▸ rfl⟩
  · rename_i hne
    obtain ⟨held, exactly⟩ : ∃ held, BlockStore.Exactly table allowed (slot.getD .new) held := by
      cases slot with
      | none => exact ⟨_, BlockStore.exactly_new allowed⟩
      | some store =>
        obtain ⟨held, exactly, -⟩ := h
        exact ⟨held, exactly⟩
    obtain ⟨store, cells', hfill, exactly', hcells⟩ := exactly.edit few known (.fill block) hblock
    refine ⟨some store, ?_, cells', exactly', ?_, ?_⟩
    · rw [Option.map_eq_some_iff]
      exact ⟨store, hfill, rfl⟩
    · intro x y z inside
      exact .inl (hcells x y z inside)
    · intro htight
      exact ⟨0, 0, 0, by decide, (proper htight).resolve_left hne⟩

end Slot
end FpgaCraft.Server
