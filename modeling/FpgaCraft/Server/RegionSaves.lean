import FpgaCraft.Server.RegionHeader

/-! What a save leaves in a region file. The padding of a chunk goes a sector too far where its
data end with a sector; a chunk that starts there is lost. -/
namespace FpgaCraft.Server
open Library

abbrev Slot : Type := Fin (REGION_SIZE * REGION_SIZE)

inductive Entry (Level : Type) where
  | absent
  | intact (root : ChunkRoot Level)
  | zeroed

namespace Entry
variable {Level : Type}

def load : Entry Level → Except RegionError (ChunkRoot Level)
  | absent => .error .chunkNotExist
  | intact root => .ok root
  | zeroed => .error (.chunkTooLarge 0)

def present : Entry Level → Bool
  | absent => false
  | intact _ => true
  | zeroed => true

end Entry

theorem low_clip (a : I32) : RegionHeader.low (clip a) = RegionHeader.low a := by
  rw [RegionHeader.low_eq, RegionHeader.low_eq, clip]
  dsimp only
  rw [Int.tmod_def]
  omega

@[simp] theorem index_local (pos : ChunkPosition) :
    RegionHeader.index pos.local = RegionHeader.index pos := by
  apply Fin.ext
  simp only [RegionHeader.index, ChunkPosition.local, low_clip]

/-! ### The sectors of a chunk -/

def record (data : List (BitVec 8)) : List (BitVec 8) := bigEndian 4 (data.length + 1) ++ 2 :: data

def padded (data : List (BitVec 8)) : List (BitVec 8) :=
  record data ++ List.replicate (SECTOR_BYTES - (data.length + 5) % SECTOR_BYTES) 0

def sectorsFor (data : List (BitVec 8)) : Nat := (data.length + 5 + SECTOR_BYTES - 1) / SECTOR_BYTES

def Spills (data : List (BitVec 8)) : Prop := (data.length + 5) % SECTOR_BYTES = 0

instance (data : List (BitVec 8)) : Decidable (Spills data) := inferInstanceAs (Decidable (_ = _))

@[simp] theorem length_record (data : List (BitVec 8)) : (record data).length = data.length + 5 := by
  rw [record, List.length_append, length_bigEndian, List.length_cons]
  omega

theorem slice_record_length (data : List (BitVec 8)) :
    File.slice (record data) 0 4 = bigEndian 4 (data.length + 1) := by
  rw [record, File.slice_append_left (by rw [length_bigEndian]),
    File.slice_length (length_bigEndian 4 _).symm]

theorem slice_record_data (data : List (BitVec 8)) :
    File.slice (record data) 4 (data.length + 1) = 2 :: data := by
  rw [record, File.slice_append_right (length_bigEndian 4 _).symm,
    File.slice_length (List.length_cons).symm]

theorem sectorsFor_pos (data : List (BitVec 8)) : 0 < sectorsFor data := by
  simp only [sectorsFor, SECTOR_BYTES]
  omega

theorem length_padded (data : List (BitVec 8)) :
    (padded data).length = SECTOR_BYTES * (if Spills data then sectorsFor data + 1 else sectorsFor data) := by
  rw [padded, List.length_append, length_record, List.length_replicate, sectorsFor]
  split
  · rename_i spills
    simp only [Spills, SECTOR_BYTES] at spills ⊢
    omega
  · rename_i spills
    simp only [Spills, SECTOR_BYTES] at spills ⊢
    omega

theorem slice_padded {data : List (BitVec 8)} (spills : Spills data) :
    File.slice (padded data) (SECTOR_BYTES * sectorsFor data) 4 = bigEndian 4 0 := by
  have count : SECTOR_BYTES * sectorsFor data = data.length + 5 := by
    simp only [Spills, sectorsFor, SECTOR_BYTES] at spills ⊢
    omega
  rw [count, padded, spills, File.slice_append_right (length_record data).symm]
  rfl

theorem writeBlock_content (file : File (BitVec 8)) (offset : Nat) {data : List (BitVec 8)}
    (short : data.length + 1 < 2 ^ 32) :
    (RegionHandle.writeBlock file offset (2 :: data)).content =
      File.overwrite 0 file.content (offset * SECTOR_BYTES) (padded data) := by
  rw [RegionHandle.writeBlock, writeU32, File.writeAll_writeAll, File.foldl_writeByte, List.length_cons,
    BitVec.toNat_ofNat, Nat.mod_eq_of_lt short]
  rfl

/-! ### The chunks of a file -/

section Stored
variable {Level : Type} (nbt : Nbt Level)

/-- The NBT library reads what it wrote, and the sectors of the data fit into a byte of the header. -/
structure Savable (root : ChunkRoot Level) (data : List (BitVec 8)) : Prop where
  written : nbt.toZlibWriter root = some data
  read : nbt.fromZlibReader data = some root
  version : root.dataVersion = DATA_VERSION
  fits : data.length + 5 ≤ 255 * SECTOR_BYTES

def Entry.StoredAt (content : List (BitVec 8)) (block : SectorBlock) : Entry Level → Prop
  | absent => True
  | intact root => ∃ data, Savable nbt root data ∧ block.count = sectorsFor data ∧
      File.slice content (block.offset * SECTOR_BYTES) (data.length + 5) = record data
  | zeroed => File.slice content (block.offset * SECTOR_BYTES) 4 = bigEndian 4 0

/-- The header, 1024 chunks of at most 255 sectors, and between them gaps too short for another. -/
def sectorLimit : Nat := 523005

structure SectorBlock.Placed (block : SectorBlock) : Prop where
  behind : 2 ≤ block.offset
  positive : 0 < block.count
  few : block.count ≤ 255
  inside : block.offset + block.count ≤ sectorLimit

structure RegionHandle.Holds (handle : RegionHandle) (entries : Slot → Entry Level) : Prop where
  sized : ∃ sectors, handle.file.content.length = SECTOR_BYTES * sectors ∧
    handle.allocator.usedSectors.length ≤ sectors ∧ sectors ≤ sectorLimit + 1
  written : File.slice handle.file.content 0 8192 = handle.header.bytes
  empty : ∀ slot, (entries slot).present = false → handle.header.locations slot = ⟨0, 0⟩
  placed : ∀ slot, (entries slot).present = true → (handle.header.locations slot).Placed
  stored : ∀ slot, (entries slot).StoredAt nbt handle.file.content (handle.header.locations slot)
  used : ∀ i, handle.allocator.usedSectors[i]? = some true ↔ i < 2 ∨
    ∃ slot, (entries slot).present = true ∧ i ∈ (handle.header.locations slot).sectors
  apart : ∀ slot slot', (entries slot).present = true → (entries slot').present = true → ∀ i,
    i ∈ (handle.header.locations slot).sectors → i ∈ (handle.header.locations slot').sectors → slot = slot'

variable {nbt} {content content' : List (BitVec 8)} {block block' : SectorBlock} {entry : Entry Level}

theorem Savable.sectors {root : ChunkRoot Level} {data : List (BitVec 8)} (h : Savable nbt root data) :
    data.length + 5 ≤ sectorsFor data * SECTOR_BYTES ∧ sectorsFor data ≤ 255 := by
  have fits := h.fits
  simp only [sectorsFor, SECTOR_BYTES] at fits ⊢
  omega

theorem Entry.StoredAt.keep (h : entry.StoredAt nbt content block) (positive : 0 < block.count)
    (same : File.slice content' (block.offset * SECTOR_BYTES) (block.count * SECTOR_BYTES) =
      File.slice content (block.offset * SECTOR_BYTES) (block.count * SECTOR_BYTES)) :
    entry.StoredAt nbt content' block := by
  have part {n : Nat} (inside : n ≤ block.count * SECTOR_BYTES) :
      File.slice content' (block.offset * SECTOR_BYTES) n =
        File.slice content (block.offset * SECTOR_BYTES) n := by
    rw [← File.slice_start inside, same, File.slice_start inside]
  cases entry with
  | absent => trivial
  | intact root =>
    obtain ⟨data, savable, count, bytes⟩ := h
    refine ⟨data, savable, count, ?_⟩
    rw [part (count ▸ savable.sectors.1)]
    exact bytes
  | zeroed =>
    refine (part ?_).trans h
    simp only [SECTOR_BYTES]
    omega

theorem Entry.StoredAt.writeHeader (h : entry.StoredAt nbt content block) (positive : 0 < block.count)
    (behind : 2 ≤ block.offset) (header : RegionHeader) :
    entry.StoredAt nbt (File.overwrite 0 content 0 header.bytes) block := by
  apply h.keep positive
  apply File.slice_overwrite_of_disjoint
  right
  rw [RegionHeader.length_bytes]
  simp only [SECTOR_BYTES]
  omega

/-- A save that ends before a block with its padding, or starts behind it, leaves it. -/
theorem Entry.StoredAt.overwritten (h : entry.StoredAt nbt content block) (positive : 0 < block.count)
    (inside : (block.offset + block.count) * SECTOR_BYTES ≤ content.length) {offset : Nat}
    {data : List (BitVec 8)}
    (apart : block.offset + block.count ≤ offset ∨ offset + sectorsFor data ≤ block.offset)
    (spared : ¬(Spills data ∧ block.offset = offset + sectorsFor data)) :
    entry.StoredAt nbt (File.overwrite 0 content (offset * SECTOR_BYTES) (padded data)) block := by
  apply h.keep positive
  apply File.slice_overwrite_of_disjoint
  rcases apart with before | after
  · left
    rw [← Nat.add_mul]
    exact ⟨Nat.mul_le_mul_right _ before, inside⟩
  · right
    rw [length_padded, Nat.mul_comm SECTOR_BYTES, ← Nat.add_mul]
    apply Nat.mul_le_mul_right
    split
    · rename_i spills
      rw [← Nat.add_assoc]
      exact Nat.succ_le_of_lt (Nat.lt_of_le_of_ne after fun same => spared ⟨spills, same.symm⟩)
    · exact after

theorem Entry.storedAt_zeroed {offset : Nat} {data : List (BitVec 8)} (spills : Spills data)
    (same : block.offset = offset + sectorsFor data) :
    (zeroed : Entry Level).StoredAt nbt (File.overwrite 0 content (offset * SECTOR_BYTES) (padded data))
      block := by
  have length := length_padded data
  rw [if_pos spills] at length
  have start : block.offset * SECTOR_BYTES = offset * SECTOR_BYTES + SECTOR_BYTES * sectorsFor data := by
    rw [same, Nat.add_mul, Nat.mul_comm SECTOR_BYTES]
  rw [StoredAt, start, File.slice_overwrite_part 0 (by rw [length]; simp only [SECTOR_BYTES]; omega)]
  exact slice_padded spills

theorem Entry.storedAt_intact {root : ChunkRoot Level} {data : List (BitVec 8)}
    (savable : Savable nbt root data) (count : block.count = sectorsFor data) :
    (intact root).StoredAt nbt (File.overwrite 0 content (block.offset * SECTOR_BYTES) (padded data))
      block := by
  refine ⟨data, savable, count, ?_⟩
  have part := @File.slice_overwrite_part _ (0 : BitVec 8) content (padded data)
    (block.offset * SECTOR_BYTES) 0 (data.length + 5)
    (by rw [padded, List.length_append, length_record]; omega)
  rw [Nat.add_zero] at part
  rw [part, padded, File.slice_append_left (by rw [length_record]),
    File.slice_length (length_record data).symm]

theorem SectorBlock.behind_of_apart (positive : 0 < block.count) (positive' : 0 < block'.count)
    (apart : ∀ i ∈ block.sectors, i ∉ block'.sectors) :
    block'.offset + block'.count ≤ block.offset ∨ block.offset + block.count ≤ block'.offset := by
  by_contra overlap
  apply apart (max block.offset block'.offset)
  · rw [SectorAllocator.mem_sectors]
    omega
  · rw [SectorAllocator.mem_sectors]
    omega

variable {handle : RegionHandle} {entries : Slot → Entry Level}

namespace RegionHandle.Holds

theorem exists_iff (h : handle.Holds nbt entries) (slot : Slot) :
    (handle.header.locations slot).existsInFile = true ↔ (entries slot).present = true := by
  cases present : (entries slot).present with
  | false =>
    rw [h.empty slot present]
    decide
  | true =>
    have placed := h.placed slot present
    have behind := placed.behind
    have positive := placed.positive
    simp only [SectorBlock.existsInFile, Bool.and_eq_true, decide_eq_true_eq, iff_true]
    omega

theorem inside (h : handle.Holds nbt entries) {slot : Slot} (present : (entries slot).present = true) :
    (handle.header.locations slot).offset + (handle.header.locations slot).count ≤
      handle.allocator.usedSectors.length := by
  have positive := (h.placed slot present).positive
  have last := (h.used ((handle.header.locations slot).offset + (handle.header.locations slot).count - 1)).mpr
    (.inr ⟨slot, present, by rw [SectorAllocator.mem_sectors]; omega⟩)
  have := (List.getElem?_eq_some_iff.mp last).1
  omega

theorem exists_freed (h : handle.Holds nbt entries) (slot : Slot) :
    ∃ allocator, (if (handle.header.locations slot).existsInFile then
        handle.allocator.free (handle.header.locations slot) else some handle.allocator) = some allocator ∧
      allocator.usedSectors.length = handle.allocator.usedSectors.length ∧
      ∀ i, allocator.usedSectors[i]? = some true ↔ i < 2 ∨ ∃ other, other ≠ slot ∧
        (entries other).present = true ∧ i ∈ (handle.header.locations other).sectors := by
  cases present : (entries slot).present with
  | false =>
    have absent : (handle.header.locations slot).existsInFile = false := by
      rw [← Bool.not_eq_true, h.exists_iff, present]
      exact Bool.false_ne_true
    refine ⟨handle.allocator, by rw [absent, if_neg Bool.false_ne_true], rfl, fun i => ?_⟩
    rw [h.used]
    refine or_congr_right (exists_congr fun other => ?_)
    constructor
    · rintro ⟨there, hi⟩
      refine ⟨?_, there, hi⟩
      rintro rfl
      exact Bool.false_ne_true (present.symm.trans there)
    · exact fun ⟨_, there, hi⟩ => ⟨there, hi⟩
  | true =>
    obtain ⟨allocator, hfree, length, cell⟩ := SectorAllocator.exists_free (h.inside present)
    refine ⟨allocator, by rw [if_pos ((h.exists_iff slot).mpr present), hfree], length, fun i => ?_⟩
    rw [cell]
    split
    · rename_i own
      have behind := (h.placed slot present).behind
      have above := (SectorAllocator.mem_sectors.mp own).1
      constructor
      · intro clash
        cases clash
      · rintro (header | ⟨other, apart, there, hi⟩)
        · omega
        · exact absurd (h.apart other slot there present i hi own) apart
    · rename_i other
      rw [h.used]
      refine or_congr_right (exists_congr fun slot' => ?_)
      constructor
      · rintro ⟨there, hi⟩
        refine ⟨?_, there, hi⟩
        rintro rfl
        exact other hi
      · exact fun ⟨_, there, hi⟩ => ⟨there, hi⟩

theorem offset_le (h : handle.Holds nbt entries) {slot : Slot} {allocator allocator' : SectorAllocator}
    {count : Nat} (few : count ≤ 255) (positive : 0 < count)
    (used : ∀ i, allocator.usedSectors[i]? = some true ↔ i < 2 ∨ ∃ other, other ≠ slot ∧
      (entries other).present = true ∧ i ∈ (handle.header.locations other).sectors)
    (allocated : SectorAllocator.Allocated count allocator block allocator') :
    block.offset + count ≤ sectorLimit := by
  have bound := @le_of_not_freeAt count block.offset 510 _ ((0, 2) :: List.ofFn fun slot =>
    ((handle.header.locations slot).offset, (handle.header.locations slot).count))
    ((used 0).mpr (.inl Nat.two_pos)) (fun i hi => ?_) (fun b hb => ?_) allocated.inside
    (fun start before => allocated.first start (by omega))
  · rw [List.length_cons, List.length_ofFn] at bound
    simp only [sectorLimit, REGION_SIZE] at bound ⊢
    omega
  · rcases (used i).mp hi with header | ⟨other, -, -, mem⟩
    · exact ⟨(0, 2), List.mem_cons_self, Nat.zero_le i, header⟩
    · rw [SectorAllocator.mem_sectors] at mem
      exact ⟨_, List.mem_cons_of_mem _ (List.mem_ofFn.mpr ⟨other, rfl⟩), mem⟩
  · rcases List.mem_cons.mp hb with rfl | other
    · dsimp only
      omega
    · obtain ⟨slot', rfl⟩ := List.mem_ofFn.mp other
      dsimp only
      cases there : (entries slot').present with
      | false =>
        rw [h.empty slot' there]
        dsimp only
        omega
      | true =>
        have := (h.placed slot' there).few
        omega

end RegionHandle.Holds

/-- The entries after a save: of the chunk, and of one that starts where the padding went. -/
def Entry.afterSave (entries : Slot → Entry Level) (locations : Slot → SectorBlock) (slot : Slot)
    (root : ChunkRoot Level) (spills : Bool) (other : Slot) : Entry Level :=
  if other = slot then .intact root
  else if spills && (entries other).present &&
      (locations other).offset == (locations slot).offset + (locations slot).count then .zeroed
  else entries other

theorem Entry.present_afterSave {locations : Slot → SectorBlock} {slot other : Slot}
    {root : ChunkRoot Level} {spills : Bool} :
    (afterSave entries locations slot root spills other).present = true ↔
      other = slot ∨ (entries other).present = true := by
  rw [afterSave]
  split
  · rename_i same
    simp only [same, true_or, present]
  · rename_i apart
    split
    · rename_i spilt
      simp only [Bool.and_eq_true] at spilt
      exact iff_of_true rfl (.inr spilt.1.2)
    · simp only [apart, false_or]

theorem Entry.present_saved {locations : Slot → SectorBlock} {slot : Slot} {root : ChunkRoot Level}
    {spills : Bool} : (afterSave entries locations slot root spills slot).present = true :=
  present_afterSave.mpr (.inl rfl)

/-- A block that was found for the chunk of a slot, whose old sectors were freed. -/
structure Placing (handle : RegionHandle) (entries : Slot → Entry Level) (slot : Slot)
    (block : SectorBlock) (allocator : SectorAllocator) (header : RegionHeader) : Prop where
  positive : 0 < block.count
  behind : 2 ≤ block.offset
  inside : block.offset ≤ handle.allocator.usedSectors.length
  limit : block.offset + block.count ≤ sectorLimit
  fresh : ∀ other, other ≠ slot → (entries other).present = true →
    ∀ i ∈ (handle.header.locations other).sectors, i ∉ block.sectors
  length : allocator.usedSectors.length =
    max handle.allocator.usedSectors.length (block.offset + block.count)
  used : ∀ i, allocator.usedSectors[i]? = some true ↔ i < 2 ∨ i ∈ block.sectors ∨
    ∃ other, other ≠ slot ∧ (entries other).present = true ∧ i ∈ (handle.header.locations other).sectors
  first : ∀ start, start < block.offset → ∃ i, start ≤ i ∧ i < start + block.count ∧
    (handle.allocator.usedSectors.length ≤ i ∨ i < 2 ∨ ∃ other, other ≠ slot ∧
      (entries other).present = true ∧ i ∈ (handle.header.locations other).sectors)
  here : header.locations slot = block
  others : ∀ other, other ≠ slot → header.locations other = handle.header.locations other

namespace Placing
variable {slot : Slot} {allocator : SectorAllocator} {header : RegionHeader} {root : ChunkRoot Level}
  {data : List (BitVec 8)}

theorem header_sectors (placing : Placing handle entries slot block allocator header) (spills : Bool)
    (i : Nat) (other : Slot) :
    (Entry.afterSave entries header.locations slot root spills other).present = true ∧
        i ∈ (header.locations other).sectors ↔
      other = slot ∧ i ∈ block.sectors ∨ other ≠ slot ∧ (entries other).present = true ∧
        i ∈ (handle.header.locations other).sectors := by
  rw [Entry.present_afterSave]
  by_cases same : other = slot
  · rw [same, placing.here]
    simp
  · rw [placing.others other same]
    simp [same]

theorem used_afterSave (placing : Placing handle entries slot block allocator header) (spills : Bool)
    (i : Nat) : allocator.usedSectors[i]? = some true ↔ i < 2 ∨
      ∃ other, (Entry.afterSave entries header.locations slot root spills other).present = true ∧
        i ∈ (header.locations other).sectors := by
  rw [placing.used]
  refine or_congr_right ?_
  simp only [placing.header_sectors spills i]
  constructor
  · rintro (own | ⟨other, there⟩)
    · exact ⟨slot, .inl ⟨rfl, own⟩⟩
    · exact ⟨other, .inr there⟩
  · rintro ⟨other, ⟨rfl, own⟩ | there⟩
    · exact .inl own
    · exact .inr ⟨other, there⟩

theorem apart_afterSave (h : handle.Holds nbt entries)
    (placing : Placing handle entries slot block allocator header) {spills : Bool} {other other' : Slot}
    (present : (Entry.afterSave entries header.locations slot root spills other).present = true)
    (present' : (Entry.afterSave entries header.locations slot root spills other').present = true) (i : Nat)
    (hi : i ∈ (header.locations other).sectors) (hi' : i ∈ (header.locations other').sectors) :
    other = other' := by
  have place := (placing.header_sectors spills i other).mp ⟨present, hi⟩
  have place' := (placing.header_sectors spills i other').mp ⟨present', hi'⟩
  rcases place with ⟨same, own⟩ | ⟨apart, there, hi⟩
  · rcases place' with ⟨same', -⟩ | ⟨apart', there', hi'⟩
    · exact same.trans same'.symm
    · exact absurd own (placing.fresh other' apart' there' i hi')
  · rcases place' with ⟨-, own⟩ | ⟨apart', there', hi'⟩
    · exact absurd own (placing.fresh other apart there i hi)
    · exact h.apart other other' there there' i hi hi'

theorem placed_afterSave (h : handle.Holds nbt entries)
    (placing : Placing handle entries slot block allocator header) (few : block.count ≤ 255) {spills : Bool}
    {other : Slot} (present : (Entry.afterSave entries header.locations slot root spills other).present = true) :
    (header.locations other).Placed := by
  by_cases same : other = slot
  · rw [same, placing.here]
    exact ⟨placing.behind, placing.positive, few, placing.limit⟩
  · rw [placing.others other same]
    exact h.placed other ((Entry.present_afterSave.mp present).resolve_left same)

/-- The file grows by the sectors of the block, and by one more where the padding is too long. -/
theorem sized_afterSave (h : handle.Holds nbt entries)
    (placing : Placing handle entries slot block allocator header) (count : block.count = sectorsFor data) :
    ∃ sectors, (File.overwrite 0 (File.overwrite 0 handle.file.content (block.offset * SECTOR_BYTES)
        (padded data)) 0 header.bytes).length = SECTOR_BYTES * sectors ∧
      allocator.usedSectors.length ≤ sectors ∧ sectors ≤ sectorLimit + 1 := by
  obtain ⟨sectors, length, below, most⟩ := h.sized
  obtain ⟨written, hwritten, lower, upper⟩ : ∃ n, (padded data).length = SECTOR_BYTES * n ∧
      block.count ≤ n ∧ n ≤ block.count + 1 := by
    refine ⟨_, length_padded data, ?_, ?_⟩
    · rw [← count]
      split
      · exact Nat.le_succ _
      · exact le_rfl
    · rw [← count]
      split
      · exact le_rfl
      · exact Nat.le_succ _
  have behind := placing.behind
  have limit := placing.limit
  refine ⟨max sectors (block.offset + written), ?_, ?_, ?_⟩
  · rw [File.length_overwrite, File.length_overwrite, length, hwritten, RegionHeader.length_bytes]
    simp only [SECTOR_BYTES]
    omega
  · rw [placing.length]
    omega
  · omega

theorem stored_afterSave (h : handle.Holds nbt entries) (savable : Savable nbt root data)
    (placing : Placing handle entries slot block allocator header) (count : block.count = sectorsFor data)
    (other : Slot) :
    (Entry.afterSave entries header.locations slot root (decide (Spills data)) other).StoredAt nbt
      (File.overwrite 0 (File.overwrite 0 handle.file.content (block.offset * SECTOR_BYTES)
        (padded data)) 0 header.bytes) (header.locations other) := by
  by_cases same : other = slot
  · rw [same, placing.here, Entry.afterSave, if_pos rfl]
    exact (Entry.storedAt_intact savable count).writeHeader placing.positive placing.behind header
  · rw [placing.others other same, Entry.afterSave, if_neg same, placing.here, placing.others other same]
    cases there : (entries other).present with
    | false =>
      rw [if_neg (by simp)]
      cases hentry : entries other with
      | absent => trivial
      | intact root => cases hentry ▸ there
      | zeroed => cases hentry ▸ there
    | true =>
      have placed := h.placed other there
      have inside := h.inside there
      obtain ⟨sectors, length, below, -⟩ := h.sized
      have apart := SectorBlock.behind_of_apart placed.positive placing.positive (placing.fresh other same there)
      rw [count] at apart
      refine Entry.StoredAt.writeHeader ?_ placed.positive placed.behind header
      split
      · rename_i spilt
        simp only [Bool.and_eq_true, decide_eq_true_eq, beq_iff_eq, and_true, count] at spilt
        exact Entry.storedAt_zeroed spilt.1 spilt.2
      · rename_i spared
        simp only [Bool.and_eq_true, decide_eq_true_eq, beq_iff_eq, and_true, count] at spared
        refine (h.stored other).overwritten placed.positive ?_ apart.symm spared
        rw [length, Nat.mul_comm]
        exact Nat.mul_le_mul_left _ (inside.trans below)

end Placing

theorem RegionHandle.Holds.exists_placing (h : handle.Holds nbt entries) {count : Nat} (positive : 0 < count)
    (few : count ≤ 255) (slot : Slot) :
    ∃ freed block allocator, (if (handle.header.locations slot).existsInFile then
        handle.allocator.free (handle.header.locations slot) else some handle.allocator) = some freed ∧
      freed.allocate count = some (block, allocator) ∧ block.count = count ∧
      ∀ header : RegionHeader, header.locations = Function.update handle.header.locations slot block →
        Placing handle entries slot block allocator header := by
  obtain ⟨freed, hfreed, length, used⟩ := h.exists_freed slot
  obtain ⟨block, allocator, hallocate, allocated⟩ :=
    SectorAllocator.exists_allocate positive ((used 0).mpr (.inl Nat.two_pos))
  have size := allocated.count
  have behind : 2 ≤ block.offset := by
    by_contra early
    have clash := allocated.fresh block.offset (by rw [SectorAllocator.mem_sectors]; omega)
    rw [(used block.offset).mpr (.inl (by omega))] at clash
    exact clash rfl
  refine ⟨freed, block, allocator, hfreed, hallocate, size, fun header locations => ?_⟩
  exact
    { positive := size ▸ positive
      behind
      inside := length ▸ allocated.inside
      limit := size ▸ h.offset_le few positive used allocated
      fresh := fun other apart present i hi both =>
        allocated.fresh i both ((used i).mpr (.inr ⟨other, apart, present, hi⟩))
      length := by rw [allocated.length, length, size]
      used := fun i => by
        rw [allocated.used]
        split
        · rename_i own
          simp only [own, true_or, or_true]
        · rename_i other
          rw [used, or_iff_right other]
      first := fun start before => by
        have taken := allocated.first start before
        simp only [FreeAt, not_forall] at taken
        obtain ⟨i, above, below, hi⟩ := taken
        refine ⟨i, above, size ▸ below, ?_⟩
        cases cell : freed.usedSectors[i]? with
        | none => exact .inl (length ▸ List.getElem?_eq_none_iff.mp cell)
        | some inUse =>
          cases inUse with
          | false => exact absurd cell hi
          | true => exact .inr ((used i).mp cell)
      here := by rw [locations, Function.update_self]
      others := fun other apart => by rw [locations, Function.update_of_ne apart] }

theorem content_of_save (file : File (BitVec 8)) (header : RegionHeader) (offset : Nat)
    {data : List (BitVec 8)} (fits : data.length + 5 ≤ 255 * SECTOR_BYTES) :
    (header.writeTo ((RegionHandle.writeBlock file offset (2 :: data)).seek 0)).content =
      File.overwrite 0 (File.overwrite 0 file.content (offset * SECTOR_BYTES) (padded data)) 0 header.bytes := by
  have short : data.length + 1 < 2 ^ 32 := by
    simp only [SECTOR_BYTES] at fits
    omega
  rw [RegionHeader.writeTo_eq, File.writeAll, File.seek, writeBlock_content file offset short]

theorem RegionHandle.Holds.exists_saveRoot (h : handle.Holds nbt entries) {root : ChunkRoot Level}
    {data : List (BitVec 8)} (savable : Savable nbt root data) (pos : ChunkPosition) :
    ∃ handle' block, handle.saveRoot nbt pos root = some handle' ∧ handle'.Holds nbt
        (Entry.afterSave entries handle'.header.locations (RegionHeader.index pos) root (decide (Spills data))) ∧
      block.count = sectorsFor data ∧
      Placing handle entries (RegionHeader.index pos) block handle'.allocator handle'.header := by
  have few := savable.sectors.2
  obtain ⟨freed, block, allocator, hfreed, hallocate, count, place⟩ :=
    h.exists_placing (sectorsFor_pos data) few (RegionHeader.index pos)
  have saved : handle.saveRoot nbt pos root = some
      ⟨(handle.header.setLocationForChunk pos.local block).writeTo
          ((RegionHandle.writeBlock handle.file block.offset (2 :: data)).seek 0),
        handle.header.setLocationForChunk pos.local block, allocator⟩ := by
    rw [RegionHandle.saveRoot, RegionHeader.locationForChunk, index_local]
    dsimp only
    rw [hfreed, savable.written]
    exact congrArg (Option.bind · _) hallocate
  have placing := place (handle.header.setLocationForChunk pos.local block)
    (by rw [RegionHeader.setLocationForChunk, index_local])
  have content := content_of_save handle.file (handle.header.setLocationForChunk pos.local block)
    block.offset savable.fits
  refine ⟨_, block, saved, ?_, count, placing⟩
  generalize handle.header.setLocationForChunk pos.local block = header at placing content ⊢
  generalize RegionHeader.index pos = slot at placing ⊢
  exact
    { sized := content ▸ placing.sized_afterSave h count
      written := by
        dsimp only
        rw [content, ← header.length_bytes, File.slice_overwrite]
      empty := fun other absent => by
        rw [← Bool.not_eq_true, Entry.present_afterSave, not_or, Bool.not_eq_true] at absent
        dsimp only
        rw [placing.others other absent.1, h.empty other absent.2]
      placed := fun other present => placing.placed_afterSave h (count ▸ few) present
      stored := fun other => content ▸ placing.stored_afterSave h savable count other
      used := placing.used_afterSave _
      apart := fun other other' => placing.apart_afterSave h }

end Stored

/-! ### The chunks saved last -/

section Recorded
variable {Level Saved ι : Type} {means : Saved → ChunkRoot Level → Prop} {entries entries' : ι → Entry Level}
  {saved : ι → Option Saved} {chunk : Saved} {i : ι} {root : ChunkRoot Level} {spills : Bool}

variable (means) in
/-- Entries beside what was saved last: data that are intact mean that. -/
structure Recorded (entries : ι → Entry Level) (saved : ι → Option Saved) : Prop where
  present : ∀ i, (entries i).present = (saved i).isSome
  intact : ∀ i root, entries i = .intact root → ∃ chunk, saved i = some chunk ∧ means chunk root

/-- A save changes its own entry, and where it spills, zeroes another. -/
structure Saves (entries entries' : ι → Entry Level) (i : ι) (root : ChunkRoot Level) (spills : Bool) :
    Prop where
  own : entries' i = .intact root
  other : ∀ j, j ≠ i → entries' j = entries j ∨
    spills = true ∧ (entries j).present = true ∧ entries' j = .zeroed

theorem Recorded.save [DecidableEq ι] (h : Recorded means entries saved)
    (s : Saves entries entries' i root spills) (meant : means chunk root) :
    Recorded means entries' (Function.update saved i (some chunk)) := by
  constructor
  · intro j
    by_cases same : j = i
    · rw [same, s.own, Function.update_self]
      rfl
    · rw [Function.update_of_ne same, ← h.present]
      rcases s.other j same with kept | ⟨-, present, zeroed⟩
      · rw [kept]
      · rw [zeroed, present]
        rfl
  · intro j root' hroot
    by_cases same : j = i
    · rw [same, s.own] at hroot
      cases hroot
      exact ⟨chunk, by rw [same, Function.update_self], meant⟩
    · rw [Function.update_of_ne same]
      rcases s.other j same with kept | ⟨-, -, zeroed⟩
      · exact h.intact j root' (kept.symm.trans hroot)
      · cases zeroed.symm.trans hroot

theorem Saves.spared (s : Saves entries entries' i root false) (j : ι) (h : entries j ≠ .zeroed) :
    entries' j ≠ .zeroed := by
  by_cases same : j = i
  · rw [same, s.own]
    intro lost
    cases lost
  · rcases s.other j same with kept | ⟨spilt, -⟩
    · rw [kept]
      exact h
    · cases spilt

theorem Recorded.absent (h : Recorded means entries saved) (unsaved : saved i = none) : entries i = .absent := by
  have present := h.present i
  rw [unsaved] at present
  cases hentry : entries i with
  | absent => rfl
  | intact root => cases hentry ▸ present
  | zeroed => cases hentry ▸ present

theorem Recorded.kept (h : Recorded means entries saved) (hsaved : saved i = some chunk)
    (spared : entries i ≠ .zeroed) : ∃ root, entries i = .intact root ∧ means chunk root := by
  have present := h.present i
  rw [hsaved] at present
  cases hentry : entries i with
  | absent => cases hentry ▸ present
  | intact root =>
    obtain ⟨other, hother, meant⟩ := h.intact i root hentry
    obtain rfl := Option.some.inj (hsaved.symm.trans hother)
    exact ⟨root, rfl, meant⟩
  | zeroed => exact absurd hentry spared

theorem Entry.saves_afterSave (entries : Slot → Entry Level) (locations : Slot → SectorBlock) (slot : Slot)
    (root : ChunkRoot Level) (spills : Bool) :
    Saves entries (afterSave entries locations slot root spills) slot root spills := by
  constructor
  · rw [afterSave, if_pos rfl]
  · intro other apart
    rw [afterSave, if_neg apart]
    split
    · rename_i spilt
      simp only [Bool.and_eq_true] at spilt
      exact .inr ⟨spilt.1.1, spilt.1.2, rfl⟩
    · exact .inl rfl

end Recorded
end FpgaCraft.Server
