import FpgaCraft.Library.Machine
import FpgaCraft.Server.RegionSaves

/-! Runs of a region file with the data of chunks: the sectors in use, and what is loaded. -/
namespace FpgaCraft.Server
open Library

namespace RegionHandle
variable {Level : Type} {nbt : Nbt Level} {handle : RegionHandle} {entries : Slot → Entry Level}

theorem decompress_zlib (data : List (BitVec 8)) :
    decompress nbt (2 :: data) = (nbt.fromZlibReader data).elim (.error .nbt) .ok := by
  rw [decompress, if_neg (by decide), if_pos rfl]

theorem Holds.loadRoot_eq (h : handle.Holds nbt entries) (pos : ChunkPosition) :
    handle.loadRoot nbt pos = (entries (RegionHeader.index pos)).load := by
  have exists_iff := h.exists_iff (RegionHeader.index pos)
  have stored := h.stored (RegionHeader.index pos)
  rw [loadRoot, RegionHeader.locationForChunk, index_local]
  generalize handle.header.locations (RegionHeader.index pos) = block at exists_iff stored
  dsimp only [File.seek]
  cases hentry : entries (RegionHeader.index pos) with
  | absent =>
    rw [hentry] at exists_iff
    simp only [Entry.present, Bool.false_eq_true, iff_false, Bool.not_eq_true] at exists_iff
    rw [exists_iff]
    rfl
  | zeroed =>
    rw [hentry] at exists_iff stored
    have bytes : File.slice handle.file.content (block.offset * SECTOR_BYTES) 4 =
        bigEndian 4 (0 : BitVec 32).toNat := stored
    rw [exists_iff.mpr rfl, readU32_of_slice bytes]
    rfl
  | intact root =>
    rw [hentry] at exists_iff stored
    obtain ⟨data, savable, count, bytes⟩ := stored
    have fits := savable.fits
    simp only [SECTOR_BYTES] at fits
    have length : (BitVec.ofNat 32 (data.length + 1)).toNat = data.length + 1 := by
      rw [BitVec.toNat_ofNat, Nat.mod_eq_of_lt (by omega)]
    have head : File.slice handle.file.content (block.offset * SECTOR_BYTES) 4 =
        bigEndian 4 (BitVec.ofNat 32 (data.length + 1)).toNat := by
      rw [length, ← slice_record_length, ← bytes, File.slice_start (by omega)]
    have rest : File.slice handle.file.content (block.offset * SECTOR_BYTES + 4) (data.length + 1) =
        2 :: data := by
      have part := @File.slice_slice _ handle.file.content (block.offset * SECTOR_BYTES) (data.length + 5)
        4 (data.length + 1) (by omega)
      rw [← part, bytes, slice_record_data]
    have room : data.length + 1 ≤ handle.file.content.length - (block.offset * SECTOR_BYTES + 4) := by
      have length := congrArg List.length rest
      rw [File.slice, List.length_take, List.length_drop, List.length_cons] at length
      omega
    rw [exists_iff.mpr rfl, readU32_of_slice head]
    dsimp only
    rw [length, if_neg (show ¬1048576 < data.length + 1 by omega), if_neg (Nat.succ_ne_zero _),
      File.readExact_eq room, rest]
    dsimp only
    rw [decompress_zlib, savable.read]
    exact if_neg (not_not.mpr savable.version)

theorem Holds.exists_loadRegion (h : handle.Holds nbt entries) :
    ∃ handle', loadRegion handle.file.content = some (.ok handle') ∧
      handle'.file.content = handle.file.content ∧ handle'.Holds nbt entries := by
  obtain ⟨sectors, length, below, most⟩ := h.sized
  have room : 2 ≤ handle.allocator.usedSectors.length := by
    have first := (h.used 1).mpr (.inl Nat.one_lt_two)
    exact (List.getElem?_eq_some_iff.mp first).1
  have fits (slot : Slot) : (handle.header.locations slot).Fits := by
    cases present : (entries slot).present with
    | false =>
      rw [h.empty slot present]
      exact ⟨by decide, by decide⟩
    | true =>
      have few := (h.placed slot present).few
      have inside := (h.placed slot present).inside
      simp only [sectorLimit] at inside
      exact ⟨by omega, by omega⟩
  have inside (slot : Slot) (present : (handle.header.locations slot).existsInFile = true) :
      (handle.header.locations slot).offset + (handle.header.locations slot).count ≤ sectors :=
    (h.inside ((h.exists_iff slot).mp present)).trans below
  obtain ⟨allocator, hnew, count, used⟩ := SectorAllocator.exists_new (room.trans below) inside
  have size : (handle.file.content.length + SECTOR_BYTES - 1) / SECTOR_BYTES = sectors := by
    rw [length]
    simp only [SECTOR_BYTES]
    omega
  refine ⟨⟨⟨handle.file.content, 0⟩, handle.header, allocator⟩, ?_, rfl, ?_⟩
  · rw [loadRegion]
    dsimp only
    rw [RegionHeader.readHeader_eq handle.header h.written fits]
    dsimp only
    rw [size, hnew, Option.map_some]
  · exact
      { h with
        sized := ⟨sectors, length, count.le, most⟩
        used := fun i => by
          rw [used]
          simp only [h.exists_iff] }

variable (nbt) in
theorem exists_createRegion {content : List (BitVec 8)} (short : content.length ≤ 8192) :
    ∃ handle, createRegion content = some handle ∧ handle.Holds nbt (fun _ => .absent) ∧
      handle.allocator.usedSectors.length = 2 := by
  have none (slot : Slot) : (RegionHeader.default.locations slot).existsInFile = false := rfl
  obtain ⟨allocator, hnew, count, used⟩ := @SectorAllocator.exists_new .default 2 le_rfl
    fun slot present => absurd present (by rw [none]; exact Bool.false_ne_true)
  refine ⟨⟨RegionHeader.default.writeTo ⟨content, 0⟩, .default, allocator⟩, ?_, ?_⟩
  · rw [createRegion, hnew, Option.map_some]
  have written : (RegionHeader.default.writeTo ⟨content, 0⟩).content = RegionHeader.default.bytes := by
    rw [RegionHeader.writeTo_eq, File.writeAll]
    exact File.overwrite_start 0 (by rw [RegionHeader.length_bytes]; exact short)
  refine ⟨?_, count⟩
  exact
    { sized := ⟨2, by rw [written, RegionHeader.length_bytes]; rfl, count.le, by decide⟩
      written := by
        rw [written, File.slice_length (RegionHeader.length_bytes _).symm]
      empty := fun _ _ => rfl
      placed := fun _ present => absurd present Bool.false_ne_true
      stored := fun _ => trivial
      used := fun i => by
        rw [used]
        simp only [none, Entry.present]
      apart := fun _ _ present => absurd present Bool.false_ne_true }

end RegionHandle

/-! ### Runs -/

/-- What happens to a region file; another handle is opened after the first is dropped. -/
inductive RegionCall (Level : Type) where
  | save (pos : ChunkPosition) (root : ChunkRoot Level)
  | reopen

namespace RegionCall
variable {Level : Type} (nbt : Nbt Level)

def Accepted : RegionCall Level → Prop
  | save _ root => ∃ data, Savable nbt root data
  | reopen => True

def spills (root : ChunkRoot Level) : Bool := (nbt.toZlibWriter root).any fun data => decide (Spills data)

def apply (handle : RegionHandle) : RegionCall Level → (Slot → Entry Level) → Slot → Entry Level
  | save pos root, entries =>
    Entry.afterSave entries handle.header.locations (RegionHeader.index pos) root (spills nbt root)
  | reopen, entries => entries

def store : RegionCall Level → (Slot → Option (ChunkRoot Level)) → Slot → Option (ChunkRoot Level)
  | save pos root, saved => Function.update saved (RegionHeader.index pos) (some root)
  | reopen, saved => saved

def lastSaved (calls : List (RegionCall Level)) : Slot → Option (ChunkRoot Level) :=
  calls.foldl (fun saved c => c.store saved) fun _ => none

end RegionCall

def Nbt.ofData : Nbt (List (BitVec 8)) where
  toZlibWriter root := some root.level
  fromZlibReader data := some ⟨data, DATA_VERSION⟩
  fromGzipReader _ := none

theorem savable_ofData {data : List (BitVec 8)} (fits : data.length + 5 ≤ 255 * SECTOR_BYTES) :
    Savable .ofData ⟨data, DATA_VERSION⟩ data := ⟨rfl, rfl, rfl, fits⟩

theorem savable_replicate : Savable .ofData ⟨List.replicate 4091 0, DATA_VERSION⟩ (List.replicate 4091 0) := by
  apply savable_ofData
  rw [List.length_replicate]
  decide

namespace RegionHandle
variable {Level : Type} (nbt : Nbt Level)

def call (handle : RegionHandle) : RegionCall Level → Option RegionHandle
  | .save pos root => handle.saveRoot nbt pos root
  | .reopen => (loadRegion handle.file.content).bind Except.toOption

def logged (c : RegionCall Level) (s : RegionHandle × (Slot → Entry Level)) :
    Option (RegionHandle × (Slot → Entry Level)) :=
  (s.1.call nbt c).map fun handle => (handle, c.apply nbt handle s.2)

end RegionHandle

section Runs
variable {Level : Type} {nbt : Nbt Level} {handle : RegionHandle} {entries : Slot → Entry Level}

theorem Savable.spills_eq {root : ChunkRoot Level} {data : List (BitVec 8)} (h : Savable nbt root data) :
    RegionCall.spills nbt root = decide (Spills data) := by
  rw [RegionCall.spills, h.written, Option.any_some]

namespace RegionHandle

theorem Holds.exists_logged {c : RegionCall Level} {s : RegionHandle × (Slot → Entry Level)}
    (accepted : c.Accepted nbt) (h : s.1.Holds nbt s.2) :
    ∃ s', logged nbt c s = some s' ∧ s'.1.Holds nbt s'.2 := by
  cases c with
  | save pos root =>
    obtain ⟨data, savable⟩ := accepted
    obtain ⟨handle', -, hsave, h', -⟩ := h.exists_saveRoot savable pos
    refine ⟨(handle', _), by rw [logged, call, hsave, Option.map_some], ?_⟩
    rw [RegionCall.apply, savable.spills_eq]
    exact h'
  | reopen =>
    obtain ⟨handle', hload, -, h'⟩ := h.exists_loadRegion
    exact ⟨(handle', s.2), by rw [logged, call, hload]; rfl, h'⟩

theorem recorded_of_run {calls : List (RegionCall Level)} {created : RegionHandle}
    (h : run (logged nbt) calls (created, fun _ => .absent) = some (handle, entries)) :
    Recorded Eq entries (RegionCall.lastSaved calls) := by
  induction calls using List.reverseRecOn generalizing handle entries with
  | nil =>
    cases h
    exact ⟨fun _ => rfl, fun _ _ h => (by cases h)⟩
  | append_singleton calls c ih =>
    obtain ⟨⟨before, old⟩, hrun, hstep⟩ := (run_concat_eq_some _).mp h
    have recorded := ih hrun
    rw [logged, Option.map_eq_some_iff] at hstep
    obtain ⟨handle', -, hresult⟩ := hstep
    cases hresult
    rw [RegionCall.lastSaved, List.foldl_append, List.foldl_cons, List.foldl_nil]
    cases c with
    | reopen => exact recorded
    | save pos root => exact recorded.save (Entry.saves_afterSave old ..) rfl

variable (nbt)

theorem holds_run {content : List (BitVec 8)} (short : content.length ≤ 8192)
    {calls : List (RegionCall Level)} (accepted : ∀ c ∈ calls, c.Accepted nbt) :
    ∃ created handle entries, createRegion content = some created ∧
      run (logged nbt) calls (created, fun _ => .absent) = some (handle, entries) ∧
      handle.Holds nbt entries := by
  obtain ⟨created, hcreate, initial, -⟩ := exists_createRegion nbt short
  have next (c : RegionCall Level) (s : RegionHandle × (Slot → Entry Level)) (ok : c.Accepted nbt)
      (h : s.1.Holds nbt s.2) : ∃ s', logged nbt c s = some s' ∧ s'.1.Holds nbt s'.2 :=
    h.exists_logged ok
  obtain ⟨⟨handle, entries⟩, hrun, h⟩ := exists_run next (s := (created, fun _ => .absent)) accepted initial
  exact ⟨created, handle, entries, hcreate, hrun, h⟩

/-- No sector is lost and none has two uses, whatever was saved how often: the sectors in use are the
two of the header and those of the chunks, each of one chunk, and the file stays below two gigabytes. -/
theorem sectors_of_run {content : List (BitVec 8)} (short : content.length ≤ 8192)
    (calls : List (RegionCall Level)) (accepted : ∀ c ∈ calls, c.Accepted nbt) :
    ∃ created handle entries, createRegion content = some created ∧
      run (logged nbt) calls (created, fun _ => .absent) = some (handle, entries) ∧
      (∀ i, handle.allocator.usedSectors[i]? = some true ↔ i < 2 ∨
        ∃! slot, (RegionCall.lastSaved calls slot).isSome = true ∧ i ∈ (handle.header.locations slot).sectors) ∧
      (∀ slot, (RegionCall.lastSaved calls slot).isSome = true → 2 ≤ (handle.header.locations slot).offset) ∧
      handle.file.content.length ≤ SECTOR_BYTES * (sectorLimit + 1) := by
  obtain ⟨created, handle, entries, hcreate, hrun, h⟩ := holds_run nbt short accepted
  have present := (recorded_of_run hrun).present
  obtain ⟨sectors, length, -, most⟩ := h.sized
  refine ⟨created, handle, entries, hcreate, hrun, fun i => ?_, fun slot there => ?_, ?_⟩
  · simp only [← present]
    rw [h.used]
    refine or_congr_right ?_
    constructor
    · rintro ⟨slot, there, hi⟩
      exact ⟨slot, ⟨there, hi⟩, fun other hother => h.apart other slot hother.1 there i hother.2 hi⟩
    · exact ExistsUnique.exists
  · exact (h.placed slot ((present slot).trans there)).behind
  · rw [length]
    exact Nat.mul_le_mul_left _ most

theorem sectors_of_run_full : ∃ created handle entries, createRegion [] = some created ∧
    run (logged .ofData) [.save ⟨0, 0⟩ ⟨List.replicate 4091 0, DATA_VERSION⟩, .reopen]
      (created, fun _ => .absent) = some (handle, entries) ∧
    handle.file.content.length ≤ SECTOR_BYTES * (sectorLimit + 1) := by
  obtain ⟨created, handle, entries, hcreate, hrun, -, -, length⟩ := @sectors_of_run _ .ofData []
    (Nat.zero_le 8192) [.save ⟨0, 0⟩ ⟨List.replicate 4091 0, DATA_VERSION⟩, .reopen] (by
      simp only [List.forall_mem_cons, List.not_mem_nil, false_implies, implies_true, and_true]
      exact ⟨⟨_, savable_replicate⟩, trivial⟩)
  exact ⟨created, handle, entries, hcreate, hrun, length⟩

/-- Two chunks that are saved to a new region file follow each other behind its header. -/
theorem exists_neighbours {pos pos' : ChunkPosition} (apart : RegionHeader.index pos ≠ RegionHeader.index pos')
    {root₁ root₂ : ChunkRoot Level} {data₁ data₂ : List (BitVec 8)} (savable₁ : Savable nbt root₁ data₁)
    (savable₂ : Savable nbt root₂ data₂) :
    ∃ created first second entries, createRegion [] = some created ∧
      created.saveRoot nbt pos root₁ = some first ∧ first.saveRoot nbt pos' root₂ = some second ∧
      second.Holds nbt entries ∧
      (∀ other, (entries other).present = true →
        other = RegionHeader.index pos ∨ other = RegionHeader.index pos') ∧
      entries (RegionHeader.index pos) = .intact root₁ ∧ entries (RegionHeader.index pos') = .intact root₂ ∧
      (second.header.locations (RegionHeader.index pos')).offset = 2 + sectorsFor data₁ := by
  obtain ⟨created, hcreate, initial, length⟩ := @exists_createRegion _ nbt [] (Nat.zero_le 8192)
  obtain ⟨first, block₁, hfirst, holds₁, count₁, placing₁⟩ := initial.exists_saveRoot savable₁ pos
  obtain ⟨second, block₂, hsecond, holds₂, -, placing₂⟩ := holds₁.exists_saveRoot savable₂ pos'
  have positive₁ := placing₁.positive
  have positive₂ := placing₂.positive
  have offset₁ : block₁.offset = 2 := by
    have inside := placing₁.inside
    have behind := placing₁.behind
    omega
  have offset₂ : block₂.offset = 2 + sectorsFor data₁ := by
    have fresh := placing₂.fresh _ apart Entry.present_saved
    have inside := placing₂.inside
    have length₁ := placing₁.length.trans (Nat.max_eq_right (by omega))
    rw [placing₁.here] at fresh
    have order := SectorBlock.behind_of_apart positive₁ positive₂ fresh
    have behind := placing₂.behind
    omega
  refine ⟨created, first, second, _, hcreate, hfirst, hsecond, holds₂, fun other present => ?_, ?_, ?_, ?_⟩
  · rcases Entry.present_afterSave.mp present with same | old
    · exact .inr same
    · exact .inl ((Entry.present_afterSave.mp old).resolve_right Bool.false_ne_true)
  · have ahead : ¬block₁.offset = block₂.offset + block₂.count := by omega
    rw [Entry.afterSave, if_neg apart, placing₂.others _ apart, placing₁.here, placing₂.here,
      beq_eq_false_iff_ne.mpr ahead, Bool.and_false, if_neg Bool.false_ne_true, Entry.afterSave, if_pos rfl]
  · rw [Entry.afterSave, if_pos rfl]
  · rw [placing₂.here, offset₂]

/-- Whatever two chunks are saved to a new region file, the second is lost when the first is saved
again with data of as many sectors that end with a sector. -/
theorem full_sector_loses_neighbour {pos pos' : ChunkPosition}
    (apart : RegionHeader.index pos ≠ RegionHeader.index pos') {root₁ root₂ root₃ : ChunkRoot Level}
    {data₁ data₂ data₃ : List (BitVec 8)} (savable₁ : Savable nbt root₁ data₁)
    (savable₂ : Savable nbt root₂ data₂) (savable₃ : Savable nbt root₃ data₃) (full : Spills data₃)
    (same : sectorsFor data₃ = sectorsFor data₁) :
    ∃ created first second third, createRegion [] = some created ∧
      created.saveRoot nbt pos root₁ = some first ∧ first.saveRoot nbt pos' root₂ = some second ∧
      second.saveRoot nbt pos root₃ = some third ∧
      second.loadRoot nbt pos = .ok root₁ ∧ second.loadRoot nbt pos' = .ok root₂ ∧
      third.loadRoot nbt pos = .ok root₃ ∧ third.loadRoot nbt pos' = .error (.chunkTooLarge 0) := by
  obtain ⟨created, first, second, entries, hcreate, hfirst, hsecond, holds, only, own, neighbour, start⟩ :=
    exists_neighbours nbt apart savable₁ savable₂
  obtain ⟨third, block, hthird, holds', count, placing⟩ := holds.exists_saveRoot savable₃ pos
  have present : (entries (RegionHeader.index pos')).present = true := by
    rw [neighbour]
    rfl
  -- The sectors of the first are free again, and come first.
  have offset : block.offset = 2 := by
    by_contra later
    have behind := placing.behind
    have inside := holds.inside present
    obtain ⟨i, above, below, taken⟩ := placing.first 2 (by omega)
    rcases taken with outside | header | ⟨other, different, there, hi⟩
    · omega
    · omega
    · rw [(only other there).resolve_left different, SectorAllocator.mem_sectors] at hi
      omega
  refine ⟨created, first, second, third, hcreate, hfirst, hsecond, hthird, ?_, ?_, ?_, ?_⟩
  · rw [holds.loadRoot_eq, own]
    rfl
  · rw [holds.loadRoot_eq, neighbour]
    rfl
  · rw [holds'.loadRoot_eq, Entry.afterSave, if_pos rfl]
    rfl
  · have reached : (second.header.locations (RegionHeader.index pos')).offset = block.offset + block.count := by
      omega
    rw [holds'.loadRoot_eq, Entry.afterSave, if_neg apart.symm, placing.others _ apart.symm, placing.here,
      decide_eq_true full, present, reached, beq_self_eq_true]
    rfl

theorem full_sector_loses_neighbour_small : ∃ created first second third, createRegion [] = some created ∧
    created.saveRoot .ofData ⟨0, 0⟩ ⟨[], DATA_VERSION⟩ = some first ∧
    first.saveRoot .ofData ⟨⟨1, by decide, by decide⟩, 0⟩ ⟨[], DATA_VERSION⟩ = some second ∧
    second.saveRoot .ofData ⟨0, 0⟩ ⟨List.replicate 4091 0, DATA_VERSION⟩ = some third ∧
    third.loadRoot .ofData ⟨⟨1, by decide, by decide⟩, 0⟩ = .error (.chunkTooLarge 0) := by
  have full : Spills (List.replicate 4091 (0 : BitVec 8)) := by
    rw [Spills, List.length_replicate]
    rfl
  have same : sectorsFor (List.replicate 4091 (0 : BitVec 8)) = sectorsFor [] := by
    rw [sectorsFor, List.length_replicate]
    rfl
  have apart : RegionHeader.index ⟨0, 0⟩ ≠ RegionHeader.index ⟨⟨1, by decide, by decide⟩, 0⟩ := by decide
  have empty : Savable .ofData ⟨[], DATA_VERSION⟩ [] := savable_ofData (by decide)
  obtain ⟨created, first, second, third, hcreate, hfirst, hsecond, hthird, -, -, -, lost⟩ :=
    full_sector_loses_neighbour .ofData apart empty empty savable_replicate full same
  exact ⟨created, first, second, third, hcreate, hfirst, hsecond, hthird, lost⟩

end RegionHandle
end Runs
end FpgaCraft.Server
