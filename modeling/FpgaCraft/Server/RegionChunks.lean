import FpgaCraft.Server.RegionLevel
import FpgaCraft.Server.RegionRuns

/-! Runs of a region file with chunks: what is loaded after saves and reopenings. -/
namespace FpgaCraft.Server
open Library

namespace Chunk
variable (fns : BlockFns) (table : VanillaIdTable) (nbt : Nbt ChunkLevel) (pos : ChunkPosition) (chunk : Chunk)

/-- A chunk that can be saved, with data of at most 255 sectors. -/
structure Accepted : Prop where
  storable : chunk.Storable fns table
  savable : ∀ root, chunkToChunkRoot fns pos chunk = some root → ∃ data, Savable nbt root data

def spills : Bool := (chunkToChunkRoot fns pos chunk).any (RegionCall.spills nbt)

def ReadFrom (root : ChunkRoot ChunkLevel) : Prop :=
  readLevel fns table root.level = some (.ok chunk.reloaded)

end Chunk

def Entry.loadChunk (fns : BlockFns) (table : VanillaIdTable) (entry : Entry ChunkLevel) :
    Option (Except RegionError Chunk) :=
  match entry.load with
  | .error err => some (.error err)
  | .ok root => readLevel fns table root.level

section Recorded
variable {fns : BlockFns} {table : VanillaIdTable} {ι : Type} {entries : ι → Entry ChunkLevel}
  {saved : ι → Option Chunk} {chunk : Chunk} {i : ι}

theorem Recorded.loadChunk_absent (h : Recorded (Chunk.ReadFrom fns table) entries saved)
    (unsaved : saved i = none) : (entries i).loadChunk fns table = some (.error .chunkNotExist) := by
  rw [h.absent unsaved]
  rfl

theorem Recorded.loadChunk_saved (h : Recorded (Chunk.ReadFrom fns table) entries saved)
    (hsaved : saved i = some chunk) :
    (entries i).loadChunk fns table = some (.ok chunk.reloaded) ∨
      (entries i).loadChunk fns table = some (.error (.chunkTooLarge 0)) ∧ entries i = .zeroed := by
  by_cases zeroed : entries i = .zeroed
  · right
    rw [zeroed]
    exact ⟨rfl, rfl⟩
  · left
    obtain ⟨root, hroot, read⟩ := h.kept hsaved zeroed
    rw [hroot]
    exact read

theorem Recorded.exists_loadChunk (h : Recorded (Chunk.ReadFrom fns table) entries saved) (i : ι) :
    ∃ result, (entries i).loadChunk fns table = some result := by
  cases hsaved : saved i with
  | none => exact ⟨_, h.loadChunk_absent hsaved⟩
  | some chunk =>
    rcases h.loadChunk_saved hsaved with read | ⟨lost, -⟩
    · exact ⟨_, read⟩
    · exact ⟨_, lost⟩

end Recorded

/-! ### A chunk of stone -/

def Nbt.ofRoot (root : ChunkRoot ChunkLevel) : Nbt ChunkLevel where
  toZlibWriter _ := some [7]
  fromZlibReader _ := some root
  fromGzipReader _ := none

theorem exists_accepted_stone (pos : ChunkPosition) : ∃ chunk nbt,
    run (Chunk.edit .inOrder .solidGround) [.fill 3 ⟨.stone, 0⟩] .new = some chunk ∧
      chunk.Accepted .airOrStone .inOrder nbt pos ∧ chunk.spills .airOrStone nbt pos = false := by
  have named (block : BlockId) (hblock : block = .air ∨ block ∈ [⟨.stone, 0⟩]) :
      BlockFns.airOrStone.Names block := by
    rw [List.mem_singleton] at hblock
    rcases hblock with rfl | rfl <;> rfl
  obtain ⟨chunk, hrun, storable⟩ := @Chunk.storable_of_run _ .inOrder .solidGround (fun _ => [⟨.stone, 0⟩])
    (fun _ => by decide) (fun _ => by simp [BlockId.known_stone]) (fun _ => named) [.fill 3 ⟨.stone, 0⟩]
    (by simp [ChunkEdit.Uses])
  obtain ⟨root, hroot, -⟩ := storable.reload pos
  have version : root.dataVersion = DATA_VERSION := by
    obtain ⟨levels, -, rfl⟩ := Option.map_eq_some_iff.mp hroot
    rfl
  refine ⟨chunk, .ofRoot root, hrun, ⟨storable, fun other hother => ?_⟩, ?_⟩
  · obtain rfl := Option.some.inj (hroot.symm.trans hother)
    exact ⟨[7], rfl, rfl, version, by decide⟩
  · rw [Chunk.spills, hroot]
    rfl

/-! ### Runs -/

/-- What happens to a region file; another handle is opened after the first is dropped. -/
inductive ChunkCall where
  | save (pos : ChunkPosition) (chunk : Chunk)
  | reopen

namespace ChunkCall
variable (fns : BlockFns) (table : VanillaIdTable) (nbt : Nbt ChunkLevel)

def Accepted : ChunkCall → Prop
  | save pos chunk => chunk.Accepted fns table nbt pos
  | reopen => True

def store : ChunkCall → (Slot → Option Chunk) → Slot → Option Chunk
  | save pos chunk, saved => Function.update saved (RegionHeader.index pos) (some chunk)
  | reopen, saved => saved

def lastSaved (calls : List ChunkCall) : Slot → Option Chunk :=
  calls.foldl (fun saved c => c.store saved) fun _ => none

/-- No data saved end with a sector. -/
def Spares (calls : List ChunkCall) : Prop :=
  ∀ pos chunk, save pos chunk ∈ calls → chunk.spills fns nbt pos = false

end ChunkCall

namespace RegionHandle

def chunkCall (fns : BlockFns) (nbt : Nbt ChunkLevel) : ChunkCall → RegionHandle → Option RegionHandle
  | .save pos chunk, handle => handle.saveChunk fns nbt pos chunk
  | .reopen, handle => (loadRegion handle.file.content).bind Except.toOption

section Runs
variable {fns : BlockFns} {table : VanillaIdTable} {nbt : Nbt ChunkLevel} {handle : RegionHandle}
  {entries : Slot → Entry ChunkLevel} {pos : ChunkPosition} {chunk : Chunk}

theorem Holds.loadChunk_eq (h : handle.Holds nbt entries) (pos : ChunkPosition) :
    handle.loadChunk fns table nbt pos = (entries (RegionHeader.index pos)).loadChunk fns table := by
  rw [loadChunk, h.loadRoot_eq]
  rfl

theorem Holds.exists_saveChunk (h : handle.Holds nbt entries) (accepted : chunk.Accepted fns table nbt pos) :
    ∃ handle' entries' root, handle.saveChunk fns nbt pos chunk = some handle' ∧ handle'.Holds nbt entries' ∧
      Saves entries entries' (RegionHeader.index pos) root (chunk.spills fns nbt pos) ∧
      chunk.ReadFrom fns table root := by
  obtain ⟨root, hroot, read⟩ := accepted.storable.reload pos
  obtain ⟨data, savable⟩ := accepted.savable root hroot
  obtain ⟨handle', block, hsave, h', -⟩ := h.exists_saveRoot savable pos
  refine ⟨handle', _, root, ?_, h', ?_, read⟩
  · rw [saveChunk, hroot, Option.bind_some, hsave]
  · rw [Chunk.spills, hroot, Option.any_some, savable.spills_eq]
    exact Entry.saves_afterSave entries ..

theorem chunks_run {calls : List ChunkCall} (accepted : ∀ c ∈ calls, c.Accepted fns table nbt)
    (h : handle.Holds nbt fun _ => .absent) :
    ∃ handle' entries, run (chunkCall fns nbt) calls handle = some handle' ∧ handle'.Holds nbt entries ∧
      Recorded (Chunk.ReadFrom fns table) entries (ChunkCall.lastSaved calls) ∧
      (ChunkCall.Spares fns nbt calls → ∀ slot, entries slot ≠ .zeroed) := by
  induction calls using List.reverseRecOn with
  | nil => exact ⟨handle, _, rfl, h, ⟨fun _ => rfl, fun _ _ h => (by cases h)⟩, fun _ _ h => (by cases h)⟩
  | append_singleton calls c ih =>
    obtain ⟨mid, old, hrun, holds, recorded, spared⟩ := ih fun c hc => accepted c (List.mem_append_left _ hc)
    have earlier (spares : ChunkCall.Spares fns nbt (calls ++ [c])) : ∀ slot, old slot ≠ .zeroed :=
      spared fun pos chunk hc => spares pos chunk (List.mem_append_left _ hc)
    have last : c ∈ calls ++ [c] := List.mem_append_right _ (List.mem_singleton_self _)
    rw [ChunkCall.lastSaved, List.foldl_append, List.foldl_cons, List.foldl_nil]
    cases c with
    | save pos chunk =>
      obtain ⟨handle', entries, root, hsave, holds', saves, read⟩ :=
        holds.exists_saveChunk (accepted (.save pos chunk) last)
      refine ⟨handle', entries, (run_concat_eq_some _).mpr ⟨mid, hrun, hsave⟩, holds', recorded.save saves read, ?_⟩
      intro spares slot
      rw [spares pos chunk last] at saves
      exact saves.spared slot (earlier spares slot)
    | reopen =>
      obtain ⟨handle', hload, -, holds'⟩ := holds.exists_loadRegion
      have reopened : chunkCall fns nbt .reopen mid = some handle' := by
        rw [chunkCall, hload]
        rfl
      exact ⟨handle', old, (run_concat_eq_some _).mpr ⟨mid, hrun, reopened⟩, holds', recorded, earlier⟩

variable (fns table nbt)

/-- In every run of saves and reopenings of a region file every call succeeds, and the chunk saved
last is loaded, but for its heightmaps. Only where the padding of a save filled a whole sector may a
load fail, and never with another chunk. -/
theorem region_loads_chunks {content : List (BitVec 8)} (short : content.length ≤ 8192)
    (calls : List ChunkCall) (accepted : ∀ c ∈ calls, c.Accepted fns table nbt) :
    ∃ created handle, createRegion content = some created ∧
      run (chunkCall fns nbt) calls created = some handle ∧
      (∀ pos, handle.checkChunkExistence pos = (ChunkCall.lastSaved calls (RegionHeader.index pos)).isSome) ∧
      (∀ pos, ChunkCall.lastSaved calls (RegionHeader.index pos) = none →
        handle.loadChunk fns table nbt pos = some (.error .chunkNotExist)) ∧
      (∀ pos chunk, ChunkCall.lastSaved calls (RegionHeader.index pos) = some chunk →
        handle.loadChunk fns table nbt pos = some (.ok chunk.reloaded) ∨
          handle.loadChunk fns table nbt pos = some (.error (.chunkTooLarge 0)) ∧
            ¬ChunkCall.Spares fns nbt calls) := by
  obtain ⟨created, hcreate, initial, -⟩ := exists_createRegion nbt short
  obtain ⟨handle, entries, hrun, holds, recorded, spared⟩ := chunks_run accepted initial
  refine ⟨created, handle, hcreate, hrun, fun pos => ?_, fun pos unsaved => ?_, fun pos chunk hsaved => ?_⟩
  · rw [← recorded.present, Bool.eq_iff_iff]
    exact holds.exists_iff (RegionHeader.index pos)
  · rw [holds.loadChunk_eq]
    exact recorded.loadChunk_absent unsaved
  · rw [holds.loadChunk_eq]
    rcases recorded.loadChunk_saved hsaved with read | ⟨lost, zeroed⟩
    · exact .inl read
    · exact .inr ⟨lost, fun spares => spared spares _ zeroed⟩

theorem region_loads_chunks_stone : ∃ chunk nbt created handle,
    run (Chunk.edit .inOrder .solidGround) [.fill 3 ⟨.stone, 0⟩] .new = some chunk ∧
      createRegion [] = some created ∧
      run (chunkCall .airOrStone nbt) [.save ⟨0, 0⟩ chunk, .reopen] created = some handle ∧
      handle.loadChunk .airOrStone .inOrder nbt ⟨0, 0⟩ = some (.ok chunk.reloaded) := by
  obtain ⟨chunk, nbt, hedits, accepted, spared⟩ := exists_accepted_stone ⟨0, 0⟩
  obtain ⟨created, handle, hcreate, hrun, -, -, loads⟩ := @region_loads_chunks .airOrStone .inOrder
    nbt [] (Nat.zero_le 8192) [.save ⟨0, 0⟩ chunk, .reopen] (by
      simp only [List.forall_mem_cons, List.not_mem_nil, false_implies, implies_true, and_true]
      exact ⟨accepted, trivial⟩)
  have last : ChunkCall.lastSaved [.save ⟨0, 0⟩ chunk, .reopen] (RegionHeader.index ⟨0, 0⟩) = some chunk := by
    simp only [ChunkCall.lastSaved, List.foldl_cons, List.foldl_nil, ChunkCall.store, Function.update_self]
  refine ⟨chunk, nbt, created, handle, hedits, hcreate, hrun, ?_⟩
  apply (loads ⟨0, 0⟩ chunk last).resolve_right
  rintro ⟨-, spilt⟩
  apply spilt
  intro pos other hsave
  simp only [List.mem_cons, ChunkCall.save.injEq, reduceCtorEq, List.not_mem_nil, or_false] at hsave
  obtain ⟨rfl, rfl⟩ := hsave
  exact spared

end Runs
end RegionHandle
end FpgaCraft.Server
