import FpgaCraft.Server.RegionChunks

/-! The worker that saves and loads chunks (`feather/common/src/region_worker.rs`). The region files
of a world are opened when a chunk of theirs is asked for, and closed when none was loaded for a
minute. The clock is read once for each message. A panic is `none`. -/
namespace FpgaCraft.Server
open Library

/-- Duration to keep a region file open when not in use, in milliseconds. -/
abbrev CACHE_TIME : Nat := 60000

@[ext] structure RegionPosition where
  x : I32
  z : I32
deriving DecidableEq

def regionCoord (a : I32) : I32 where
  val := a.val / 32
  lower := by
    have := a.lower
    omega
  upper := by
    have := a.upper
    omega

def RegionPosition.fromChunk (pos : ChunkPosition) : RegionPosition :=
  ⟨regionCoord pos.x, regionCoord pos.z⟩

structure OpenRegionFile where
  handle : RegionHandle
  lastUsed : Nat

def OpenRegionFile.shouldClose (self : OpenRegionFile) (now : Nat) : Bool :=
  decide (CACHE_TIME ≤ now - self.lastUsed)

inductive ChunkLoadResult where
  | missing (pos : ChunkPosition)
  | error (err : RegionError)
  | loaded (pos : ChunkPosition) (chunk : Chunk)

def ChunkLoadResult.ofResult (pos : ChunkPosition) : Except RegionError Chunk → ChunkLoadResult
  | .error .chunkNotExist => .missing pos
  | .error err => .error err
  | .ok chunk => .loaded pos chunk

inductive WorkerRequest where
  | load (pos : ChunkPosition)
  | save (pos : ChunkPosition) (chunk : Chunk)

/-- The worker with the files in the directory of its world, which an open file has as well. -/
structure RegionWorker where
  worldDir : RegionPosition → Option (List (BitVec 8))
  regionFiles : RegionPosition → Option OpenRegionFile
  lastCacheUpdate : Nat

namespace RegionWorker
variable (fns : BlockFns) (table : VanillaIdTable) (nbt : Nbt ChunkLevel)

def new (worldDir : RegionPosition → Option (List (BitVec 8))) (now : Nat) : RegionWorker :=
  ⟨worldDir, fun _ => none, now⟩

def openFile (self : RegionWorker) (region : RegionPosition) (file : OpenRegionFile) : RegionWorker :=
  { self with regionFiles := Function.update self.regionFiles region (some file) }

def regionFileHandle (now : Nat) (region : RegionPosition) (self : RegionWorker) :
    Option (Option OpenRegionFile × RegionWorker) :=
  match self.regionFiles region with
  | some file => some (some file, self)
  | none => match self.worldDir region with
    | none => some (none, self)
    | some content => match loadRegion content with
      | none => none
      | some (.error _) => some (none, self)
      | some (.ok handle) => some (some ⟨handle, now⟩, self.openFile region ⟨handle, now⟩)

def saveChunk (now : Nat) (pos : ChunkPosition) (chunk : Chunk) (self : RegionWorker) :
    Option RegionWorker := do
  let region := RegionPosition.fromChunk pos
  let (found, self) ← self.regionFileHandle now region
  let created := (createRegion ((self.worldDir region).getD [])).map (OpenRegionFile.mk · now)
  let file ← found.or created
  let handle ← file.handle.saveChunk fns nbt pos chunk
  some { self.openFile region { file with handle } with
    worldDir := Function.update self.worldDir region (some handle.file.content) }

def getChunkLoadResult (now : Nat) (pos : ChunkPosition) (self : RegionWorker) :
    Option (ChunkLoadResult × RegionWorker) := do
  let region := RegionPosition.fromChunk pos
  let (found, self) ← self.regionFileHandle now region
  match found with
  | none => some (.missing pos, self)
  | some file => match ← file.handle.loadChunk fns table nbt pos with
    | .error .chunkNotExist => some (.missing pos, self)
    | .error err => some (.error err, self)
    | .ok chunk => some (.loaded pos chunk, self.openFile region { file with lastUsed := now })

def updateCache (now : Nat) (self : RegionWorker) : RegionWorker :=
  if CACHE_TIME ≤ now - self.lastCacheUpdate then
    { self with
      regionFiles := fun region => (self.regionFiles region).filter fun file => !file.shouldClose now
      lastCacheUpdate := now }
  else self

def receive (now : Nat) (request : Option WorkerRequest) (self : RegionWorker) :
    Option (Option ChunkLoadResult × RegionWorker) :=
  match request with
  | none => some (none, self)
  | some (.load pos) => (self.getChunkLoadResult fns table nbt now pos).map fun (result, self) => (some result, self)
  | some (.save pos chunk) => (self.saveChunk fns nbt now pos chunk).map fun self => (none, self)

def step (message : Nat × Option WorkerRequest) (self : RegionWorker) : Option RegionWorker :=
  (self.receive fns table nbt message.1 message.2).map fun result => result.2.updateCache message.1

end RegionWorker

/-! ### What the files hold -/

theorem eq_of_place_eq {pos pos' : ChunkPosition}
    (region : RegionPosition.fromChunk pos = RegionPosition.fromChunk pos')
    (slot : RegionHeader.index pos = RegionHeader.index pos') : pos = pos' := by
  have coord {a b : I32} (high : regionCoord a = regionCoord b)
      (same : RegionHeader.low a = RegionHeader.low b) : a = b := by
    have high := congrArg Signed.val high
    have same := congrArg (fun n : Nat => (n : Int)) same
    simp only [RegionHeader.low_eq, regionCoord] at high same
    apply Signed.ext
    omega
  have places := congrArg Fin.val slot
  simp only [RegionHeader.index, REGION_SIZE] at places
  have x := RegionHeader.low_lt pos.x
  have x' := RegionHeader.low_lt pos'.x
  simp only [REGION_SIZE] at x x'
  apply ChunkPosition.ext
  · exact coord (congrArg RegionPosition.x region) (by omega)
  · exact coord (congrArg RegionPosition.z region) (by omega)

section Kept
variable {fns : BlockFns} {table : VanillaIdTable} (nbt : Nbt ChunkLevel)

/-- The entries of a region, by its file and the handle that is open on it. -/
inductive Kept (dir : Option (List (BitVec 8))) (opened : Option OpenRegionFile)
    (entries : Slot → Entry ChunkLevel) : Prop where
  | new (closed : opened = none) (short : ∀ content, dir = some content → content.length < 8192)
      (absent : entries = fun _ => .absent)
  | stored (handle : RegionHandle) (dir : dir = some handle.file.content) (holds : handle.Holds nbt entries)
      (opened : ∀ file, opened = some file → file.handle = handle)

namespace RegionWorker

def Keeps (self : RegionWorker) (entries : RegionPosition → Slot → Entry ChunkLevel) : Prop :=
  ∀ region, Kept nbt (self.worldDir region) (self.regionFiles region) (entries region)

variable {nbt} {self : RegionWorker} {entries : RegionPosition → Slot → Entry ChunkLevel} {now : Nat}

theorem keeps_openFile (h : self.Keeps nbt entries) {region : RegionPosition} {file : OpenRegionFile}
    (dir : self.worldDir region = some file.handle.file.content)
    (holds : file.handle.Holds nbt (entries region)) : (self.openFile region file).Keeps nbt entries := by
  intro other
  by_cases same : other = region
  · subst same
    refine .stored file.handle dir holds fun opened hopened => ?_
    simp only [openFile, Function.update_self, Option.some.injEq] at hopened
    rw [hopened]
  · simp only [openFile, Function.update_of_ne same]
    exact h other

variable (nbt) in
def Found (dir : Option (List (BitVec 8))) (entries : Slot → Entry ChunkLevel) : Option OpenRegionFile → Prop
  | some file => dir = some file.handle.file.content ∧ file.handle.Holds nbt entries
  | none => (dir.getD []).length ≤ 8192 ∧ entries = fun _ => .absent

theorem exists_regionFileHandle (h : self.Keeps nbt entries) (now : Nat) (region : RegionPosition) :
    ∃ found self', self.regionFileHandle now region = some (found, self') ∧ self'.Keeps nbt entries ∧
      self'.worldDir = self.worldDir ∧ Found nbt (self.worldDir region) (entries region) found := by
  rw [regionFileHandle]
  cases hopen : self.regionFiles region with
  | some file =>
    refine ⟨some file, self, rfl, h, rfl, ?_⟩
    cases h region with
    | new closed => cases hopen.symm.trans closed
    | stored handle dir holds opened =>
      obtain rfl := opened file hopen
      exact ⟨dir, holds⟩
  | none =>
    cases h region with
    | new closed short absent =>
      cases hdir : self.worldDir region with
      | none => exact ⟨none, self, rfl, h, rfl, Nat.zero_le _, absent⟩
      | some content =>
        have few := short content hdir
        have failed : loadRegion content =
            some (.error (.header "The region header is too small.")) := by
          rw [loadRegion, readHeader, if_pos few]
        refine ⟨none, self, ?_, h, rfl, few.le, absent⟩
        dsimp only
        rw [failed]
    | stored handle dir holds opened =>
      obtain ⟨handle', hload, content, holds'⟩ := holds.exists_loadRegion
      have dir' : self.worldDir region = some handle'.file.content := by rw [dir, content]
      refine ⟨some ⟨handle', now⟩, self.openFile region ⟨handle', now⟩, ?_, keeps_openFile h dir' holds',
        rfl, dir', holds'⟩
      rw [dir]
      dsimp only
      rw [hload]

theorem keeps_updateCache (h : self.Keeps nbt entries) (now : Nat) : (self.updateCache now).Keeps nbt entries := by
  rw [updateCache]
  split
  · intro region
    cases h region with
    | new closed short absent => exact .new (by dsimp only; rw [closed]; rfl) short absent
    | stored handle dir holds opened =>
      refine .stored handle dir holds fun file hfile => opened file ?_
      exact (Option.filter_eq_some_iff.mp hfile).1
  · exact h

theorem exists_getChunkLoadResult (h : self.Keeps nbt entries) (now : Nat) (pos : ChunkPosition)
    {result : Except RegionError Chunk}
    (hresult : (entries (.fromChunk pos) (RegionHeader.index pos)).loadChunk fns table = some result) :
    ∃ self', self.getChunkLoadResult fns table nbt now pos = some (.ofResult pos result, self') ∧
      self'.Keeps nbt entries := by
  obtain ⟨found, opened, hfound, keeps, dir, hold⟩ := exists_regionFileHandle h now (.fromChunk pos)
  rw [getChunkLoadResult, hfound]
  cases found with
  | none =>
    refine ⟨opened, ?_, keeps⟩
    rw [hold.2] at hresult
    cases hresult
    rfl
  | some file =>
    obtain ⟨content, holds⟩ := hold
    have load : file.handle.loadChunk fns table nbt pos = some result := (holds.loadChunk_eq pos).trans hresult
    simp only [Option.bind_eq_bind, Option.bind_some, load]
    cases result with
    | error err => cases err <;> exact ⟨opened, rfl, keeps⟩
    | ok chunk => exact ⟨_, rfl, keeps_openFile keeps (dir ▸ content) holds⟩

theorem exists_saveChunk (h : self.Keeps nbt entries) {pos : ChunkPosition} {chunk : Chunk}
    (accepted : chunk.Accepted fns table nbt pos) (now : Nat) :
    ∃ self' stored root, self.saveChunk fns nbt now pos chunk = some self' ∧
      self'.Keeps nbt (Function.update entries (.fromChunk pos) stored) ∧
      Saves (entries (.fromChunk pos)) stored (RegionHeader.index pos) root (chunk.spills fns nbt pos) ∧
      chunk.ReadFrom fns table root := by
  obtain ⟨found, opened, hfound, keeps, dir, hold⟩ := exists_regionFileHandle h now (.fromChunk pos)
  obtain ⟨file, hfile, holds⟩ : ∃ file : OpenRegionFile,
      found.or ((createRegion ((opened.worldDir (.fromChunk pos)).getD [])).map (OpenRegionFile.mk · now)) =
        some file ∧ file.handle.Holds nbt (entries (.fromChunk pos)) := by
    cases found with
    | some file => exact ⟨file, rfl, hold.2⟩
    | none =>
      obtain ⟨handle, hcreate, holds, -⟩ := RegionHandle.exists_createRegion nbt hold.1
      refine ⟨⟨handle, now⟩, ?_, ?_⟩
      · rw [dir, hcreate]
        rfl
      · rw [hold.2]
        exact holds
  obtain ⟨handle, stored, root, hsave, holds', saves, read⟩ := holds.exists_saveChunk accepted
  refine ⟨{ opened.openFile (.fromChunk pos) { file with handle } with
    worldDir := Function.update opened.worldDir (.fromChunk pos) (some handle.file.content) },
    stored, root, ?_, ?_, saves, read⟩
  · rw [saveChunk, hfound]
    simp only [Option.bind_eq_bind, Option.bind_some, hfile, hsave]
  · intro region
    by_cases same : region = .fromChunk pos
    · subst same
      simp only [openFile, Function.update_self]
      exact .stored handle rfl holds' fun opened hopened => (Option.some.inj hopened) ▸ rfl
    · simp only [openFile, Function.update_of_ne same]
      exact keeps region

end RegionWorker
end Kept

/-! ### Runs -/

namespace WorkerRequest
variable (fns : BlockFns) (table : VanillaIdTable) (nbt : Nbt ChunkLevel)

def Accepted : WorkerRequest → Prop
  | save pos chunk => chunk.Accepted fns table nbt pos
  | load _ => True

def store : WorkerRequest → (ChunkPosition → Option Chunk) → ChunkPosition → Option Chunk
  | save pos chunk, saved => Function.update saved pos (some chunk)
  | load _, saved => saved

def lastSaved (messages : List (Nat × Option WorkerRequest)) : ChunkPosition → Option Chunk :=
  messages.foldl (fun saved message => message.2.elim saved fun request => request.store saved) fun _ => none

def Spares (messages : List (Nat × Option WorkerRequest)) : Prop :=
  ∀ message ∈ messages, ∀ pos chunk, message.2 = some (save pos chunk) → chunk.spills fns nbt pos = false

end WorkerRequest

section Runs
variable {fns : BlockFns} {table : VanillaIdTable} {nbt : Nbt ChunkLevel}

namespace RegionWorker
variable {self : RegionWorker} {entries : RegionPosition → Slot → Entry ChunkLevel}

def byPosition (entries : RegionPosition → Slot → Entry ChunkLevel) (pos : ChunkPosition) : Entry ChunkLevel :=
  entries (.fromChunk pos) (RegionHeader.index pos)

theorem saves_update {pos : ChunkPosition} {stored : Slot → Entry ChunkLevel} {root : ChunkRoot ChunkLevel}
    {spills : Bool} (saves : Saves (entries (.fromChunk pos)) stored (RegionHeader.index pos) root spills) :
    Saves (byPosition entries) (byPosition (Function.update entries (.fromChunk pos) stored)) pos root spills := by
  constructor
  · rw [byPosition, Function.update_self]
    exact saves.own
  · intro other apart
    by_cases region : RegionPosition.fromChunk other = .fromChunk pos
    · simp only [byPosition, region, Function.update_self]
      exact saves.other _ fun slot => apart (eq_of_place_eq region slot)
    · simp only [byPosition, Function.update_of_ne region, true_or]

variable {worldDir : RegionPosition → Option (List (BitVec 8))}

theorem keeps_new (short : ∀ region content, worldDir region = some content → content.length < 8192)
    (start : Nat) : (new worldDir start).Keeps nbt fun _ _ => .absent :=
  fun region => .new rfl (short region) rfl

theorem holds_run (short : ∀ region content, worldDir region = some content → content.length < 8192)
    (start : Nat) {messages : List (Nat × Option WorkerRequest)}
    (accepted : ∀ m ∈ messages, ∀ request, m.2 = some request → request.Accepted fns table nbt) :
    ∃ worker entries, run (step fns table nbt) messages (new worldDir start) = some worker ∧
      worker.Keeps nbt entries ∧
      Recorded (Chunk.ReadFrom fns table) (byPosition entries) (WorkerRequest.lastSaved messages) ∧
      (WorkerRequest.Spares fns nbt messages → ∀ pos, byPosition entries pos ≠ .zeroed) := by
  induction messages using List.reverseRecOn with
  | nil =>
    exact ⟨_, _, rfl, keeps_new short start, ⟨fun _ => rfl, fun _ _ h => (by cases h)⟩, fun _ _ h => (by cases h)⟩
  | append_singleton messages message ih =>
    obtain ⟨worker, entries, hrun, keeps, recorded, spared⟩ :=
      ih fun m hm => accepted m (List.mem_append_left _ hm)
    obtain ⟨now, request⟩ := message
    have last : (now, request) ∈ messages ++ [(now, request)] :=
      List.mem_append_right _ (List.mem_singleton_self _)
    have earlier (spares : WorkerRequest.Spares fns nbt (messages ++ [(now, request)])) :=
      spared fun m hm => spares m (List.mem_append_left _ hm)
    have next (worker' answer) (hreceive : worker.receive fns table nbt now request = some (answer, worker')) :
        run (step fns table nbt) (messages ++ [(now, request)]) (new worldDir start) =
          some (worker'.updateCache now) :=
      (run_concat_eq_some _).mpr ⟨worker, hrun, by rw [step, hreceive, Option.map_some]⟩
    rw [WorkerRequest.lastSaved, List.foldl_append, List.foldl_cons, List.foldl_nil]
    cases request with
    | none => exact ⟨_, entries, next worker none rfl, keeps_updateCache keeps now, recorded, earlier⟩
    | some request =>
      cases request with
      | load pos =>
        obtain ⟨result, hresult⟩ := recorded.exists_loadChunk pos
        obtain ⟨worker', hload, keeps'⟩ := exists_getChunkLoadResult keeps now pos hresult
        have hreceive : worker.receive fns table nbt now (some (.load pos)) =
            some (some (.ofResult pos result), worker') := by rw [receive, hload, Option.map_some]
        exact ⟨_, entries, next worker' _ hreceive, keeps_updateCache keeps' now, recorded, earlier⟩
      | save pos chunk =>
        obtain ⟨worker', stored, root, hsave, keeps', saves, read⟩ :=
          exists_saveChunk keeps (accepted _ last _ rfl) now
        have hreceive : worker.receive fns table nbt now (some (.save pos chunk)) = some (none, worker') := by
          rw [receive, hsave, Option.map_some]
        refine ⟨_, _, next worker' none hreceive, keeps_updateCache keeps' now,
          recorded.save (saves_update saves) read, ?_⟩
        intro spares p
        rw [spares _ last pos chunk rfl] at saves
        exact (saves_update saves).spared p (earlier spares p)

variable (fns table nbt)

/-- The worker does not panic, in whatever order and at what times it is asked, and however often its
files are closed and opened again: a load is answered with the chunk saved last at its position, but
for its heightmaps. Only where the padding of a save filled a whole sector may it fail, and it is
never answered with another chunk. -/
theorem worker_loads_chunks
    (short : ∀ region content, worldDir region = some content → content.length < 8192) (start : Nat)
    (messages : List (Nat × Option WorkerRequest))
    (accepted : ∀ m ∈ messages, ∀ request, m.2 = some request → request.Accepted fns table nbt) :
    ∃ worker, run (step fns table nbt) messages (new worldDir start) = some worker ∧
      ∀ now pos, ∃ answer worker',
        worker.receive fns table nbt now (some (.load pos)) = some (some answer, worker') ∧
          (WorkerRequest.lastSaved messages pos = none → answer = .missing pos) ∧
          ∀ chunk, WorkerRequest.lastSaved messages pos = some chunk →
            answer = .loaded pos chunk.reloaded ∨
              answer = .error (.chunkTooLarge 0) ∧ ¬WorkerRequest.Spares fns nbt messages := by
  obtain ⟨worker, entries, hrun, keeps, recorded, spared⟩ := holds_run short start accepted
  refine ⟨worker, hrun, fun now pos => ?_⟩
  obtain ⟨result, hresult⟩ := recorded.exists_loadChunk pos
  obtain ⟨worker', hload, -⟩ := exists_getChunkLoadResult keeps now pos hresult
  refine ⟨.ofResult pos result, worker', by rw [receive, hload, Option.map_some], fun unsaved => ?_,
    fun chunk hsaved => ?_⟩
  · obtain rfl := Option.some.inj (hresult.symm.trans (recorded.loadChunk_absent unsaved))
    rfl
  · rcases recorded.loadChunk_saved hsaved with read | ⟨lost, zeroed⟩
    · left
      obtain rfl := Option.some.inj (hresult.symm.trans read)
      rfl
    · right
      obtain rfl := Option.some.inj (hresult.symm.trans lost)
      exact ⟨rfl, fun spares => spared spares pos zeroed⟩

/-- A chunk west of the origin, whose file is closed and opened again. -/
theorem worker_loads_chunks_west : ∃ chunk nbt worker,
    run (Chunk.edit .inOrder .solidGround) [.fill 3 ⟨.stone, 0⟩] .new = some chunk ∧
      run (step .airOrStone .inOrder nbt) [(0, some (.save ⟨⟨-1, by decide, by decide⟩, 0⟩ chunk)), (70000, none)]
        (new (fun _ => none) 0) = some worker ∧
      ∃ answer worker', worker.receive .airOrStone .inOrder nbt 70001
          (some (.load ⟨⟨-1, by decide, by decide⟩, 0⟩)) = some (some answer, worker') ∧
        answer = .loaded ⟨⟨-1, by decide, by decide⟩, 0⟩ chunk.reloaded := by
  obtain ⟨chunk, nbt, hedits, accepted, spared⟩ := exists_accepted_stone ⟨⟨-1, by decide, by decide⟩, 0⟩
  obtain ⟨worker, hrun, loads⟩ := @worker_loads_chunks .airOrStone .inOrder nbt (fun _ => none)
    (fun _ _ h => by cases h) 0 [(0, some (.save ⟨⟨-1, by decide, by decide⟩, 0⟩ chunk)), (70000, none)] (by
      intro m hm request hrequest
      simp only [List.mem_cons, List.not_mem_nil, or_false] at hm
      rcases hm with rfl | rfl
      · cases hrequest
        exact accepted
      · cases hrequest)
  obtain ⟨answer, worker', hreceive, -, answers⟩ := loads 70001 ⟨⟨-1, by decide, by decide⟩, 0⟩
  refine ⟨chunk, nbt, worker, hedits, hrun, answer, worker', hreceive, ?_⟩
  have last : WorkerRequest.lastSaved [(0, some (.save ⟨⟨-1, by decide, by decide⟩, 0⟩ chunk)), (70000, none)]
      ⟨⟨-1, by decide, by decide⟩, 0⟩ = some chunk := by
    simp only [WorkerRequest.lastSaved, List.foldl_cons, List.foldl_nil, Option.elim_some, Option.elim_none,
      WorkerRequest.store, Function.update_self]
  apply (answers chunk last).resolve_right
  rintro ⟨-, spilt⟩
  apply spilt
  intro m hm pos other hsave
  simp only [List.mem_cons, List.not_mem_nil, or_false] at hm
  rcases hm with rfl | rfl
  · cases hsave
    exact spared
  · cases hsave

theorem saveChunk_eq_none {pos : ChunkPosition} {chunk : Chunk} (h : chunkToChunkRoot fns pos chunk = none)
    (now : Nat) (self : RegionWorker) : self.saveChunk fns nbt now pos chunk = none := by
  have failed (handle : RegionHandle) : handle.saveChunk fns nbt pos chunk = none := by
    rw [RegionHandle.saveChunk, h, Option.bind_none]
  rw [saveChunk]
  cases self.regionFileHandle now (.fromChunk pos) with
  | none => rfl
  | some opened => simp [failed]

/-- Whatever 256 distinct blocks besides air are set in a new section, and whatever is set later, the
worker panics when it is to save a chunk with this section. -/
theorem full_section_ends_worker (sets later : List ((Nat × Nat × Nat) × BlockId))
    (inside : ∀ s ∈ sets, s.1.1 < 16 ∧ s.1.2.1 < 16 ∧ s.1.2.2 < 16)
    (known : ∀ s ∈ sets ++ later, s.2.Known table) (proper : ∀ s ∈ sets, s.2 ≠ .air)
    (distinct : (sets.map Prod.snd).Nodup) (full : sets.length = 256) :
    ∃ store, run (BlockStore.edit table) ((sets ++ later).map fun s => .set s.1.1 s.1.2.1 s.1.2.2 s.2) .new =
        some store ∧
      ∀ (worker : RegionWorker) (now : Nat) (pos : ChunkPosition) (chunk : Chunk), some store ∈ chunk.sections →
        worker.receive fns table nbt now (some (.save pos chunk)) = none := by
  obtain ⟨store, -, hrun, -, global⟩ := BlockStore.palette_of_full inside known proper distinct full
  refine ⟨store, hrun, fun worker now pos chunk kept => ?_⟩
  have panics : chunkToChunkRoot fns pos chunk = none :=
    chunkToChunkRoot_eq_none_iff.mpr ⟨store, kept, global⟩
  rw [receive, saveChunk_eq_none fns nbt panics now worker, Option.map_none]

theorem full_section_ends_worker_notes : ∃ store,
    run (BlockStore.edit .inOrder) (noteBlocks.map fun s => .set s.1.1 s.1.2.1 s.1.2.2 s.2) .new = some store ∧
      (new (fun _ => none) 0).receive .airOrStone .inOrder (.ofRoot ⟨⟨0, 0, []⟩, DATA_VERSION⟩) 0
        (some (.save ⟨0, 0⟩ ⟨[some store], .new⟩)) = none := by
  obtain ⟨store, hrun, panics⟩ := full_section_ends_worker .airOrStone .inOrder
    (.ofRoot ⟨⟨0, 0, []⟩, DATA_VERSION⟩) noteBlocks [] (fun _ => cell_noteBlocks)
    (fun s hs => known_noteBlocks (by rwa [List.append_nil] at hs)) (fun _ => ne_air_noteBlocks)
    nodup_noteBlocks length_noteBlocks
  rw [List.append_nil] at hrun
  exact ⟨store, hrun, panics _ 0 ⟨0, 0⟩ _ List.mem_cons_self⟩

end RegionWorker
end Runs
end FpgaCraft.Server
