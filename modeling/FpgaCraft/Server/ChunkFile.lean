import FpgaCraft.Library.File
import FpgaCraft.Library.Machine
import FpgaCraft.Server.StaleCells

/-! ## What `chunk.bin` holds

On unix a snapshot is written at the start of the file, elsewhere at its cursor
(`plugin/src/lib.rs`). The handle is opened once, so the cursor remembers every write. -/
namespace FpgaCraft.Server
open Library

inductive TargetFamily where
  | unix
  | other
deriving DecidableEq

def Block.byte (block : Block) : BitVec 8 := BitVec.ofNat 8 block.toByte

def chunkBytes (data : ChunkData) : List (BitVec 8) :=
  (List.finRange (CHUNK_SIZE * CHUNK_SIZE * CHUNK_SIZE)).map fun i => (data i).byte

@[simp] theorem length_chunkBytes (data : ChunkData) :
    (chunkBytes data).length = CHUNK_SIZE * CHUNK_SIZE * CHUNK_SIZE := by
  rw [chunkBytes, List.length_map, List.length_finRange]

def saveFile (family : TargetFamily) (data : ChunkData) (chunkFile : File (BitVec 8)) :
    File (BitVec 8) :=
  match family with
  | .unix => chunkFile.writeAllAt 0 (chunkBytes data) 0
  | .other => chunkFile.writeAll 0 (chunkBytes data)

structure SavingPlugin where
  plugin : FpgaPlugin
  chunkFile : File (BitVec 8)

namespace SavingPlugin

def enable : SavingPlugin := ⟨.enable, .create⟩

/-- A call of `save_chunk_local`, with the snapshot it writes. -/
def saveChunkLocal (family : TargetFamily) (profile : Software.Profile) (game : Game)
    (self : SavingPlugin) : Option (SavingPlugin × Option ChunkData) :=
  (self.plugin.saveChunkLocal profile game).map fun (plugin, written) =>
    (⟨plugin, match written with
      | none => self.chunkFile
      | some data => saveFile family data self.chunkFile⟩, written)

def logged (family : TargetFamily) (profile : Software.Profile) (game : Game)
    (s : SavingPlugin × List ChunkData) : Option (SavingPlugin × List ChunkData) :=
  (s.1.saveChunkLocal family profile game).map fun (self, written) => (self, s.2 ++ written.toList)

variable {family : TargetFamily} {profile : Software.Profile} {game : Game}

theorem plugin_written {plugin plugin' : FpgaPlugin} {written : Option ChunkData}
    (h : plugin.saveChunkLocal profile game = some (plugin', written)) :
    (written = none ∧ plugin' = plugin) ∨ written = some plugin'.chunkData := by
  unfold FpgaPlugin.saveChunkLocal at h
  split at h
  · cases h
    exact .inl ⟨rfl, rfl⟩
  · split at h
    · cases h
      exact .inl ⟨rfl, rfl⟩
    · obtain ⟨data, -, heq⟩ := Option.bind_eq_some_iff.mp h
      cases heq
      exact .inr rfl

theorem logged_of_written {s : SavingPlugin × List ChunkData} {plugin : FpgaPlugin} {data : ChunkData}
    (h : s.1.plugin.saveChunkLocal profile game = some (plugin, some data)) :
    logged family profile game s =
      some (⟨plugin, saveFile family data s.1.chunkFile⟩, s.2 ++ [data]) := by
  simp only [logged, saveChunkLocal, h, Option.map_some, Option.toList_some]

/-- The file is what the writes made of it, and the chunk in memory is the last one written. -/
structure Logged (family : TargetFamily) (s : SavingPlugin × List ChunkData) : Prop where
  file : s.1.chunkFile = s.2.foldl (fun chunkFile data => saveFile family data chunkFile) .create
  last : ∀ log data, s.2 = log ++ [data] → s.1.plugin.chunkData = data

theorem logged_enable : Logged family (enable, []) := by
  refine ⟨rfl, fun log data h => ?_⟩
  exact absurd h.symm (List.append_ne_nil_of_right_ne_nil log (List.cons_ne_nil data []))

theorem Logged.call {s s' : SavingPlugin × List ChunkData} (h : Logged family s)
    (hcall : logged family profile game s = some s') : Logged family s' := by
  obtain ⟨⟨self, written⟩, hself, rfl⟩ := Option.map_eq_some_iff.mp hcall
  obtain ⟨⟨plugin, written'⟩, hplugin, heq⟩ := Option.map_eq_some_iff.mp hself
  cases heq
  rcases plugin_written hplugin with ⟨rfl, rfl⟩ | rfl
  · simpa using h
  · refine ⟨?_, fun log data hlog => ?_⟩
    · simp only [Option.toList_some, List.foldl_append, List.foldl_cons, List.foldl_nil, ← h.file]
    · exact (List.append_inj' hlog rfl).2 |> List.singleton_inj.mp

theorem logged_run {games : List Game} {s : SavingPlugin × List ChunkData}
    (hrun : run (logged family profile) games (enable, []) = some s) : Logged family s :=
  @run_preserves _ _ _ (Logged family) (fun _ => True) (fun _ _ _ _ inv h => inv.call h) _ _ _
    (fun _ _ => trivial) logged_enable hrun

theorem content_unix (log : List ChunkData) (data : ChunkData) :
    ((log ++ [data]).foldl (fun chunkFile data => saveFile .unix data chunkFile) .create).content =
      chunkBytes data := by
  have writes := File.content_writeAllAt (0 : BitVec 8) (log.map chunkBytes)
    (fun buf hbuf => by obtain ⟨data, -, rfl⟩ := List.mem_map.mp hbuf; exact length_chunkBytes data)
    (chunkBytes data) (length_chunkBytes data)
  rw [show log.map chunkBytes ++ [chunkBytes data] = (log ++ [data]).map chunkBytes by
    rw [List.map_append, List.map_singleton], List.foldl_map] at writes
  exact writes

theorem content_other (log : List ChunkData) :
    (log.foldl (fun chunkFile data => saveFile .other data chunkFile) .create).content =
      (log.map chunkBytes).flatten := by
  have writes := congrArg File.content (File.writeAll_foldl (0 : BitVec 8) (log.map chunkBytes))
  rw [List.foldl_map] at writes
  exact writes

theorem length_flatten_chunkBytes (log : List ChunkData) :
    (log.map chunkBytes).flatten.length = log.length * (CHUNK_SIZE * CHUNK_SIZE * CHUNK_SIZE) := by
  rw [File.length_flatten_of_sized fun buf hbuf => ?_, List.length_map]
  obtain ⟨data, -, rfl⟩ := List.mem_map.mp hbuf
  exact length_chunkBytes data

/-- After any calls of which at least one has written, `chunk.bin` is the chunk in memory
exactly if the target is unix or one call has written. -/
theorem chunk_file_iff (family : TargetFamily) (profile : Software.Profile) (games : List Game)
    (self : SavingPlugin) (log : List ChunkData)
    (hrun : run (logged family profile) games (enable, []) = some (self, log)) (some : log ≠ []) :
    self.chunkFile.content = chunkBytes self.plugin.chunkData ↔
      family = .unix ∨ log.length = 1 := by
  obtain ⟨file, last⟩ := logged_run hrun
  obtain ⟨before, data, rfl⟩ := List.eq_nil_or_concat' log |>.resolve_left some
  have hdata : self.plugin.chunkData = data := last before data rfl
  have hfile : self.chunkFile =
    (before ++ [data]).foldl (fun chunkFile data => saveFile family data chunkFile) .create := file
  rw [hfile, hdata]
  cases family with
  | unix => exact iff_of_true (content_unix before data) (.inl rfl)
  | other =>
    rw [content_other]
    constructor
    · intro same
      have length := congrArg List.length same
      rw [length_flatten_chunkBytes, length_chunkBytes] at length
      simp only [CHUNK_SIZE] at length
      exact .inr (by omega)
    · rintro (unix | one)
      · cases unix
      · obtain rfl : before = [] := by simpa using one
        simp

/-- Two calls: near a player at height 65 everything is stone, and then nothing is loaded
around one at height 66. -/
def twoCalls : List Game := [stoneWorld ⟨0, ⟨65, by decide, by decide⟩, 0⟩, unloadedWorld]

theorem twoCalls_logged (family : TargetFamily) :
    ∃ self, run (logged family .debug) twoCalls (enable, []) =
      some (self, [fun _ => .stone, fun _ => .stone]) := by
  obtain ⟨data, hstone, stone⟩ := stone_snapshot .debug ⟨0, ⟨65, by decide, by decide⟩, 0⟩ rfl
    (by decide) rfl
  obtain rfl : data = fun _ => .stone := funext stone
  have moved : some (⟨0, ⟨65, by decide, by decide⟩, 0⟩ : BlockPosition) ≠
      unloadedWorld.firstPlayer := by decide
  have hunloaded := @unloadedWorld_saved ⟨fun _ => .stone, some ⟨0, ⟨65, by decide, by decide⟩, 0⟩⟩ moved
  have first := @logged_of_written family _ _ (enable, []) _ _ hstone
  let between : SavingPlugin × List ChunkData :=
    (⟨⟨fun _ => .stone, some ⟨0, ⟨65, by decide, by decide⟩, 0⟩⟩, saveFile family (fun _ => .stone) .create⟩,
      [fun _ => .stone])
  have second := @logged_of_written family _ _ between _ _ hunloaded
  exact ⟨_, (run_cons_eq_some _).mpr ⟨_, first, (run_cons_eq_some _).mpr ⟨_, second, rfl⟩⟩⟩

theorem chunk_file_iff_twoCalls :
    ∃ self, run (logged .unix .debug) twoCalls (enable, []) =
        some (self, [fun _ => .stone, fun _ => .stone]) ∧
      self.chunkFile.content = chunkBytes self.plugin.chunkData := by
  obtain ⟨self, hrun⟩ := twoCalls_logged .unix
  exact ⟨self, hrun,
    (chunk_file_iff .unix .debug twoCalls self _ hrun (List.cons_ne_nil _ _)).mpr (.inl rfl)⟩

/-- The second snapshot is appended to the first. -/
theorem second_snapshot_appended :
    ∃ self, run (logged .other .debug) twoCalls (enable, []) =
        some (self, [fun _ => .stone, fun _ => .stone]) ∧
      self.chunkFile.content.length = 524288 ∧
      self.chunkFile.content ≠ chunkBytes self.plugin.chunkData := by
  obtain ⟨self, hrun⟩ := twoCalls_logged .other
  have file : self.chunkFile = _ := (logged_run hrun).file
  have length : self.chunkFile.content.length = 524288 := by
    rw [file, content_other, length_flatten_chunkBytes, List.length_cons, List.length_singleton]
    simp only [CHUNK_SIZE, Nat.reduceAdd, Nat.reduceMul]
  refine ⟨self, hrun, length, fun same => ?_⟩
  rw [same, length_chunkBytes] at length
  simp only [CHUNK_SIZE] at length
  omega

end SavingPlugin
end FpgaCraft.Server
