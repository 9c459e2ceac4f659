import FpgaCraft.Server.World

/-! Runs of the server's world: which block a read finds while chunks come and go. -/
namespace FpgaCraft.Server
open Library

/-- What happens to the world. Chunks are asked for where they are neither loaded nor being loaded,
as by the tickets of players. -/
inductive WorldCall where
  | setBlock (pos : BlockPosition) (block : BlockId)
  | fillSection (pos : ChunkPosition) (sectionY : Nat) (block : BlockId)
  | request (pos : ChunkPosition)
  | load (pos : ChunkPosition) (chunk : Chunk)
  | unload (pos : ChunkPosition)
  | purge (inUse : ChunkPosition → Bool)

abbrev Blocks : Type := BlockPosition → BlockId

def Chunk.cellsAt (table : VanillaIdTable) (chunk : Chunk) (pos : BlockPosition) : BlockId :=
  let (x, y, z) := chunkRelativePos pos
  chunk.cells table x y z

namespace WorldCall
variable (table : VanillaIdTable) (traits : BlockTraits) (allowed : ChunkPosition → Nat → List BlockId)

def apply : WorldCall → Blocks → Blocks
  | .setBlock pos block, blocks => Function.update blocks pos block
  | .fillSection chunk sectionY block, blocks => fun pos =>
    if pos.chunk = chunk ∧ pos.y.val / 16 = sectionY then block else blocks pos
  | .load chunkPos chunk, blocks => fun pos =>
    if pos.chunk = chunkPos then chunk.cellsAt table pos else blocks pos
  | _, blocks => blocks

def lastSet (log : List (WorldCall × Bool)) : Blocks :=
  log.foldl (fun blocks entry => if entry.2 then entry.1.apply table blocks else blocks) fun _ => .air

/-- The calls with the blocks allowed for a section; the chunks that are loaded were generated with
them. -/
def Uses : WorldCall → Prop
  | .setBlock pos block => block = .air ∨ block ∈ allowed pos.chunk (Chunk.sectionForY pos.y.val.toNat)
  | .fillSection chunk sectionY block => block = .air ∨ block ∈ allowed chunk (sectionY + 1)
  | .load pos chunk => ∃ edits, (∀ e ∈ edits, ChunkEdit.Uses (allowed pos) False e) ∧
    run (Chunk.edit table traits) edits .new = some chunk
  | _ => True

theorem uses_load_new (pos : ChunkPosition) : (load pos .new).Uses table traits allowed :=
  ⟨[], by simp, rfl⟩

end WorldCall

namespace World
variable (table : VanillaIdTable) (traits : BlockTraits)

def call (self : World) : WorldCall → Option (World × Bool)
  | .setBlock pos block => self.setBlockAt table traits pos block
  | .fillSection pos sectionY block => self.fillChunkSection pos sectionY block
  | .request pos =>
    if self.isChunkLoaded pos || self.isChunkLoading pos then some (self, false)
    else some (self.queueChunkLoad pos)
  -- the worker answers nothing but requests
  | .load pos chunk => if self.isChunkLoading pos then some (self.loadChunk pos chunk) else some (self, false)
  | .unload pos => some (self.unloadChunk pos)
  | .purge inUse => some (self.purgeUnused inUse, true)

def logged (c : WorldCall) (s : World × List (WorldCall × Bool)) :
    Option (World × List (WorldCall × Bool)) :=
  (s.1.call table traits c).map fun result => (result.1, s.2 ++ [(c, result.2)])

def Shows (allowed : ChunkPosition → Nat → List BlockId) (blocks : Blocks) (pos : ChunkPosition)
    (chunk : Chunk) : Prop :=
  ∃ column, chunk.Holds table traits (allowed pos) False 0 column ∧
    ∀ p : BlockPosition, p.chunk = pos → checkCoords p = true →
      (column (Chunk.sectionForY (chunkRelativePos p).2.1) (chunkRelativePos p).1
        ((chunkRelativePos p).2.1 % SECTION_HEIGHT) (chunkRelativePos p).2.2).Same (blocks p)

/-- The chunks in memory show the blocks; no position has two of them or is asked for besides. -/
structure Holds (allowed : ChunkPosition → Nat → List BlockId) (world : World) (blocks : Blocks) :
    Prop where
  loaded : ∀ pos handle, world.chunkMap pos = some handle →
    handle.loaded = true ∧ Shows table traits allowed blocks pos handle.chunk
  cached : ∀ pos handle, world.cache pos = some handle →
    Shows table traits allowed blocks pos handle.chunk
  uncached : ∀ pos, (world.cache pos).isSome = true →
    world.chunkMap pos = none ∧ world.loadingChunks pos = false
  absent : ∀ pos, world.loadingChunks pos = true → world.chunkMap pos = none

variable {table traits} {allowed : ChunkPosition → Nat → List BlockId} {world : World}
  {blocks blocks' : Blocks} {pos : ChunkPosition} {chunk : Chunk} {p : BlockPosition} {block : BlockId}

theorem Shows.congr (h : Shows table traits allowed blocks pos chunk)
    (same : ∀ p : BlockPosition, p.chunk = pos → checkCoords p = true → blocks' p = blocks p) :
    Shows table traits allowed blocks' pos chunk := by
  obtain ⟨column, holds, shows⟩ := h
  refine ⟨column, holds, ?_⟩
  intro p hp hcoords
  rw [same p hp hcoords]
  exact shows p hp hcoords

theorem Shows.read (h : Shows table traits allowed blocks p.chunk chunk) (hp : checkCoords p = true) :
    chunk.blockAt table (chunkRelativePos p).1 (chunkRelativePos p).2.1 (chunkRelativePos p).2.2 =
      some (some (chunk.cellsAt table p)) ∧ (chunk.cellsAt table p).Same (blocks p) ∧
        (chunk.cellsAt table p).Known table := by
  obtain ⟨column, holds, shows⟩ := h
  obtain ⟨hx, hy, hz⟩ := chunkRelativePos_lt hp
  have below : (chunkRelativePos p).2.1 < 272 := by omega
  obtain ⟨-, read, same⟩ := holds.read hx hz below
  exact ⟨read, same.trans (shows p rfl hp), holds.known hx hz below⟩

theorem shows_generated {edits : List ChunkEdit} (few : ∀ i, (allowed pos i).length ≤ 255)
    (known : ∀ i, ∀ block ∈ allowed pos i, block.Known table)
    (uses : ∀ e ∈ edits, ChunkEdit.Uses (allowed pos) False e)
    (hrun : run (Chunk.edit table traits) edits .new = some chunk)
    (cells : ∀ p : BlockPosition, p.chunk = pos → blocks p = chunk.cellsAt table p) :
    Shows table traits allowed blocks pos chunk := by
  obtain ⟨chunk', hrun', holds⟩ : ∃ chunk', run (Chunk.edit table traits) edits .new = some chunk' ∧
      chunk'.Holds table traits (allowed pos) False 0 (ChunkEdit.lastSet edits) :=
    Chunk.holds_run few known uses
  obtain rfl : chunk = chunk' := Option.some.inj (hrun.symm.trans hrun')
  refine ⟨_, holds, ?_⟩
  intro p hp hcoords
  obtain ⟨hx, hy, hz⟩ := chunkRelativePos_lt hcoords
  have same := (holds.read hx hz (by omega : (chunkRelativePos p).2.1 < 272)).2.2
  rw [cells p hp]
  exact same.symm

theorem Shows.setBlockAt (h : Shows table traits allowed blocks p.chunk chunk)
    (few : ∀ i, (allowed p.chunk i).length ≤ 255)
    (known : ∀ i, ∀ block ∈ allowed p.chunk i, block.Known table) (hp : checkCoords p = true)
    (hblock : block = .air ∨ block ∈ allowed p.chunk (Chunk.sectionForY p.y.val.toNat)) :
    ∃ result, chunk.setBlockAt table traits (chunkRelativePos p).1 (chunkRelativePos p).2.1
        (chunkRelativePos p).2.2 block = some result ∧
      Shows table traits allowed (Function.update blocks p block) p.chunk result.1 := by
  obtain ⟨column, holds, shows⟩ := h
  obtain ⟨hx, hy, hz⟩ := chunkRelativePos_lt hp
  have height : (chunkRelativePos p).2.1 = p.y.val.toNat := by rw [chunkRelativePos_eq hp]
  rw [← height] at hblock
  obtain ⟨chunk', hset, holds'⟩ := holds.setBlockAt few known (Nat.zero_le _) hx hz hblock
  refine ⟨_, hset, _, holds', ?_⟩
  intro q hq hcoords
  by_cases here : q = p
  · subst here
    rw [ChunkEdit.apply, Function.update_self, Function.update_self]
    simp [Cells.set, BlockId.Same]
  · rw [Function.update_of_ne here, ChunkEdit.apply]
    by_cases hsection : Chunk.sectionForY (chunkRelativePos q).2.1 = Chunk.sectionForY (chunkRelativePos p).2.1
    · rw [hsection, Function.update_self, Cells.set, if_neg, ← hsection]
      · exact shows q hq hcoords
      · rintro ⟨hx, hmod, hz⟩
        have hy := Chunk.sectionForY_inj hsection hmod
        exact here (eq_of_chunkRelativePos hcoords hp hq (Prod.ext hx (Prod.ext hy hz)))
    · rw [Function.update_of_ne hsection]
      exact shows q hq hcoords

theorem Shows.fillSection (h : Shows table traits allowed blocks pos chunk)
    (few : ∀ i, (allowed pos i).length ≤ 255) (known : ∀ i, ∀ block ∈ allowed pos i, block.Known table)
    {sectionY : Nat} (hblock : block = .air ∨ block ∈ allowed pos (sectionY + 1)) :
    ∃ chunk', chunk.fillSection (sectionY + 1) block = some (chunk', decide (sectionY < 17)) ∧
      Shows table traits allowed ((WorldCall.fillSection pos sectionY block).apply table blocks) pos chunk' := by
  obtain ⟨column, holds, shows⟩ := h
  obtain ⟨chunk', hfill, holds'⟩ := holds.fillSection few known hblock False.elim
  refine ⟨chunk', ?_, _, holds', ?_⟩
  · rw [hfill]
    simp only [NUM_SECTIONS, show sectionY + 1 < 16 + 2 ↔ sectionY < 17 by omega]
  intro p hp hcoords
  have hsection : Chunk.sectionForY (chunkRelativePos p).2.1 = sectionY + 1 ↔ p.y.val / 16 = sectionY := by
    rw [chunkRelativePos_eq hcoords, Chunk.sectionForY]
    rw [checkCoords, decide_eq_true_eq] at hcoords
    simp only [SECTION_HEIGHT]
    omega
  simp only [ChunkEdit.apply, WorldCall.apply]
  by_cases filled : p.y.val / 16 = sectionY
  · rw [hsection.mpr filled, Function.update_self, if_pos ⟨hp, filled⟩]
    exact .inl rfl
  · rw [Function.update_of_ne (mt hsection.mp filled), if_neg fun h => filled h.2]
    exact shows p hp hcoords

/-! ### One call -/

theorem holds_new : Holds table traits allowed new blocks := by
  constructor
  all_goals simp [new]

theorem Holds.chunkAtMut (h : Holds table traits allowed world blocks) (pos : ChunkPosition) :
    (world.chunkAtMut pos = none ∧ world.isChunkLoaded pos = false) ∨
      ∃ chunk, world.chunkAtMut pos = some chunk ∧ world.isChunkLoaded pos = true ∧
        Shows table traits allowed blocks pos chunk := by
  unfold World.chunkAtMut isChunkLoaded
  cases hmap : world.chunkMap pos with
  | none => exact .inl ⟨rfl, rfl⟩
  | some handle =>
    obtain ⟨hloaded, shows⟩ := h.loaded pos handle hmap
    exact .inr ⟨handle.chunk, by simp [ChunkHandle.write, hloaded], rfl, shows⟩

@[simp] theorem isChunkLoaded_put (world : World) (pos pos' : ChunkPosition) (chunk : Chunk) :
    (world.put pos chunk).isChunkLoaded pos' = world.isChunkLoaded pos' := by
  simp only [isChunkLoaded, World.put, Function.update_apply]
  split
  · simp_all
  · rfl

theorem isChunkLoaded_setBlockAt {world' : World} {reply : Bool} (pos : ChunkPosition)
    (h : world.setBlockAt table traits p block = some (world', reply)) :
    world'.isChunkLoaded pos = world.isChunkLoaded pos := by
  unfold World.setBlockAt at h
  split at h
  · dsimp only at h
    split at h
    · cases h
      rfl
    · obtain ⟨result, -, h⟩ := Option.map_eq_some_iff.mp h
      cases h
      simp
  · cases h
    rfl

theorem isChunkLoaded_fillChunkSection {world' : World} {chunkPos : ChunkPosition} {sectionY : Nat}
    {reply : Bool} (pos : ChunkPosition)
    (h : world.fillChunkSection chunkPos sectionY block = some (world', reply)) :
    world'.isChunkLoaded pos = world.isChunkLoaded pos := by
  unfold World.fillChunkSection at h
  split at h
  · cases h
    rfl
  · obtain ⟨result, -, h⟩ := Option.map_eq_some_iff.mp h
    cases h
    simp

theorem Holds.put (h : Holds table traits allowed world blocks) (hloaded : world.isChunkLoaded pos = true)
    (shows : Shows table traits allowed blocks' pos chunk)
    (same : ∀ p : BlockPosition, p.chunk ≠ pos → blocks' p = blocks p) :
    Holds table traits allowed (world.put pos chunk) blocks' := by
  have some_map (pos' : ChunkPosition) : ((world.put pos chunk).chunkMap pos').isSome =
      (world.chunkMap pos').isSome := isChunkLoaded_put world pos pos' chunk
  have other {pos' : ChunkPosition} (hne : pos' ≠ pos) {p : BlockPosition} (hp : p.chunk = pos') :
      blocks' p = blocks p := same p (hp ▸ hne)
  constructor
  · intro pos' handle hmap
    simp only [World.put, Function.update_apply] at hmap
    split at hmap
    · rename_i here
      obtain ⟨handle', hmap', rfl⟩ := Option.map_eq_some_iff.mp hmap
      exact ⟨(h.loaded pos handle' hmap').1, here ▸ shows⟩
    · rename_i hne
      obtain ⟨hloaded', shows'⟩ := h.loaded pos' handle hmap
      exact ⟨hloaded', shows'.congr fun p hp _ => other hne hp⟩
  · intro pos' handle hcache
    refine (h.cached pos' handle hcache).congr fun p hp _ => other ?_ hp
    rintro rfl
    have := (h.uncached pos' (by rw [show world.cache pos' = _ from hcache]; rfl)).1
    simp [isChunkLoaded, this] at hloaded
  · intro pos' hcache
    obtain ⟨hmap, hloading⟩ := h.uncached pos' hcache
    refine ⟨?_, hloading⟩
    rw [← Option.isNone_iff_eq_none, ← Option.not_isSome, some_map, hmap]
    rfl
  · intro pos' hloading
    rw [← Option.isNone_iff_eq_none, ← Option.not_isSome, some_map, h.absent pos' hloading]
    rfl

def accepts (world : World) (p : BlockPosition) : Bool := checkCoords p && world.isChunkLoaded p.chunk

theorem Holds.blockAt (h : Holds table traits allowed world blocks) (p : BlockPosition) :
    ∃ b : BlockId, b.Same (blocks p) ∧ (world.accepts p = true → b.Known table) ∧
      world.blockAt table p = some (if world.accepts p then some b else none) := by
  unfold World.blockAt accepts isChunkLoaded
  by_cases hp : checkCoords p = true
  · cases hmap : world.chunkMap p.chunk with
    | none => exact ⟨blocks p, .inl rfl, by simp, by simp [hp]⟩
    | some handle =>
      obtain ⟨read, same, known⟩ := (h.loaded _ handle hmap).2.read hp
      exact ⟨_, same, fun _ => known, by simpa [hp] using read⟩
  · exact ⟨blocks p, .inl rfl, by simp [hp], by simp [hp]⟩

section Few
variable (few : ∀ pos i, (allowed pos i).length ≤ 255)
  (known : ∀ pos i, ∀ block ∈ allowed pos i, block.Known table)
include few known

theorem Holds.setBlockAt (h : Holds table traits allowed world blocks)
    (hblock : block = .air ∨ block ∈ allowed p.chunk (Chunk.sectionForY p.y.val.toNat)) :
    ∃ world', world.setBlockAt table traits p block = some (world', world.accepts p) ∧
      Holds table traits allowed world'
        (if world.accepts p then Function.update blocks p block else blocks) := by
  unfold World.setBlockAt accepts
  by_cases hp : checkCoords p = true
  · rcases h.chunkAtMut p.chunk with ⟨hmut, hloaded⟩ | ⟨chunk, hmut, hloaded, shows⟩
    · exact ⟨world, by simp [hp, hmut, hloaded], by simpa [hloaded] using h⟩
    · obtain ⟨result, hset, shows'⟩ := shows.setBlockAt (few _) (known _) hp hblock
      refine ⟨world.put p.chunk result.1, by simp [hp, hmut, hloaded, hset], ?_⟩
      rw [hp, hloaded, Bool.and_self, if_pos rfl]
      apply h.put hloaded shows'
      intro q hq
      exact Function.update_of_ne (fun here => hq (congrArg BlockPosition.chunk here)) _ _
  · exact ⟨world, by simp [hp], by simpa [hp] using h⟩

theorem Holds.fillChunkSection (h : Holds table traits allowed world blocks) {sectionY : Nat}
    (hblock : block = .air ∨ block ∈ allowed pos (sectionY + 1)) :
    ∃ world', world.fillChunkSection pos sectionY block =
        some (world', world.isChunkLoaded pos && decide (sectionY < 17)) ∧
      Holds table traits allowed world' (if world.isChunkLoaded pos && decide (sectionY < 17)
        then (WorldCall.fillSection pos sectionY block).apply table blocks else blocks) := by
  unfold World.fillChunkSection
  rcases h.chunkAtMut pos with ⟨hmut, hloaded⟩ | ⟨chunk, hmut, hloaded, shows⟩
  · exact ⟨world, by rw [hmut, hloaded]; rfl, by simpa [hloaded] using h⟩
  · obtain ⟨chunk', hfill, shows'⟩ := shows.fillSection (few pos) (known pos) hblock
    refine ⟨world.put pos chunk', by simp [hmut, hfill, hloaded], ?_⟩
    rw [hloaded, Bool.true_and]
    by_cases within : sectionY < 17
    · rw [decide_eq_true within, if_pos rfl]
      apply h.put hloaded shows'
      intro p hp
      exact if_neg fun filled => hp filled.1
    · rw [decide_eq_false within, if_neg Bool.false_ne_true]
      apply h.put hloaded _ fun p _ => rfl
      apply shows'.congr
      intro p hp hcoords
      rw [checkCoords, decide_eq_true_eq, CHUNK_HEIGHT] at hcoords
      simp only [WorldCall.apply]
      rw [if_neg (by omega)]

theorem Holds.loadChunk (h : Holds table traits allowed world blocks)
    (hloading : world.isChunkLoading pos = true)
    (generated : (WorldCall.load pos chunk).Uses table traits allowed) :
    Holds table traits allowed (world.loadChunk pos chunk).1
      (if (world.loadChunk pos chunk).2 then (WorldCall.load pos chunk).apply table blocks
        else blocks) := by
  obtain ⟨edits, uses, hrun⟩ := generated
  have absent := h.absent pos hloading
  have uncached : world.cache pos = none := by
    cases hcache : world.cache pos with
    | none => rfl
    | some handle =>
      have := (h.uncached pos (by rw [hcache]; rfl)).2
      exact absurd hloading (by rw [isChunkLoading, this]; decide)
  unfold World.loadChunk
  by_cases hcanceled : world.canceledChunkLoads pos = true
  · rw [if_pos hcanceled]
    constructor
    · exact h.loaded
    · exact h.cached
    · intro pos' hcached
      refine ⟨(h.uncached pos' hcached).1, ?_⟩
      simp only [Function.update_apply]
      split
      · rfl
      · exact (h.uncached pos' hcached).2
    · intro pos' hloading'
      simp only [Function.update_apply] at hloading'
      split at hloading'
      · cases hloading'
      · exact h.absent pos' hloading'
  · rw [if_neg hcanceled]
    constructor
    · intro pos' handle hmap
      simp only [Function.update_apply] at hmap
      split at hmap
      · rename_i here
        subst here
        obtain rfl := Option.some.inj hmap
        exact ⟨rfl, shows_generated (few _) (known _) uses hrun fun p hp => if_pos hp⟩
      · rename_i hne
        obtain ⟨hloaded, shows⟩ := h.loaded pos' handle hmap
        refine ⟨hloaded, shows.congr ?_⟩
        rintro p rfl -
        exact if_neg hne
    · intro pos' handle hcache
      apply (h.cached pos' handle hcache).congr
      rintro p rfl -
      apply if_neg
      rintro rfl
      rw [show world.cache p.chunk = _ from hcache] at uncached
      cases uncached
    · intro pos' hcached
      have hne : pos' ≠ pos := by
        rintro rfl
        simp [uncached] at hcached
      simpa only [Function.update_of_ne hne] using h.uncached pos' hcached
    · intro pos' hloading'
      simp only [Function.update_apply] at hloading'
      split at hloading'
      · cases hloading'
      · rename_i hne
        simpa only [Function.update_of_ne hne] using h.absent pos' hloading'

end Few

theorem Holds.queueChunkLoad (h : Holds table traits allowed world blocks)
    (hloaded : world.isChunkLoaded pos = false) :
    Holds table traits allowed (world.queueChunkLoad pos).1 blocks := by
  have absent : world.chunkMap pos = none := by simpa [isChunkLoaded] using hloaded
  unfold World.queueChunkLoad
  cases hcache : world.cache pos with
  | some handle =>
    have idle := (h.uncached pos (by rw [hcache]; rfl)).2
    constructor
    · intro pos' handle' hmap
      simp only [Function.update_apply] at hmap
      split at hmap
      · rename_i here
        obtain rfl := Option.some.inj hmap
        exact ⟨rfl, here ▸ h.cached pos handle hcache⟩
      · exact h.loaded pos' handle' hmap
    · intro pos' handle' hcache'
      simp only [Function.update_apply, Option.ite_none_left_eq_some] at hcache'
      exact h.cached pos' handle' hcache'.2
    · intro pos' hcached
      by_cases here : pos' = pos
      · subst here
        simp at hcached
      · simp only [Function.update_of_ne here] at hcached ⊢
        exact h.uncached pos' hcached
    · intro pos' hloading
      have hne : pos' ≠ pos := by
        rintro rfl
        simp [idle] at hloading
      simpa only [Function.update_of_ne hne] using h.absent pos' hloading
  | none =>
    constructor
    · exact h.loaded
    · exact h.cached
    · intro pos' hcached
      have hne : pos' ≠ pos := by
        rintro rfl
        simp [hcache] at hcached
      simpa only [Function.update_of_ne hne] using h.uncached pos' hcached
    · intro pos' hloading
      by_cases here : pos' = pos
      · exact here ▸ absent
      · simp only [Function.update_of_ne here] at hloading
        exact h.absent pos' hloading

theorem Holds.unloadChunk (h : Holds table traits allowed world blocks) (pos : ChunkPosition) :
    Holds table traits allowed (world.unloadChunk pos).1 blocks := by
  unfold World.unloadChunk
  cases hmap : world.chunkMap pos with
  | some handle =>
    have idle : world.loadingChunks pos = false := by
      cases hloading : world.loadingChunks pos with
      | false => rfl
      | true =>
        rw [h.absent pos hloading] at hmap
        cases hmap
    constructor
    · intro pos' handle' hmap'
      simp only [Function.update_apply, Option.ite_none_left_eq_some] at hmap'
      exact h.loaded pos' handle' hmap'.2
    · intro pos' handle' hcache
      simp only [Function.update_apply] at hcache
      split at hcache
      · rename_i here
        obtain rfl := Option.some.inj hcache
        exact here ▸ (h.loaded pos handle hmap).2
      · exact h.cached pos' handle' hcache
    · intro pos' hcached
      by_cases here : pos' = pos
      · subst here
        exact ⟨Function.update_self .., idle⟩
      · simp only [Function.update_of_ne here] at hcached ⊢
        exact h.uncached pos' hcached
    · intro pos' hloading
      simp only [Function.update_apply]
      split
      · rfl
      · exact h.absent pos' hloading
  | none => exact ⟨h.loaded, h.cached, h.uncached, h.absent⟩

theorem Holds.purgeUnused (h : Holds table traits allowed world blocks) (inUse : ChunkPosition → Bool) :
    Holds table traits allowed (world.purgeUnused inUse) blocks := by
  refine ⟨h.loaded, ?_, ?_, h.absent⟩
  · intro pos' handle hcache
    simp only [World.purgeUnused, Option.ite_none_right_eq_some] at hcache
    exact h.cached pos' handle hcache.2
  · intro pos' hcached
    apply h.uncached
    simp only [World.purgeUnused] at hcached
    split at hcached
    · exact hcached
    · cases hcached

section Few
variable (few : ∀ pos i, (allowed pos i).length ≤ 255)
  (known : ∀ pos i, ∀ block ∈ allowed pos i, block.Known table)
include few known

theorem Holds.call (h : Holds table traits allowed world blocks) {c : WorldCall}
    (hc : c.Uses table traits allowed) :
    ∃ world' reply, world.call table traits c = some (world', reply) ∧
      Holds table traits allowed world' (if reply then c.apply table blocks else blocks) := by
  cases c with
  | setBlock p block =>
    obtain ⟨world', hset, h'⟩ := h.setBlockAt few known hc
    exact ⟨world', _, hset, h'⟩
  | fillSection pos sectionY block =>
    obtain ⟨world', hfill, h'⟩ := h.fillChunkSection few known hc
    exact ⟨world', _, hfill, h'⟩
  | request pos =>
    by_cases present : (world.isChunkLoaded pos || world.isChunkLoading pos) = true
    · exact ⟨world, false, by rw [World.call, if_pos present], h⟩
    · refine ⟨_, _, by rw [World.call, if_neg present], ?_⟩
      simp only [WorldCall.apply, ite_self]
      rw [Bool.or_eq_true, not_or, Bool.not_eq_true] at present
      exact h.queueChunkLoad present.1
  | load pos chunk =>
    by_cases hloading : world.isChunkLoading pos = true
    · exact ⟨_, _, by rw [World.call, if_pos hloading], h.loadChunk few known hloading hc⟩
    · exact ⟨world, false, by rw [World.call, if_neg hloading], h⟩
  | unload pos =>
    refine ⟨_, _, rfl, ?_⟩
    simp only [WorldCall.apply, ite_self]
    exact h.unloadChunk pos
  | purge inUse =>
    refine ⟨_, _, rfl, ?_⟩
    exact h.purgeUnused inUse

theorem holds_run {calls : List WorldCall} (uses : ∀ c ∈ calls, c.Uses table traits allowed) :
    ∃ world log, run (logged table traits) calls (new, []) = some (world, log) ∧
      Holds table traits allowed world (WorldCall.lastSet table log) := by
  induction calls using List.reverseRecOn with
  | nil => exact ⟨new, [], rfl, holds_new⟩
  | append_singleton calls c ih =>
    obtain ⟨world, log, hrun, h⟩ := ih fun c hc => uses c (List.mem_append_left _ hc)
    obtain ⟨world', reply, hcall, h'⟩ := h.call few known (uses c (by simp))
    refine ⟨world', log ++ [(c, reply)], ?_, ?_⟩
    · apply (run_concat_eq_some _).mpr
      exact ⟨(world, log), hrun, by rw [logged, hcall]; rfl⟩
    · rw [WorldCall.lastSet, List.foldl_append]
      exact h'

end Few

section Main
variable (table : VanillaIdTable) (traits : BlockTraits) (allowed : ChunkPosition → Nat → List BlockId)

/-- In every run of sets, fills, loads, unloads and purges no call panics, and every block of a
loaded chunk reads as the one set last there, up to the kinds of air, also where its chunk was
unloaded and asked for again; the other positions read nothing and reply `false` to a set. -/
theorem world_is_last_set (few : ∀ pos i, (allowed pos i).length ≤ 255)
    (known : ∀ pos i, ∀ block ∈ allowed pos i, block.Known table) (calls : List WorldCall)
    (uses : ∀ c ∈ calls, c.Uses table traits allowed) :
    ∃ world log, run (logged table traits) calls (new, []) = some (world, log) ∧
      (∀ p, ∃ b : BlockId, b.Same (WorldCall.lastSet table log p) ∧
        world.blockAt table p = some (if world.accepts p then some b else none)) ∧
      ∀ p block, WorldCall.Uses table traits allowed (.setBlock p block) →
        ∃ world', world.setBlockAt table traits p block = some (world', world.accepts p) := by
  obtain ⟨world, log, hrun, h⟩ := holds_run few known uses
  refine ⟨world, log, hrun, ?_, ?_⟩
  · intro p
    obtain ⟨b, same, -, read⟩ := h.blockAt p
    exact ⟨b, same, read⟩
  intro p block hblock
  obtain ⟨world', hset, -⟩ := h.setBlockAt few known hblock
  exact ⟨world', hset⟩

/-- A block west of the origin, whose chunk goes to the cache and back. -/
theorem world_is_last_set_stone :
    ∃ world log, run (logged .inOrder .solidGround)
        [.request ⟨⟨-1, by decide, by decide⟩, 0⟩, .load ⟨⟨-1, by decide, by decide⟩, 0⟩ .new,
          .setBlock ⟨⟨-3, by decide, by decide⟩, ⟨70, by decide, by decide⟩, 0⟩ ⟨.stone, 0⟩,
          .unload ⟨⟨-1, by decide, by decide⟩, 0⟩, .request ⟨⟨-1, by decide, by decide⟩, 0⟩]
        (new, []) = some (world, log) ∧
      ∀ p, ∃ b : BlockId, b.Same (WorldCall.lastSet .inOrder log p) ∧
        world.blockAt .inOrder p = some (if world.accepts p then some b else none) := by
  obtain ⟨world, log, hrun, hreads, -⟩ := world_is_last_set .inOrder .solidGround
    (fun _ _ => [⟨.stone, 0⟩]) (fun _ _ => by decide) (fun _ _ => by simp [BlockId.known_stone])
    [.request ⟨⟨-1, by decide, by decide⟩, 0⟩, .load ⟨⟨-1, by decide, by decide⟩, 0⟩ .new,
      .setBlock ⟨⟨-3, by decide, by decide⟩, ⟨70, by decide, by decide⟩, 0⟩ ⟨.stone, 0⟩,
      .unload ⟨⟨-1, by decide, by decide⟩, 0⟩, .request ⟨⟨-1, by decide, by decide⟩, 0⟩]
    (by
      simp only [List.forall_mem_cons, List.not_mem_nil, false_implies, implies_true, and_true]
      exact ⟨trivial, WorldCall.uses_load_new .., .inr (List.mem_singleton_self _), trivial, trivial⟩)
  exact ⟨world, log, hrun, hreads⟩

end Main
end World
end FpgaCraft.Server
