import FpgaCraft.Server.ChunkTickets
import FpgaCraft.Server.View
import FpgaCraft.Server.WorldEdits

/-! The systems that load and unload chunks for players (`feather/common/src/chunk/loading.rs`). -/
namespace FpgaCraft.Server
open Library

/-- The seconds after which a chunk without tickets is unloaded. -/
abbrev UNLOAD_DELAY : Nat := 10

structure QueuedChunkUnload where
  pos : ChunkPosition
  unloadAtTime : Nat

/-- The world with the log of what was done to it, and the state of the systems. -/
structure ChunkLoading (Entity : Type) where
  world : World
  log : List (WorldCall × Bool)
  chunkTickets : ChunkTickets Entity
  chunkUnloadQueue : List QueuedChunkUnload

/-- The systems in any order, each with the time it runs at and the events it sees. -/
inductive LoadingEvent (Entity : Type) where
  | removeDeadEntities (now : Nat) (dead : List Entity)
  | updateTicketsForPlayers (now : Nat) (updates : List (Entity × ViewUpdateEvent))
  | unloadChunks (now : Nat) (inUse : ChunkPosition → Bool)
  | loadChunks (answers : List (ChunkPosition × Chunk))

def LoadingEvent.time {Entity : Type} : LoadingEvent Entity → Nat
  | .removeDeadEntities now _ | .updateTicketsForPlayers now _ | .unloadChunks now _ => now
  | .loadChunks _ => 0

namespace ChunkLoading
variable {Entity : Type} [DecidableEq Entity] (table : VanillaIdTable) (traits : BlockTraits)

def new : ChunkLoading Entity := ⟨.new, [], .new, []⟩

def call (c : WorldCall) (self : ChunkLoading Entity) : Option (ChunkLoading Entity) :=
  (World.logged table traits c (self.world, self.log)).map fun result =>
    { self with world := result.1, log := result.2 }

def removeTicket (now : Nat) (ticket : Entity) (chunk : ChunkPosition) (self : ChunkLoading Entity) :
    Option (ChunkLoading Entity) :=
  (self.chunkTickets.removeTicket chunk ticket).map fun chunkTickets =>
    if chunkTickets.numTickets chunk = 0 then
      { self with
        chunkTickets := chunkTickets.removeChunk chunk
        chunkUnloadQueue := self.chunkUnloadQueue ++ [⟨chunk, now + UNLOAD_DELAY⟩] }
    else { self with chunkTickets := chunkTickets }

def removeDeadEntity (now : Nat) (ticket : Entity) (self : ChunkLoading Entity) :
    Option (ChunkLoading Entity) :=
  let (chunkTickets, chunks) := self.chunkTickets.takeEntityTickets ticket
  run (removeTicket now ticket) chunks { self with chunkTickets := chunkTickets }

def addTicket (ticket : Entity) (chunk : ChunkPosition) (self : ChunkLoading Entity) :
    Option (ChunkLoading Entity) :=
  call table traits (.request chunk)
    { self with chunkTickets := self.chunkTickets.insertTicket chunk ticket }

def updateTickets (now : Nat) (update : Entity × ViewUpdateEvent) (self : ChunkLoading Entity) :
    Option (ChunkLoading Entity) :=
  (run (removeTicket now update.1) update.2.oldChunks self).bind
    (run (addTicket table traits update.1) update.2.newChunks)

/-- Unloads the chunks at the front of the queue that are due, except those with new tickets. -/
def unloadDue (now : Nat) : List QueuedChunkUnload → ChunkLoading Entity → Option (ChunkLoading Entity)
  | [], self => some { self with chunkUnloadQueue := [] }
  | unload :: queue, self =>
    if now < unload.unloadAtTime then some { self with chunkUnloadQueue := unload :: queue }
    else if 0 < self.chunkTickets.numTickets unload.pos then unloadDue now queue self
    else (call table traits (.unload unload.pos) self).bind (unloadDue now queue)

def receive (answer : ChunkPosition × Chunk) (self : ChunkLoading Entity) : Option (ChunkLoading Entity) :=
  if self.world.isChunkLoading answer.1 then call table traits (.load answer.1 answer.2) self
  else some self

def step : LoadingEvent Entity → ChunkLoading Entity → Option (ChunkLoading Entity)
  | .removeDeadEntities now dead, self => run (removeDeadEntity now) dead self
  | .updateTicketsForPlayers now updates, self => run (updateTickets table traits now) updates self
  | .unloadChunks now inUse, self =>
    (unloadDue table traits now self.chunkUnloadQueue self).bind (call table traits (.purge inUse))
  | .loadChunks answers, self => run (receive table traits) answers self

end ChunkLoading

/-- The views of the players after an event, if the event is one that their systems give: each view
update starts from the view that the player had, and the dead see nothing. -/
def LoadingEvent.views {Entity : Type} [DecidableEq Entity] (profile : Software.Profile) :
    LoadingEvent Entity → (Entity → View) → Option (Entity → View)
  | .removeDeadEntities _ dead, views => some fun e => if e ∈ dead then .empty else views e
  | .updateTicketsForPlayers _ updates, views =>
    run (fun update views =>
      if update.2.isNew profile (views update.1) then
        some (Function.update views update.1 update.2.newView)
      else none) updates views
  | _, views => some views

/-! ### What the world keeps of a chunk -/

/-- Whether a chunk is loaded, is being loaded, and is to be dropped when it comes. -/
structure World.Status where
  loaded : Bool
  loading : Bool
  canceled : Bool

namespace World
variable {table : VanillaIdTable} {traits : BlockTraits} {world world' : World} {pos other : ChunkPosition}
  {chunk : Chunk} {reply : Bool}

def status (world : World) (pos : ChunkPosition) : Status :=
  ⟨world.isChunkLoaded pos, world.isChunkLoading pos, world.canceledChunkLoads pos⟩

theorem status_request (h : world.call table traits (.request pos) = some (world', reply)) :
    (world'.status pos = if (world.status pos).loaded || (world.status pos).loading then world.status pos
        else if (world.cache pos).isSome then ⟨true, false, (world.status pos).canceled⟩
        else ⟨false, true, (world.status pos).canceled⟩) ∧
      ∀ other, other ≠ pos → world'.status other = world.status other := by
  rw [World.call] at h
  split at h
  · rename_i present
    cases h
    exact ⟨(if_pos present).symm, fun _ _ => rfl⟩
  · rename_i absent
    have idle : world.isChunkLoaded pos = false ∧ world.isChunkLoading pos = false := by
      simpa using absent
    obtain ⟨hloaded, hloading⟩ := idle
    obtain rfl : (world.queueChunkLoad pos).1 = world' := congrArg Prod.fst (Option.some.inj h)
    unfold World.queueChunkLoad
    cases hcache : world.cache pos with
    | some handle =>
      constructor
      · simp_all [status, isChunkLoaded, isChunkLoading]
      · intro other hne
        simp [status, isChunkLoaded, isChunkLoading, hne]
    | none =>
      constructor
      · simp_all [status, isChunkLoaded, isChunkLoading]
      · intro other hne
        simp [status, isChunkLoaded, isChunkLoading, hne]

theorem status_load (h : world.call table traits (.load pos chunk) = some (world', reply))
    (hloading : world.isChunkLoading pos = true) :
    reply = !(world.status pos).canceled ∧
      world'.status pos = (if (world.status pos).canceled then ⟨(world.status pos).loaded, false, false⟩
        else ⟨true, false, false⟩) ∧
      ∀ other, other ≠ pos → world'.status other = world.status other := by
  rw [World.call, if_pos hloading, Option.some.injEq] at h
  obtain rfl : (world.loadChunk pos chunk).1 = world' := congrArg Prod.fst h
  obtain rfl : (world.loadChunk pos chunk).2 = reply := congrArg Prod.snd h
  unfold World.loadChunk
  by_cases hcanceled : world.canceledChunkLoads pos = true
  · rw [if_pos hcanceled]
    refine ⟨by simp [status, hcanceled], by simp [status, hcanceled, isChunkLoaded, isChunkLoading], ?_⟩
    intro other hne
    simp [status, isChunkLoaded, isChunkLoading, hne]
  · rw [if_neg hcanceled]
    refine ⟨by simp [status, hcanceled], by simp [status, hcanceled, isChunkLoaded, isChunkLoading], ?_⟩
    intro other hne
    simp [status, isChunkLoaded, isChunkLoading, hne]

theorem status_unload (h : world.call table traits (.unload pos) = some (world', reply)) :
    world'.status pos = ⟨false, (world.status pos).loading,
        (world.status pos).canceled || (world.status pos).loading⟩ ∧
      ∀ other, other ≠ pos → world'.status other = world.status other := by
  obtain rfl : (world.unloadChunk pos).1 = world' := congrArg Prod.fst (Option.some.inj h)
  unfold World.unloadChunk
  constructor
  · cases hmap : world.chunkMap pos with
    | some handle => by_cases hloading : world.loadingChunks pos = true <;>
        simp [status, isChunkLoaded, isChunkLoading, hloading]
    | none => by_cases hloading : world.loadingChunks pos = true <;>
        simp [status, isChunkLoaded, isChunkLoading, hmap, hloading]
  · intro other hne
    cases hmap : world.chunkMap pos with
    | some handle => by_cases hloading : world.loadingChunks pos = true <;>
        simp [status, isChunkLoaded, isChunkLoading, hne, hloading]
    | none => by_cases hloading : world.loadingChunks pos = true <;>
        simp [status, isChunkLoaded, isChunkLoading, hne, hloading]

theorem status_purge {inUse : ChunkPosition → Bool}
    (h : world.call table traits (.purge inUse) = some (world', reply)) (other : ChunkPosition) :
    world'.status other = world.status other := by
  cases h
  rfl

end World
end FpgaCraft.Server
