import FpgaCraft.Server.ChunkLoading

/-! ## Which chunks stay in memory

Over every run of the loading systems: the tickets against the views of the players, and the chunks
that are loaded against the tickets. -/
namespace FpgaCraft.Server
open Library

def WorldCall.concerns (pos : ChunkPosition) : WorldCall → Bool
  | .request pos' | .load pos' _ | .unload pos' => pos' = pos
  | _ => false

def lastEntry (log : List (WorldCall × Bool)) (pos : ChunkPosition) : Option (WorldCall × Bool) :=
  (log.filter fun entry => entry.1.concerns pos).getLast?

def Dropped (log : List (WorldCall × Bool)) (pos : ChunkPosition) : Prop :=
  ∃ chunk, lastEntry log pos = some (.load pos chunk, false)

theorem lastEntry_append (log : List (WorldCall × Bool)) (entry : WorldCall × Bool) (pos : ChunkPosition) :
    lastEntry (log ++ [entry]) pos = if entry.1.concerns pos then some entry else lastEntry log pos := by
  unfold lastEntry
  split
  · rename_i here
    simp [List.filter_append, here]
  · rename_i other
    simp [List.filter_append, other]

namespace ChunkLoading
variable {Entity : Type} [DecidableEq Entity] {table : VanillaIdTable} {traits : BlockTraits}
  {self self' : ChunkLoading Entity} {pos : ChunkPosition} {ticket entity : Entity} {now limit : Nat}

def status (self : ChunkLoading Entity) (pos : ChunkPosition) : World.Status := self.world.status pos

/-- A chunk with tickets is there or on its way, unless its last answer was dropped. -/
def Kept (status : World.Status) (log : List (WorldCall × Bool)) (pos : ChunkPosition) : Prop :=
  ((status.loaded = true ∨ status.loading = true) ↔ ¬Dropped log pos) ∧
    ∀ reply, lastEntry log pos ≠ some (.unload pos, reply)

def Ledger (self : ChunkLoading Entity) : Prop :=
  ∀ pos ticket, self.chunkTickets.held pos ticket = self.chunkTickets.listed ticket pos

/-- A chunk that nothing keeps is queued for unloading, one with tickets is kept. -/
structure TrackedAt (s : ChunkLoading Entity) (pos : ChunkPosition) : Prop where
  queued : s.chunkTickets.numTickets pos = 0 →
    (s.status pos).loaded = true ∨ (s.status pos).loading = true ∧ (s.status pos).canceled = false →
      ∃ unload ∈ s.chunkUnloadQueue, unload.pos = pos
  canceled : (s.status pos).canceled = true → (s.status pos).loading = true
  apart : (s.status pos).loaded = false ∨ (s.status pos).loading = false
  kept : 0 < s.chunkTickets.numTickets pos → Kept (s.status pos) s.log pos

/-- What holds between the systems; by `limit` all that is queued is due. -/
structure Tracked (limit : Nat) (s : ChunkLoading Entity) : Prop where
  chunks : ∀ pos, s.TrackedAt pos
  due : ∀ unload ∈ s.chunkUnloadQueue, unload.unloadAtTime ≤ limit

omit [DecidableEq Entity] in
theorem tracked_new : Tracked limit (new : ChunkLoading Entity) := by
  refine ⟨fun pos => ?_, ?_⟩
  · constructor
    all_goals simp [new, status, World.status, World.isChunkLoaded, World.isChunkLoading, World.new,
      ChunkTickets.new, ChunkTickets.numTickets]
  · simp [new]

omit [DecidableEq Entity] in
theorem call_eq_some {c : WorldCall} : call table traits c self = some self' ↔
    ∃ world' reply, self.world.call table traits c = some (world', reply) ∧
      self' = { self with world := world', log := self.log ++ [(c, reply)] } := by
  unfold call World.logged
  constructor
  · intro h
    simp only [Option.map_map, Option.map_eq_some_iff, Function.comp_apply] at h
    obtain ⟨result, hcall, rfl⟩ := h
    exact ⟨_, _, hcall, rfl⟩
  · rintro ⟨world', reply, hcall, rfl⟩
    rw [hcall]
    rfl

/-! ### Removing tickets -/

/-- What removing an entity's tickets for some chunks does. -/
structure Removed (now : Nat) (ticket : Entity) (chunks : List ChunkPosition)
    (s s' : ChunkLoading Entity) : Prop where
  world : s'.world = s.world
  log : s'.log = s.log
  held : ∀ pos entity, s'.chunkTickets.held pos entity =
    s.chunkTickets.held pos entity - if ticket = entity then chunks.count pos else 0
  listed : ∀ entity pos, s'.chunkTickets.listed entity pos =
    s.chunkTickets.listed entity pos - if ticket = entity then chunks.count pos else 0
  known : ∀ entity, (s'.chunkTickets.byEntity entity).isSome = (s.chunkTickets.byEntity entity).isSome
  queue : s.chunkUnloadQueue <+: s'.chunkUnloadQueue
  due : ∀ unload ∈ s'.chunkUnloadQueue, unload ∈ s.chunkUnloadQueue ∨
    unload.unloadAtTime = now + UNLOAD_DELAY
  queued : ∀ pos, s'.chunkTickets.numTickets pos = 0 → s.chunkTickets.numTickets pos = 0 ∨
    ∃ unload ∈ s'.chunkUnloadQueue, unload.pos = pos

theorem removed_removeTicket (h : removeTicket now ticket pos self = some self') :
    Removed now ticket [pos] self self' := by
  obtain ⟨tickets, hremove, heq⟩ := Option.map_eq_some_iff.mp h
  have held (other entity) : tickets.held other entity =
      self.chunkTickets.held other entity - if ticket = entity then [pos].count other else 0 := by
    rw [ChunkTickets.held_removeTicket hremove, List.count_singleton]
    by_cases here : pos = other <;> by_cases mine : ticket = entity <;> simp [here, mine]
  have listed (entity other) : tickets.listed entity other =
      self.chunkTickets.listed entity other - if ticket = entity then [pos].count other else 0 := by
    rw [ChunkTickets.listed_removeTicket hremove, List.count_singleton]
    by_cases here : pos = other <;> by_cases mine : ticket = entity <;> simp [here, mine]
  have known := ChunkTickets.byEntity_removeTicket hremove
  split at heq
  · rename_i last
    subst heq
    refine ⟨rfl, rfl, ?_, listed, known, List.prefix_append .., ?_, ?_⟩
    · intro other entity
      rw [ChunkTickets.held_removeChunk last]
      exact held other entity
    · intro unload hunload
      rcases List.mem_append.mp hunload with old | fresh
      · exact .inl old
      · rw [List.mem_singleton.mp fresh]
        exact .inr rfl
    · intro other hzero
      by_cases here : pos = other
      · exact .inr ⟨_, List.mem_append_right _ (List.mem_singleton_self _), here⟩
      · left
        rw [ChunkTickets.numTickets_eq_zero] at hzero ⊢
        intro entity
        have := hzero entity
        rw [ChunkTickets.held_removeChunk last, held] at this
        simpa [here] using this
  · rename_i more
    subst heq
    refine ⟨rfl, rfl, held, listed, known, List.prefix_refl _, fun _ h => .inl h, ?_⟩
    intro other hzero
    by_cases here : pos = other
    · exact absurd (here ▸ hzero) more
    · left
      rw [ChunkTickets.numTickets_eq_zero] at hzero ⊢
      intro entity
      simpa [held, here] using hzero entity

theorem Removed.trans {mid : ChunkLoading Entity} {chunks : List ChunkPosition}
    (h : Removed now ticket [pos] self mid) (h' : Removed now ticket chunks mid self') :
    Removed now ticket (pos :: chunks) self self' := by
  have counts (other : ChunkPosition) : (pos :: chunks).count other = [pos].count other + chunks.count other :=
    by rw [← List.count_append, List.singleton_append]
  refine ⟨h'.world.trans h.world, h'.log.trans h.log, ?_, ?_, ?_, h.queue.trans h'.queue, ?_, ?_⟩
  · intro other entity
    rw [h'.held, h.held, counts]
    split
    · omega
    · rfl
  · intro entity other
    rw [h'.listed, h.listed, counts]
    split
    · omega
    · rfl
  · intro entity
    rw [h'.known, h.known]
  · intro unload hunload
    exact (h'.due unload hunload).elim (h.due unload) .inr
  · intro other hzero
    rcases h'.queued other hzero with hzero | queued
    · rcases h.queued other hzero with hzero | ⟨unload, hunload, heq⟩
      · exact .inl hzero
      · exact .inr ⟨unload, h'.queue.subset hunload, heq⟩
    · exact .inr queued

theorem exists_removed (now : Nat) (ticket : Entity) (chunks : List ChunkPosition)
    (self : ChunkLoading Entity) (known : chunks ≠ [] → (self.chunkTickets.byEntity ticket).isSome = true) :
    ∃ self', run (removeTicket now ticket) chunks self = some self' ∧
      Removed now ticket chunks self self' := by
  induction chunks generalizing self with
  | nil =>
    refine ⟨self, rfl, rfl, rfl, ?_, ?_, fun _ => rfl, List.prefix_refl _, fun _ => .inl, fun _ => .inl⟩
    all_goals simp
  | cons pos chunks ih =>
    obtain ⟨mid, hmid⟩ : ∃ mid, removeTicket now ticket pos self = some mid := by
      obtain ⟨listed, hlisted⟩ := Option.isSome_iff_exists.mp (known (List.cons_ne_nil _ _))
      exact ⟨_, by rw [removeTicket, ChunkTickets.removeTicket, hlisted]; rfl⟩
    have removed := removed_removeTicket hmid
    obtain ⟨self', hrun, removed'⟩ := ih mid fun _ => by
      rw [removed.known]
      exact known (List.cons_ne_nil _ _)
    exact ⟨self', (run_cons_eq_some _).mpr ⟨mid, hmid, hrun⟩, removed.trans removed'⟩

theorem Ledger.removed {chunks : List ChunkPosition} (h : Ledger self)
    (r : Removed now ticket chunks self self') : Ledger self' := by
  intro pos entity
  rw [r.held, r.listed, h]

theorem TrackedAt.removed {chunks : List ChunkPosition} (h : self.TrackedAt pos)
    (r : Removed now ticket chunks self self') : self'.TrackedAt pos := by
  have same : self'.status pos = self.status pos := by rw [status, r.world, status]
  refine ⟨?_, ?_, ?_, ?_⟩
  · intro hzero present
    rw [same] at present
    rcases r.queued pos hzero with hzero | queued
    · obtain ⟨unload, hunload, heq⟩ := h.queued hzero present
      exact ⟨unload, r.queue.subset hunload, heq⟩
    · exact queued
  · rw [same]
    exact h.canceled
  · rw [same]
    exact h.apart
  · intro hpos
    rw [same, r.log]
    apply h.kept
    by_contra hzero
    have none_held := ChunkTickets.numTickets_eq_zero.mp (Nat.eq_zero_of_not_pos hzero)
    have : self'.chunkTickets.numTickets pos = 0 := by
      rw [ChunkTickets.numTickets_eq_zero]
      intro entity
      rw [r.held, none_held, Nat.zero_sub]
    omega

theorem Tracked.removed {chunks : List ChunkPosition} (h : Tracked limit self)
    (r : Removed now ticket chunks self self') (hnow : now + UNLOAD_DELAY ≤ limit) : Tracked limit self' := by
  refine ⟨fun pos => (h.chunks pos).removed r, ?_⟩
  intro unload hunload
  rcases r.due unload hunload with old | fresh
  · exact h.due unload old
  · omega

theorem exists_removeDeadEntity (ledger : Ledger self) (h : Tracked limit self) (hnow : now + UNLOAD_DELAY ≤ limit)
    (ticket : Entity) :
    ∃ self', removeDeadEntity now ticket self = some self' ∧ Ledger self' ∧ Tracked limit self' ∧
      (∀ entity pos, self'.chunkTickets.listed entity pos =
        if ticket = entity then 0 else self.chunkTickets.listed entity pos) ∧
      ∀ entity, (self'.chunkTickets.byEntity entity).isSome = (self.chunkTickets.byEntity entity).isSome := by
  let chunks := (self.chunkTickets.byEntity ticket).getD []
  let taken : ChunkLoading Entity :=
    { self with chunkTickets := (self.chunkTickets.takeEntityTickets ticket).1 }
  have known (entity : Entity) : (taken.chunkTickets.byEntity entity).isSome =
      (self.chunkTickets.byEntity entity).isSome := by
    by_cases mine : entity = ticket
    · subst mine
      simp [taken, ChunkTickets.takeEntityTickets]
    · simp [taken, ChunkTickets.takeEntityTickets, mine]
  have listed (entity : Entity) (pos : ChunkPosition) : taken.chunkTickets.listed entity pos =
      if ticket = entity then 0 else self.chunkTickets.listed entity pos := by
    by_cases mine : ticket = entity
    · subst mine
      cases hby : self.chunkTickets.byEntity ticket <;>
        simp [taken, ChunkTickets.takeEntityTickets, ChunkTickets.listed, hby]
    · simp [taken, ChunkTickets.takeEntityTickets, ChunkTickets.listed, mine, Ne.symm mine]
  obtain ⟨self', hrun, r⟩ := exists_removed now ticket chunks taken (by
    intro hne
    rw [known]
    cases hby : self.chunkTickets.byEntity ticket with
    | none => exact absurd (by simp [chunks, hby]) hne
    | some _ => rfl)
  have tracked : Tracked limit taken :=
    ⟨fun pos => ⟨(h.chunks pos).queued, (h.chunks pos).canceled, (h.chunks pos).apart,
      (h.chunks pos).kept⟩, h.due⟩
  have listed' (entity : Entity) (pos : ChunkPosition) : self'.chunkTickets.listed entity pos =
      if ticket = entity then 0 else self.chunkTickets.listed entity pos := by
    rw [r.listed, listed]
    split
    · exact Nat.zero_sub _
    · exact Nat.sub_zero _
  refine ⟨self', hrun, ?_, tracked.removed r hnow, listed', fun entity => (r.known entity).trans (known entity)⟩
  intro pos entity
  rw [listed', r.held]
  by_cases mine : ticket = entity
  · subst mine
    have all : self.chunkTickets.held pos ticket = chunks.count pos := ledger pos ticket
    rw [if_pos rfl, if_pos rfl]
    change self.chunkTickets.held pos ticket - chunks.count pos = 0
    omega
  · rw [if_neg mine, if_neg mine]
    exact ledger pos entity

/-! ### Calls on the world -/

omit [DecidableEq Entity] in
theorem TrackedAt.called (h : self.TrackedAt pos) {c : WorldCall} {world' : World} (reply : Bool)
    (same : world'.status pos = self.world.status pos) (other : c.concerns pos = false) :
    ({ self with world := world', log := self.log ++ [(c, reply)] } : ChunkLoading Entity).TrackedAt pos := by
  have last : lastEntry (self.log ++ [(c, reply)]) pos = lastEntry self.log pos := by
    rw [lastEntry_append, other, if_neg Bool.false_ne_true]
  refine ⟨?_, ?_, ?_, ?_⟩
  all_goals rw [status, same]
  · exact h.queued
  · exact h.canceled
  · exact h.apart
  · dsimp only
    rw [Kept, Dropped, last]
    exact h.kept

theorem concerns_of_ne {other : ChunkPosition} (h : other ≠ pos) :
    ((WorldCall.request pos).concerns other = false ∧ (WorldCall.unload pos).concerns other = false) ∧
      ∀ chunk, (WorldCall.load pos chunk).concerns other = false := by
  simp [WorldCall.concerns, Ne.symm h]

theorem exists_addTicket (ledger : Ledger self) (h : Tracked limit self) (ticket : Entity)
    (pos : ChunkPosition) :
    ∃ self', addTicket table traits ticket pos self = some self' ∧ Ledger self' ∧ Tracked limit self' ∧
      (∀ entity other, self'.chunkTickets.listed entity other =
        self.chunkTickets.listed entity other + if ticket = entity then [pos].count other else 0) ∧
      ∀ entity, (self'.chunkTickets.byEntity entity).isSome =
        ((self.chunkTickets.byEntity entity).isSome || decide (ticket = entity)) := by
  obtain ⟨world', reply, hcall⟩ : ∃ world' reply,
      self.world.call table traits (.request pos) = some (world', reply) := by
    rw [World.call]
    split
    · exact ⟨_, _, rfl⟩
    · exact ⟨_, _, rfl⟩
  obtain ⟨here, others⟩ := World.status_request hcall
  have ticketed : 0 < (self.chunkTickets.insertTicket pos ticket).numTickets pos := by
    apply Nat.pos_of_ne_zero
    rw [Ne, ChunkTickets.numTickets_eq_zero]
    intro none_held
    have := none_held ticket
    simp [ChunkTickets.held_insertTicket] at this
  have numTickets (other : ChunkPosition) (hne : other ≠ pos) :
      (self.chunkTickets.insertTicket pos ticket).numTickets other = self.chunkTickets.numTickets other := by
    simp [ChunkTickets.insertTicket, ChunkTickets.numTickets, hne]
  refine ⟨_, call_eq_some.mpr ⟨world', reply, hcall, rfl⟩, ?_, ⟨?_, h.due⟩, ?_, ?_⟩
  · intro other entity
    change (self.chunkTickets.insertTicket pos ticket).held other entity =
      (self.chunkTickets.insertTicket pos ticket).listed entity other
    rw [ChunkTickets.held_insertTicket, ChunkTickets.listed_insertTicket, ledger]
  · intro other
    by_cases same : other = pos
    · subst same
      have old := h.chunks other
      have last : lastEntry (self.log ++ [(.request other, reply)]) other = some (.request other, reply) := by
        rw [lastEntry_append, if_pos (by simp [WorldCall.concerns])]
      refine ⟨fun hzero => absurd hzero (Nat.ne_of_gt ticketed), ?_, ?_, fun _ => ⟨?_, ?_⟩⟩
      · rw [status, here]
        have := old.canceled
        unfold status at this
        grind
      · rw [status, here]
        have := old.apart
        unfold status at this
        grind
      · have undropped : ¬Dropped (self.log ++ [(.request other, reply)]) other := by
          rintro ⟨chunk, hchunk⟩
          rw [last] at hchunk
          cases hchunk
        refine iff_of_true ?_ undropped
        rw [status, here]
        grind
      · intro reply'
        dsimp only
        rw [last]
        simp
    · have old := h.chunks other
      have inserted : TrackedAt
          { self with chunkTickets := self.chunkTickets.insertTicket pos ticket } other := by
        refine ⟨?_, old.canceled, old.apart, ?_⟩
        · rw [numTickets other same]
          exact old.queued
        · rw [numTickets other same]
          exact old.kept
      exact inserted.called reply (others other same) (concerns_of_ne same).1.1
  · intro entity other
    change (self.chunkTickets.insertTicket pos ticket).listed entity other = _
    rw [ChunkTickets.listed_insertTicket, List.count_singleton]
    by_cases here : pos = other <;> by_cases mine : ticket = entity <;> simp [here, mine]
  · intro entity
    by_cases mine : ticket = entity
    · subst mine
      simp [ChunkTickets.insertTicket]
    · simp [ChunkTickets.insertTicket, mine, Ne.symm mine]

section Unload
variable {entry : QueuedChunkUnload} {queue : List QueuedChunkUnload}

omit [DecidableEq Entity] in
theorem Tracked.skip (h : Tracked limit { self with chunkUnloadQueue := entry :: queue })
    (ticketed : 0 < self.chunkTickets.numTickets entry.pos) :
    Tracked limit { self with chunkUnloadQueue := queue } := by
  refine ⟨fun pos => ⟨?_, (h.chunks pos).canceled, (h.chunks pos).apart, (h.chunks pos).kept⟩,
    fun _ hmem => h.due _ (List.mem_cons_of_mem _ hmem)⟩
  intro hzero present
  obtain ⟨found, hfound, heq⟩ := (h.chunks pos).queued hzero present
  refine ⟨found, (List.mem_cons.mp hfound).resolve_left ?_, heq⟩
  rintro rfl
  rw [heq] at ticketed
  exact absurd hzero (Nat.ne_of_gt ticketed)

omit [DecidableEq Entity] in
/-- An entry may go once its chunk is unloaded; an answer that still comes will be dropped. -/
theorem Tracked.unload (h : Tracked limit { self with chunkUnloadQueue := entry :: queue })
    (unticketed : ¬0 < self.chunkTickets.numTickets entry.pos) {world' : World} {reply : Bool}
    (hcall : self.world.call table traits (.unload entry.pos) = some (world', reply)) :
    Tracked limit { self with
      world := world', log := self.log ++ [(.unload entry.pos, reply)], chunkUnloadQueue := queue } := by
  obtain ⟨here, others⟩ := World.status_unload hcall
  refine ⟨fun pos => ?_, fun _ hmem => h.due _ (List.mem_cons_of_mem _ hmem)⟩
  by_cases same : pos = entry.pos
  · subst same
    refine ⟨?_, ?_, ?_, fun hpos => absurd hpos unticketed⟩
    all_goals rw [status, here]
    · rintro - (loaded | ⟨loading, canceled⟩)
      · cases loaded
      · rw [loading, Bool.or_true] at canceled
        cases canceled
    · intro canceled
      rcases Bool.or_eq_true_iff.mp canceled with old | loading
      · exact (h.chunks entry.pos).canceled old
      · exact loading
    · exact .inl rfl
  · have old := (h.chunks pos).called reply (others pos same) (concerns_of_ne same).1.2
    refine ⟨?_, old.canceled, old.apart, old.kept⟩
    intro hzero present
    obtain ⟨found, hfound, heq⟩ := old.queued hzero present
    refine ⟨found, (List.mem_cons.mp hfound).resolve_left ?_, heq⟩
    rintro rfl
    exact same heq.symm

omit [DecidableEq Entity] in
theorem exists_unloadDue (now : Nat) (queue : List QueuedChunkUnload) (self : ChunkLoading Entity)
    (h : Tracked limit { self with chunkUnloadQueue := queue }) :
    ∃ self', unloadDue table traits now queue self = some self' ∧ Tracked limit self' ∧
      self'.chunkTickets = self.chunkTickets ∧
      ((∀ unload ∈ queue, unload.unloadAtTime ≤ now) → self'.chunkUnloadQueue = []) := by
  induction queue generalizing self with
  | nil => exact ⟨_, rfl, h, rfl, fun _ => rfl⟩
  | cons unload queue ih =>
    rw [unloadDue]
    by_cases early : now < unload.unloadAtTime
    · rw [if_pos early]
      refine ⟨_, rfl, h, rfl, fun due => ?_⟩
      have := due unload List.mem_cons_self
      omega
    rw [if_neg early]
    by_cases ticketed : 0 < self.chunkTickets.numTickets unload.pos
    · rw [if_pos ticketed]
      obtain ⟨self', hrun, tracked, tickets, empty⟩ := ih self (h.skip ticketed)
      exact ⟨self', hrun, tracked, tickets, fun due => empty fun _ hmem => due _ (List.mem_cons_of_mem _ hmem)⟩
    · rw [if_neg ticketed]
      obtain ⟨world', reply, hcall⟩ : ∃ world' reply,
          self.world.call table traits (.unload unload.pos) = some (world', reply) := ⟨_, _, rfl⟩
      rw [call_eq_some.mpr ⟨world', reply, hcall, rfl⟩, Option.bind_some]
      obtain ⟨self', hrun, tracked, tickets, empty⟩ :=
        ih { self with world := world', log := self.log ++ [(.unload unload.pos, reply)] }
          (h.unload ticketed hcall)
      exact ⟨self', hrun, tracked, tickets, fun due => empty fun _ hmem => due _ (List.mem_cons_of_mem _ hmem)⟩

end Unload

omit [DecidableEq Entity] in
theorem exists_receive (h : Tracked limit self) (answer : ChunkPosition × Chunk) :
    ∃ self', receive table traits answer self = some self' ∧ Tracked limit self' ∧
      self'.chunkTickets = self.chunkTickets := by
  obtain ⟨pos, chunk⟩ := answer
  rw [receive]
  by_cases loading : self.world.isChunkLoading pos = true
  · obtain ⟨world', reply, hcall⟩ : ∃ world' reply,
        self.world.call table traits (.load pos chunk) = some (world', reply) :=
      ⟨_, _, by rw [World.call, if_pos loading]⟩
    obtain ⟨hreply, here, others⟩ := World.status_load hcall loading
    rw [if_pos loading, call_eq_some.mpr ⟨world', reply, hcall, rfl⟩]
    refine ⟨_, rfl, ⟨fun other => ?_, h.due⟩, rfl⟩
    by_cases same : other = pos
    · subst same
      have old := h.chunks other
      have absent : (self.status other).loaded = false := old.apart.resolve_right (by
        rw [show (self.status other).loading = true from loading]
        decide)
      have last : lastEntry (self.log ++ [(.load other chunk, reply)]) other = some (.load other chunk, reply) := by
        rw [lastEntry_append, if_pos (by simp [WorldCall.concerns])]
      have received : world'.status other =
          if (self.world.status other).canceled then ⟨false, false, false⟩ else ⟨true, false, false⟩ := by
        rw [here, show (self.world.status other).loaded = false from absent]
      refine ⟨?_, ?_, ?_, fun hpos => ⟨?_, ?_⟩⟩
      · intro hzero present
        rw [status, received] at present
        split at present
        · rcases present with present | ⟨present, -⟩ <;> cases present
        · rename_i wanted
          exact old.queued hzero (.inr ⟨loading, Bool.eq_false_iff.mpr wanted⟩)
      · rw [status, received]
        split <;> exact fun canceled => absurd canceled Bool.false_ne_true
      · rw [status, received]
        split
        · exact .inl rfl
        · exact .inr rfl
      · rw [status, received, Dropped]
        dsimp only
        rw [last, hreply]
        cases (self.world.status other).canceled <;> simp
      · intro reply'
        dsimp only
        rw [last]
        simp
    · exact (h.chunks other).called reply (others other same) ((concerns_of_ne same).2 chunk)
  · rw [if_neg loading]
    exact ⟨self, rfl, h, rfl⟩

/-! ### The systems and the views -/

def Viewed (profile : Software.Profile) (views : Entity → View) (self : ChunkLoading Entity) : Prop :=
  ∀ entity, ∃ chunks, (views entity).iter profile = some chunks ∧
    (∀ pos, self.chunkTickets.listed entity pos = chunks.count pos) ∧
    (chunks ≠ [] → (self.chunkTickets.byEntity entity).isSome = true)

structure Follows (profile : Software.Profile) (views : Entity → View) (limit : Nat)
    (s : ChunkLoading Entity) : Prop where
  ledger : Ledger s
  tracked : Tracked limit s
  viewed : Viewed profile views s

variable {profile : Software.Profile} {views views' : Entity → View}

theorem follows_new : Follows profile (fun _ => .empty) limit (new : ChunkLoading Entity) := by
  refine ⟨?_, tracked_new, ?_⟩
  · intro pos ticket
    rfl
  · intro entity
    exact ⟨[], rfl, fun _ => rfl, fun h => absurd rfl h⟩

theorem Follows.removeDeadEntities (h : Follows profile views limit self) (now : Nat)
    (hnow : now + UNLOAD_DELAY ≤ limit) (dead : List Entity) :
    ∃ self', run (removeDeadEntity now) dead self = some self' ∧
      Follows profile (fun e => if e ∈ dead then .empty else views e) limit self' := by
  induction dead generalizing self views with
  | nil => exact ⟨self, rfl, by simpa using h⟩
  | cons ticket dead ih =>
    obtain ⟨mid, hremove, ledger, tracked, listed, known⟩ :=
      exists_removeDeadEntity h.ledger h.tracked hnow ticket
    have hmid : Follows profile (fun e => if ticket = e then .empty else views e) limit mid := by
      refine ⟨ledger, tracked, fun entity => ?_⟩
      by_cases mine : ticket = entity
      · refine ⟨[], ?_, ?_, fun hne => absurd rfl hne⟩
        · simp only [if_pos mine]
          rfl
        · intro pos
          rw [listed, if_pos mine]
          rfl
      · obtain ⟨chunks, hiter, hlisted, hknown⟩ := h.viewed entity
        refine ⟨chunks, ?_, ?_, ?_⟩
        · simpa only [if_neg mine] using hiter
        · intro pos
          rw [listed, if_neg mine]
          exact hlisted pos
        · rw [known]
          exact hknown
    obtain ⟨self', hrun, h'⟩ := ih hmid
    refine ⟨self', (run_cons_eq_some _).mpr ⟨mid, hremove, hrun⟩, ?_⟩
    convert h' using 2 with entity
    by_cases mine : entity = ticket
    · simp [mine]
    · simp [mine, Ne.symm mine]

theorem exists_addTickets (ledger : Ledger self) (h : Tracked limit self) (ticket : Entity)
    (chunks : List ChunkPosition) :
    ∃ self', run (addTicket table traits ticket) chunks self = some self' ∧ Ledger self' ∧
      Tracked limit self' ∧
      (∀ entity pos, self'.chunkTickets.listed entity pos =
        self.chunkTickets.listed entity pos + if ticket = entity then chunks.count pos else 0) ∧
      ∀ entity, (self'.chunkTickets.byEntity entity).isSome =
        ((self.chunkTickets.byEntity entity).isSome || decide (ticket = entity ∧ chunks ≠ [])) := by
  induction chunks generalizing self with
  | nil => exact ⟨self, rfl, ledger, h, by simp, by simp⟩
  | cons pos chunks ih =>
    obtain ⟨mid, hadd, ledger', h', listed, known⟩ := exists_addTicket ledger h ticket pos
    obtain ⟨self', hrun, ledger'', h'', listed', known'⟩ := ih ledger' h'
    refine ⟨self', (run_cons_eq_some _).mpr ⟨mid, hadd, hrun⟩, ledger'', h'', ?_, ?_⟩
    · intro entity other
      have counts : (pos :: chunks).count other = [pos].count other + chunks.count other := by
        rw [← List.count_append, List.singleton_append]
      rw [listed', listed, counts]
      split
      · omega
      · rfl
    · intro entity
      rw [known', known]
      by_cases mine : ticket = entity <;> simp [mine]

theorem count_moved {new old newChunks oldChunks : List ChunkPosition} (hnew : new.Nodup)
    (hold : old.Nodup) (added : newChunks.Perm (new.filter (· ∉ old)))
    (gone : oldChunks.Perm (old.filter (· ∉ new))) (pos : ChunkPosition) :
    old.count pos - oldChunks.count pos + newChunks.count pos = new.count pos := by
  rw [added.count_eq, gone.count_eq, hold.count, hnew.count, (hold.filter _).count, (hnew.filter _).count]
  simp only [List.mem_filter, decide_eq_true_eq]
  by_cases hin : pos ∈ new <;> by_cases hout : pos ∈ old <;> simp [hin, hout]

theorem Follows.updateTickets (h : Follows profile views limit self) (now : Nat)
    (hnow : now + UNLOAD_DELAY ≤ limit) (update : Entity × ViewUpdateEvent)
    (hupdate : update.2.isNew profile (views update.1) = true) :
    ∃ self', updateTickets table traits now update self = some self' ∧
      Follows profile (Function.update views update.1 update.2.newView) limit self' := by
  obtain ⟨ticket, event⟩ := update
  obtain ⟨new, old, hnew, hold, added, gone⟩ := ViewUpdateEvent.isNew_iff.mp hupdate
  obtain ⟨chunks, hiter, hlisted, hknown⟩ := h.viewed ticket
  obtain rfl : old = chunks := Option.some.inj (hold.symm.trans hiter)
  have fresh : event.oldChunks ≠ [] → (self.chunkTickets.byEntity ticket).isSome = true := by
    intro hne
    apply hknown
    rintro rfl
    exact hne gone.eq_nil
  obtain ⟨mid, hremove, removed⟩ := exists_removed now ticket event.oldChunks self fresh
  obtain ⟨self', hadd, ledger, tracked, listed, known⟩ :=
    exists_addTickets (h.ledger.removed removed) (h.tracked.removed removed hnow) ticket event.newChunks
  refine ⟨self', by rw [ChunkLoading.updateTickets, hremove, Option.bind_some, hadd], ledger, tracked, ?_⟩
  intro entity
  by_cases mine : ticket = entity
  · subst mine
    refine ⟨new, by rw [Function.update_self]; exact hnew, ?_, ?_⟩
    · intro pos
      rw [listed, removed.listed, if_pos rfl, if_pos rfl, hlisted]
      exact count_moved (View.nodup_iter profile hnew) (View.nodup_iter profile hold) added gone pos
    · intro hne
      rw [known, removed.known]
      by_cases none_new : event.newChunks = []
      · rw [hknown, Bool.true_or]
        rintro rfl
        rw [none_new] at added
        exact hne (by simpa using added.symm.eq_nil)
      · simp [none_new]
  · obtain ⟨chunks, hiter', hlisted', hknown'⟩ := h.viewed entity
    refine ⟨chunks, by rw [Function.update_of_ne (Ne.symm mine)]; exact hiter', ?_, ?_⟩
    · intro pos
      rw [listed, removed.listed, if_neg mine, if_neg mine]
      exact hlisted' pos
    · intro hne
      rw [known, removed.known, hknown' hne, Bool.true_or]

theorem Follows.updateTicketsForPlayers (h : Follows profile views limit self) (now : Nat)
    (hnow : now + UNLOAD_DELAY ≤ limit) (updates : List (Entity × ViewUpdateEvent))
    (hviews : (LoadingEvent.updateTicketsForPlayers now updates).views profile views = some views') :
    ∃ self', run (ChunkLoading.updateTickets table traits now) updates self = some self' ∧
      Follows profile views' limit self' := by
  rw [LoadingEvent.views] at hviews
  induction updates generalizing self views with
  | nil => exact ⟨self, rfl, Option.some.inj hviews ▸ h⟩
  | cons update updates ih =>
    obtain ⟨middle, hupdate, hrest⟩ := (run_cons_eq_some _).mp hviews
    rw [Option.ite_none_right_eq_some] at hupdate
    obtain ⟨mid, hmid, h'⟩ := h.updateTickets now hnow update hupdate.1
    obtain ⟨self', hrun, h''⟩ := ih h' (by rw [Option.some.inj hupdate.2]; exact hrest)
    exact ⟨self', (run_cons_eq_some _).mpr ⟨mid, hmid, hrun⟩, h''⟩

theorem Follows.sameTickets (h : Follows profile views limit self) (tracked : Tracked limit self')
    (same : self'.chunkTickets = self.chunkTickets) : Follows profile views limit self' := by
  refine ⟨?_, tracked, ?_⟩
  · rw [Ledger, same]
    exact h.ledger
  · rw [Viewed, same]
    exact h.viewed

omit [DecidableEq Entity] in
theorem exists_purge (h : Tracked limit self) (inUse : ChunkPosition → Bool) :
    ∃ self', call table traits (.purge inUse) self = some self' ∧ Tracked limit self' ∧
      self'.chunkTickets = self.chunkTickets ∧ self'.chunkUnloadQueue = self.chunkUnloadQueue := by
  obtain ⟨world', reply, hcall⟩ : ∃ world' reply,
      self.world.call table traits (.purge inUse) = some (world', reply) := ⟨_, _, rfl⟩
  refine ⟨_, call_eq_some.mpr ⟨world', reply, hcall, rfl⟩, ⟨fun pos => ?_, h.due⟩, rfl, rfl⟩
  exact (h.chunks pos).called reply (World.status_purge hcall pos) rfl

theorem exists_unloadChunks (h : Tracked limit self) (now : Nat) (inUse : ChunkPosition → Bool) :
    ∃ self', step table traits (.unloadChunks now inUse) self = some self' ∧ Tracked limit self' ∧
      self'.chunkTickets = self.chunkTickets ∧
      ((∀ unload ∈ self.chunkUnloadQueue, unload.unloadAtTime ≤ now) → self'.chunkUnloadQueue = []) := by
  obtain ⟨mid, hunload, h', same, empty⟩ := exists_unloadDue now self.chunkUnloadQueue self h
  obtain ⟨self', hpurge, h'', same', queue⟩ := exists_purge h' inUse
  refine ⟨self', ?_, h'', same'.trans same, fun due => queue.trans (empty due)⟩
  rw [step, hunload, Option.bind_some, hpurge]

omit [DecidableEq Entity] in
theorem exists_loadChunks (h : Tracked limit self) (answers : List (ChunkPosition × Chunk)) :
    ∃ self', run (receive table traits) answers self = some self' ∧ Tracked limit self' ∧
      self'.chunkTickets = self.chunkTickets := by
  induction answers generalizing self with
  | nil => exact ⟨self, rfl, h, rfl⟩
  | cons answer answers ih =>
    obtain ⟨mid, hreceive, h', same⟩ := exists_receive h answer
    obtain ⟨self', hrun, h'', same'⟩ := ih h'
    exact ⟨self', (run_cons_eq_some _).mpr ⟨mid, hreceive, hrun⟩, h'', same'.trans same⟩

theorem Follows.step (h : Follows profile views limit self) (event : LoadingEvent Entity)
    (hlimit : event.time + UNLOAD_DELAY ≤ limit) (hviews : event.views profile views = some views') :
    ∃ self', step table traits event self = some self' ∧ Follows profile views' limit self' := by
  cases event with
  | removeDeadEntities now dead =>
    obtain rfl := Option.some.inj hviews
    exact h.removeDeadEntities now hlimit dead
  | updateTicketsForPlayers now updates => exact h.updateTicketsForPlayers now hlimit updates hviews
  | unloadChunks now inUse =>
    obtain rfl := Option.some.inj hviews
    obtain ⟨self', hstep, tracked, same, -⟩ := exists_unloadChunks h.tracked now inUse
    exact ⟨self', hstep, h.sameTickets tracked same⟩
  | loadChunks answers =>
    obtain rfl := Option.some.inj hviews
    obtain ⟨self', hstep, tracked, same⟩ := exists_loadChunks h.tracked answers
    exact ⟨self', hstep, h.sameTickets tracked same⟩

theorem follows_run {events : List (LoadingEvent Entity)}
    (hlimit : ∀ event ∈ events, event.time + UNLOAD_DELAY ≤ limit)
    (hviews : run (LoadingEvent.views profile) events views = some views')
    (h : Follows profile views limit self) :
    ∃ self', run (ChunkLoading.step table traits) events self = some self' ∧
      Follows profile views' limit self' := by
  induction events generalizing self views with
  | nil => exact ⟨self, rfl, Option.some.inj hviews ▸ h⟩
  | cons event events ih =>
    obtain ⟨middle, hmiddle, hrest⟩ := (run_cons_eq_some _).mp hviews
    obtain ⟨mid, hmid, h'⟩ := h.step event (hlimit event List.mem_cons_self) hmiddle
    obtain ⟨self', hrun, h''⟩ := ih (fun e he => hlimit e (List.mem_cons_of_mem _ he)) hrest h'
    exact ⟨self', (run_cons_eq_some _).mpr ⟨mid, hmid, hrun⟩, h''⟩

omit [DecidableEq Entity] in
theorem exists_limit (events : List (LoadingEvent Entity)) :
    ∃ limit, ∀ event ∈ events, event.time + UNLOAD_DELAY ≤ limit := by
  induction events with
  | nil => exact ⟨0, by simp⟩
  | cons event events ih =>
    obtain ⟨limit, hlimit⟩ := ih
    refine ⟨max limit (event.time + UNLOAD_DELAY), ?_⟩
    intro e he
    rcases List.mem_cons.mp he with rfl | he
    · exact Nat.le_max_right ..
    · exact (hlimit e he).trans (Nat.le_max_left ..)

theorem Follows.numTickets_pos (h : Follows profile views limit self) :
    0 < self.chunkTickets.numTickets pos ↔
      ∃ entity chunks, (views entity).iter profile = some chunks ∧ pos ∈ chunks := by
  rw [Nat.pos_iff_ne_zero, Ne, ChunkTickets.numTickets_eq_zero, not_forall]
  apply exists_congr
  intro entity
  obtain ⟨chunks, hiter, hlisted, -⟩ := h.viewed entity
  rw [h.ledger, hlisted, List.count_eq_zero, not_not, hiter]
  simp

def joining : ViewUpdateEvent where
  newView := ⟨⟨0, 0⟩, 1⟩
  newChunks := ((View.mk ⟨0, 0⟩ 1).iter .debug).getD []
  oldChunks := []

def joiningViews : Nat → View := Function.update (fun _ => .empty) 7 joining.newView

theorem views_joining : run (LoadingEvent.views .debug)
    [.updateTicketsForPlayers 0 [(7, joining)], .loadChunks [(⟨0, 0⟩, .new)]] (fun _ => .empty) =
      some joiningViews := by
  have accepted : joining.isNew .debug .empty = true := by decide +kernel
  simp only [run, LoadingEvent.views, accepted, if_true, Option.bind_fun_some]
  rfl

theorem iter_joining : ∃ chunks, (joiningViews 7).iter .debug = some chunks ∧ ⟨0, 0⟩ ∈ chunks := by
  decide +kernel

section Main
variable (table : VanillaIdTable) (traits : BlockTraits) (profile : Software.Profile)
  (events : List (LoadingEvent Entity))

/-- Over every run of the systems, in any order and with any answers of the worker, no ticket is
lost or kept too long: each player has one ticket for each chunk of its view, and no other. -/
theorem tickets_follow_views (views : Entity → View)
    (hviews : run (LoadingEvent.views profile) events (fun _ => .empty) = some views) :
    ∃ s, run (step table traits) events new = some s ∧
      ∀ entity, ∃ chunks, (views entity).iter profile = some chunks ∧
        ∀ pos, s.chunkTickets.held pos entity = if pos ∈ chunks then 1 else 0 := by
  obtain ⟨limit, hlimit⟩ := exists_limit events
  obtain ⟨s, hrun, h⟩ : ∃ s, run (step table traits) events new = some s ∧ Follows profile views limit s :=
    follows_run hlimit hviews follows_new
  refine ⟨s, hrun, fun entity => ?_⟩
  obtain ⟨chunks, hiter, hlisted, -⟩ := h.viewed entity
  refine ⟨chunks, hiter, fun pos => ?_⟩
  rw [h.ledger, hlisted, (View.nodup_iter profile hiter).count]

theorem tickets_follow_views_joining :
    ∃ s, run (step .inOrder .solidGround)
        [.updateTicketsForPlayers 0 [(7, joining)], .loadChunks [(⟨0, 0⟩, .new)]] new = some s ∧
      ∃ chunks, (joiningViews 7).iter .debug = some chunks ∧
        ∀ pos, s.chunkTickets.held pos 7 = if pos ∈ chunks then 1 else 0 := by
  obtain ⟨s, hrun, held⟩ := tickets_follow_views .inOrder .solidGround .debug _ joiningViews views_joining
  exact ⟨s, hrun, held 7⟩

/-- Over every run a chunk in a player's view is loaded or on its way exactly if the last answer for
it was not dropped, as it is for a chunk that was unloaded while it was being loaded; and it is not
unloaded as long as it is in the view. -/
theorem viewed_chunk_present_iff (views : Entity → View)
    (hviews : run (LoadingEvent.views profile) events (fun _ => .empty) = some views) :
    ∃ s, run (step table traits) events new = some s ∧
      ∀ entity chunks pos, (views entity).iter profile = some chunks → pos ∈ chunks →
        ((s.world.isChunkLoaded pos = true ∨ s.world.isChunkLoading pos = true) ↔ ¬Dropped s.log pos) ∧
          ∀ reply, lastEntry s.log pos ≠ some (.unload pos, reply) := by
  obtain ⟨limit, hlimit⟩ := exists_limit events
  obtain ⟨s, hrun, h⟩ : ∃ s, run (step table traits) events new = some s ∧ Follows profile views limit s :=
    follows_run hlimit hviews follows_new
  refine ⟨s, hrun, ?_⟩
  intro entity chunks pos hiter hpos
  exact (h.tracked.chunks pos).kept (h.numTickets_pos.mpr ⟨entity, chunks, hiter, hpos⟩)

theorem viewed_chunk_present_iff_joining :
    ∃ s, run (step .inOrder .solidGround)
        [.updateTicketsForPlayers 0 [(7, joining)], .loadChunks [(⟨0, 0⟩, .new)]] (new : ChunkLoading Nat) =
          some s ∧ s.world.isChunkLoaded ⟨0, 0⟩ = true ∧ ¬Dropped s.log ⟨0, 0⟩ := by
  obtain ⟨s, hrun, present⟩ :=
    viewed_chunk_present_iff .inOrder .solidGround .debug _ joiningViews views_joining
  obtain ⟨chunks, hiter, hmem⟩ := iter_joining
  have loaded : (run (step .inOrder .solidGround)
      [.updateTicketsForPlayers 0 [(7, joining)], .loadChunks [(⟨0, 0⟩, .new)]]
        (new : ChunkLoading Nat)).map (fun s => s.world.isChunkLoaded ⟨0, 0⟩) = some true := by
    decide +kernel
  rw [hrun, Option.map_some, Option.some.injEq] at loaded
  exact ⟨s, hrun, loaded, (present 7 chunks ⟨0, 0⟩ hiter hmem).1.mp (.inl loaded)⟩

/-- No chunk is leaked: unloading ten seconds after the other systems ran leaves only chunks in
memory, or on their way there, that are in the view of a player. -/
theorem unload_leaves_viewed (views : Entity → View)
    (hviews : run (LoadingEvent.views profile) events (fun _ => .empty) = some views) (now : Nat)
    (late : ∀ event ∈ events, event.time + UNLOAD_DELAY ≤ now) (inUse : ChunkPosition → Bool) :
    ∃ s, run (step table traits) (events ++ [.unloadChunks now inUse]) new = some s ∧
      s.chunkUnloadQueue = [] ∧
      ∀ pos, s.world.isChunkLoaded pos = true ∨
          s.world.isChunkLoading pos = true ∧ s.world.canceledChunkLoads pos = false →
        ∃ entity chunks, (views entity).iter profile = some chunks ∧ pos ∈ chunks := by
  obtain ⟨mid, hrun, h⟩ : ∃ s, run (step table traits) events new = some s ∧ Follows profile views now s :=
    follows_run late hviews follows_new
  obtain ⟨s, hstep, tracked, same, empty⟩ := exists_unloadChunks h.tracked now inUse
  have h' := h.sameTickets tracked same
  have queue := empty h.tracked.due
  refine ⟨s, (run_concat_eq_some _).mpr ⟨mid, hrun, hstep⟩, queue, ?_⟩
  intro pos present
  apply h'.numTickets_pos.mp
  apply Nat.pos_of_ne_zero
  intro hzero
  obtain ⟨unload, hunload, -⟩ := (tracked.chunks pos).queued hzero present
  rw [queue] at hunload
  cases hunload

theorem unload_leaves_viewed_joining :
    ∃ s, run (step .inOrder .solidGround)
        ([.updateTicketsForPlayers 0 [(7, joining)], .loadChunks [(⟨0, 0⟩, .new)]] ++
          [.unloadChunks 10 fun _ => false]) new = some s ∧
      s.chunkUnloadQueue = [] := by
  obtain ⟨s, hrun, queue, -⟩ := unload_leaves_viewed .inOrder .solidGround .debug _ joiningViews views_joining
    10 (by simp [LoadingEvent.time]) fun _ => false
  exact ⟨s, hrun, queue⟩

end Main
end ChunkLoading
end FpgaCraft.Server
