import Mathlib.Data.List.Count
import Mathlib.Data.List.Perm.Basic
import FpgaCraft.Server.World

/-! The tickets that keep chunks loaded (`feather/common/src/chunk/loading.rs`), which are stored by
chunk and by entity. A panic is `none`. -/
namespace FpgaCraft.Server
open Library

section Vec
variable {α : Type*} [DecidableEq α]

def swapRemove (vec : List α) (i : Nat) : List α :=
  match vec.getLast? with
  | none => vec
  | some last => (vec.set i last).dropLast

def vecRemoveItem (vec : List α) (item : α) : List α :=
  match vec.idxOf? item with
  | none => vec
  | some i => swapRemove vec i

omit [DecidableEq α] in
theorem swapRemove_concat (init : List α) (last : α) {i : Nat} (hi : i < init.length + 1) :
    swapRemove (init ++ [last]) i = init.set i last := by
  rw [swapRemove, List.getLast?_concat]
  dsimp only
  by_cases inner : i < init.length
  · rw [List.set_append_left _ _ inner, List.dropLast_concat]
  · obtain rfl : i = init.length := by omega
    rw [List.set_append_right _ _ (Nat.le_refl _), Nat.sub_self, List.set_cons_zero,
      List.dropLast_concat, List.set_eq_of_length_le (Nat.le_refl _)]

omit [DecidableEq α] in
theorem cons_swapRemove_perm {vec : List α} {i : Nat} (hi : i < vec.length) :
    (vec[i] :: swapRemove vec i).Perm vec := by
  obtain rfl | ⟨init, last, rfl⟩ := List.eq_nil_or_concat' vec
  · exact absurd hi (Nat.not_lt_zero i)
  rw [List.length_append, List.length_singleton] at hi
  rw [swapRemove_concat init last hi]
  by_cases inner : i < init.length
  · obtain ⟨before, after, split, -, hset⟩ : ∃ before after, init = before ++ init[i] :: after ∧
        before.length = i ∧ init.set i last = before ++ last :: after := List.exists_of_set inner
    rw [List.getElem_append_left inner, hset]
    generalize init[i] = item at split
    rw [split, List.append_assoc]
    apply List.perm_middle.symm.trans
    apply List.Perm.append_left
    apply List.Perm.cons
    exact (List.perm_append_singleton last after).symm
  · obtain rfl : i = init.length := by omega
    rw [List.set_eq_of_length_le (Nat.le_refl _), List.getElem_concat_length rfl]
    exact (List.perm_append_singleton last init).symm

theorem count_vecRemoveItem (vec : List α) (item other : α) :
    (vecRemoveItem vec item).count other = vec.count other - if item = other then 1 else 0 := by
  unfold vecRemoveItem
  cases hfound : vec.idxOf? item with
  | none =>
    rw [List.idxOf?_eq_none_iff] at hfound
    dsimp only
    split
    · rename_i same
      rw [← same, List.count_eq_zero_of_not_mem hfound]
    · rw [Nat.sub_zero]
  | some i =>
    obtain ⟨hi, rfl, -⟩ := List.idxOf?_eq_some_iff.mp hfound
    have counts := (cons_swapRemove_perm hi).count_eq other
    dsimp only
    rw [List.count_cons] at counts
    simp only [beq_iff_eq] at counts
    omega

end Vec

structure ChunkTickets (Entity : Type) where
  tickets : ChunkPosition → Option (List Entity)
  byEntity : Entity → Option (List ChunkPosition)

namespace ChunkTickets
variable {Entity : Type} [DecidableEq Entity]

def new : ChunkTickets Entity := ⟨fun _ => none, fun _ => none⟩

def insertTicket (self : ChunkTickets Entity) (chunk : ChunkPosition) (ticket : Entity) :
    ChunkTickets Entity where
  tickets := Function.update self.tickets chunk (some ((self.tickets chunk).getD [] ++ [ticket]))
  byEntity := Function.update self.byEntity ticket (some ((self.byEntity ticket).getD [] ++ [chunk]))

def removeTicket (self : ChunkTickets Entity) (chunk : ChunkPosition) (ticket : Entity) :
    Option (ChunkTickets Entity) :=
  (self.byEntity ticket).map fun chunks =>
    { tickets := Function.update self.tickets chunk
        ((self.tickets chunk).map fun vec => vecRemoveItem vec ticket)
      byEntity := Function.update self.byEntity ticket (some (vecRemoveItem chunks chunk)) }

def numTickets (self : ChunkTickets Entity) (chunk : ChunkPosition) : Nat :=
  match self.tickets chunk with
  | some vec => vec.length
  | none => 0

def takeEntityTickets (self : ChunkTickets Entity) (ticket : Entity) :
    ChunkTickets Entity × List ChunkPosition :=
  ({ self with
      byEntity := Function.update self.byEntity ticket ((self.byEntity ticket).map fun _ => []) },
    (self.byEntity ticket).getD [])

def removeChunk (self : ChunkTickets Entity) (pos : ChunkPosition) : ChunkTickets Entity :=
  { self with tickets := Function.update self.tickets pos none }

/-! ### Counting tickets -/

def held (self : ChunkTickets Entity) (chunk : ChunkPosition) (ticket : Entity) : Nat :=
  ((self.tickets chunk).getD []).count ticket

def listed (self : ChunkTickets Entity) (ticket : Entity) (chunk : ChunkPosition) : Nat :=
  ((self.byEntity ticket).getD []).count chunk

variable {self self' : ChunkTickets Entity} {chunk other : ChunkPosition} {ticket entity : Entity}

theorem numTickets_eq_zero : self.numTickets chunk = 0 ↔ ∀ ticket, self.held chunk ticket = 0 := by
  unfold numTickets held
  cases self.tickets chunk with
  | none => simp
  | some vec => simp [List.count_eq_zero, List.length_eq_zero_iff, List.eq_nil_iff_forall_not_mem]

theorem held_insertTicket : (self.insertTicket chunk ticket).held other entity =
    self.held other entity + if chunk = other ∧ ticket = entity then 1 else 0 := by
  unfold held insertTicket
  by_cases here : chunk = other
  · subst here
    simp [List.count_append, List.count_cons]
  · simp [here, Ne.symm here]

theorem listed_insertTicket : (self.insertTicket chunk ticket).listed entity other =
    self.listed entity other + if chunk = other ∧ ticket = entity then 1 else 0 := by
  unfold listed insertTicket
  by_cases here : ticket = entity
  · subst here
    simp [List.count_append, List.count_cons]
  · simp [here, Ne.symm here]

theorem held_removeTicket (h : self.removeTicket chunk ticket = some self') :
    self'.held other entity =
      self.held other entity - if chunk = other ∧ ticket = entity then 1 else 0 := by
  obtain ⟨chunks, -, rfl⟩ := Option.map_eq_some_iff.mp h
  unfold held
  by_cases here : chunk = other
  · subst here
    cases self.tickets chunk with
    | none => simp
    | some vec => simp [count_vecRemoveItem]
  · simp [here, Ne.symm here]

theorem listed_removeTicket (h : self.removeTicket chunk ticket = some self') :
    self'.listed entity other =
      self.listed entity other - if chunk = other ∧ ticket = entity then 1 else 0 := by
  obtain ⟨chunks, hchunks, rfl⟩ := Option.map_eq_some_iff.mp h
  unfold listed
  by_cases here : ticket = entity
  · subst here
    simp [hchunks, count_vecRemoveItem]
  · simp [here, Ne.symm here]

theorem byEntity_removeTicket (h : self.removeTicket chunk ticket = some self') (entity : Entity) :
    (self'.byEntity entity).isSome = (self.byEntity entity).isSome := by
  obtain ⟨chunks, hchunks, rfl⟩ := Option.map_eq_some_iff.mp h
  by_cases here : ticket = entity
  · subst here
    simp [hchunks]
  · simp [Ne.symm here]

omit [DecidableEq Entity] in
@[simp] theorem listed_removeChunk : (self.removeChunk chunk).listed entity other = self.listed entity other :=
  rfl

theorem held_removeChunk (h : self.numTickets chunk = 0) :
    (self.removeChunk chunk).held other entity = self.held other entity := by
  unfold held removeChunk
  by_cases here : chunk = other
  · subst here
    have none_held := numTickets_eq_zero.mp h entity
    unfold held at none_held
    simp [none_held]
  · simp [Ne.symm here]

end ChunkTickets
end FpgaCraft.Server
