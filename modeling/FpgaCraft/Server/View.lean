import Mathlib.Data.List.Perm.Basic
import FpgaCraft.Server.World

/-! The chunks that players see (`feather/common/src/view.rs`, `feather/common/src/events.rs`). -/
namespace FpgaCraft.Server
open Library

def I32.upTo (lo hi : I32) : List I32 :=
  (List.range (hi.val - lo.val + 1).toNat).filterMap fun n : Nat => Signed.new (lo.val + n)

theorem I32.nodup_upTo (lo hi : I32) : (I32.upTo lo hi).Nodup := by
  apply List.Nodup.filterMap _ List.nodup_range
  intro n m a hn hm
  have hn := Signed.new_eq_some_iff.mp hn
  have hm := Signed.new_eq_some_iff.mp hm
  omega

structure View where
  center : ChunkPosition
  viewDistance : BitVec 32

namespace View
variable (profile : Software.Profile)

def empty : View := ⟨⟨0, 0⟩, 0⟩

def isEmpty (self : View) : Bool := self.viewDistance == 0

def distance (self : View) : Int := self.viewDistance.toInt

def minX (self : View) : Option I32 := addI32 profile (-self.distance) self.center.x
def minZ (self : View) : Option I32 := addI32 profile (-self.distance) self.center.z
def maxX (self : View) : Option I32 := addI32 profile self.distance self.center.x
def maxZ (self : View) : Option I32 := addI32 profile self.distance self.center.z

def iter (self : View) : Option (List ChunkPosition) :=
  if self.isEmpty then some []
  else do
    let minX ← self.minX profile
    let minZ ← self.minZ profile
    let maxX ← self.maxX profile
    let maxZ ← self.maxZ profile
    pure ((I32.upTo minX maxX).flatMap fun x => (I32.upTo minZ maxZ).map fun z => ⟨x, z⟩)

theorem nodup_iter {self : View} {chunks : List ChunkPosition} (h : self.iter profile = some chunks) :
    chunks.Nodup := by
  unfold iter at h
  split at h
  · obtain rfl := Option.some.inj h
    exact List.nodup_nil
  · obtain ⟨minX, -, h⟩ := Option.bind_eq_some_iff.mp h
    obtain ⟨minZ, -, h⟩ := Option.bind_eq_some_iff.mp h
    obtain ⟨maxX, -, h⟩ := Option.bind_eq_some_iff.mp h
    obtain ⟨maxZ, -, h⟩ := Option.bind_eq_some_iff.mp h
    obtain rfl := Option.some.inj h
    rw [List.nodup_flatMap]
    constructor
    · intro x _
      apply (I32.nodup_upTo minZ maxZ).map
      intro z z' same
      exact congrArg ChunkPosition.z same
    · apply (I32.nodup_upTo minX maxX).imp
      intro x x' hne chunk hx hx'
      obtain ⟨z, -, rfl⟩ := List.mem_map.mp hx
      obtain ⟨z', -, same⟩ := List.mem_map.mp hx'
      exact hne (congrArg ChunkPosition.x same).symm

end View

structure ViewUpdateEvent where
  newView : View
  newChunks : List ChunkPosition
  oldChunks : List ChunkPosition

/-- The event of a change of views. Both lists come out of a hash set and are then sorted by their
distance to a chunk, so that their order is not determined. -/
def ViewUpdateEvent.isNew (profile : Software.Profile) (oldView : View) (event : ViewUpdateEvent) :
    Bool :=
  match event.newView.iter profile, oldView.iter profile with
  | some new, some old =>
    decide (event.newChunks.Perm (new.filter (· ∉ old))) &&
      decide (event.oldChunks.Perm (old.filter (· ∉ new)))
  | _, _ => false

theorem ViewUpdateEvent.isNew_iff {profile : Software.Profile} {oldView : View} {event : ViewUpdateEvent} :
    event.isNew profile oldView = true ↔ ∃ new old, event.newView.iter profile = some new ∧
      oldView.iter profile = some old ∧ event.newChunks.Perm (new.filter (· ∉ old)) ∧
        event.oldChunks.Perm (old.filter (· ∉ new)) := by
  unfold isNew
  cases event.newView.iter profile with
  | none => simp
  | some new =>
    cases oldView.iter profile with
    | none => simp
    | some old => simp

end FpgaCraft.Server
