import Mathlib.Data.Fintype.Card
import FpgaCraft.Server.BlockNames

/-! The server's table back from vanilla ids to blocks (`feather/blocks/src/lib.rs`), which is
filled by assigning the entries of `vanilla_ids.dat` one after another. -/
namespace FpgaCraft.Server
open Library

def BlockId.air : BlockId := ⟨.air, 0⟩

instance : Inhabited BlockId := ⟨.air⟩

def BlockId.isAir (block : BlockId) : Bool :=
  let kind := block.kind.number.val
  kind == 0 || kind == 624 || kind == 625

namespace VanillaIdTable
variable (table : VanillaIdTable)

/-- The assignments `res[id] = BlockId { state, kind }`, in order. -/
def entries : List (BitVec 16 × BlockId) :=
  (List.finRange 763).flatMap fun kind =>
    (table.row ⟨kind⟩).zipIdx.map fun entry => (entry.1, ⟨⟨kind⟩, entry.2⟩)

def fromIds : BitVec 16 → BlockId :=
  table.entries.foldl (fun res entry => Function.update res entry.1 entry.2) fun _ => .air

end VanillaIdTable

/-- Returns the block of a vanilla id; the last id is outside the table, which panics. -/
def BlockId.fromVanillaId (table : VanillaIdTable) (id : BitVec 16) : Option BlockId :=
  if id.toNat < 65535 then some (table.fromIds id) else none

variable {table : VanillaIdTable} {block block' : BlockId} {id : BitVec 16}

namespace BlockId

theorem mem_entries : (id, block) ∈ table.entries ↔ block.vanillaId table = some id := by
  simp only [VanillaIdTable.entries, List.mem_flatMap, List.mem_finRange, true_and, List.mem_map,
    Prod.mk.injEq, vanillaId, List.mem_zipIdx_iff_getElem?]
  constructor
  · rintro ⟨kind, entry, hentry, rfl, rfl⟩
    exact hentry
  · intro h
    exact ⟨block.kind.number, (id, block.state), h, rfl, rfl⟩

theorem vanillaId_lt (h : block.vanillaId table = some id) : id.toNat < 17112 := by
  obtain ⟨state, rfl, -⟩ := kind_of_vanillaId h
  exact state.valid

theorem vanillaId_injective (h : block.vanillaId table = some id)
    (h' : block'.vanillaId table = some id) : block = block' := by
  obtain ⟨state, rfl, hkind⟩ := kind_of_vanillaId h
  obtain ⟨state', hid, hkind'⟩ := kind_of_vanillaId h'
  have same : state' = state := by
    cases state
    cases state'
    simp_all
  have kinds : block.kind = block'.kind := by rw [← hkind, ← hkind', same]
  have nodup : ((table.row block.kind).map BitVec.toNat).Nodup :=
    (table.states block.kind).nodup_iff.mpr List.nodup_range'
  have states : block.state = block'.state := by
    rw [vanillaId, ← kinds] at h'
    exact (List.getElem?_inj (List.getElem?_eq_some_iff.mp h).1 (List.Nodup.of_map _ nodup)).mp
      (h.trans h'.symm)
  cases block
  cases block'
  simp_all

theorem fromVanillaId_vanillaId (h : block.vanillaId table = some id) :
    fromVanillaId table id = some block := by
  have bound := vanillaId_lt h
  rw [fromVanillaId, if_pos (by omega), Option.some.injEq]
  apply foldl_update_of_agree
  · exact ⟨(id, block), mem_entries.mpr h, rfl⟩
  · rintro ⟨id', block'⟩ hentry rfl
    exact vanillaId_injective (mem_entries.mp hentry) h

theorem exists_vanillaId (h : id.toNat < 17112) : ∃ block : BlockId, block.vanillaId table = some id := by
  let kind := BlockState.kind ⟨id, h⟩
  have mem : id.toNat ∈ List.range' (runStart stateCounts kind.number)
      (stateCounts.getD kind.number 0) :=
    mem_run (by rw [sum_stateCounts]; exact h)
  rw [← (table.states kind).mem_iff, List.mem_map] at mem
  obtain ⟨same, hmem, heq⟩ := mem
  obtain ⟨state, hstate⟩ := List.mem_iff_getElem?.mp hmem
  refine ⟨⟨kind, state⟩, ?_⟩
  rw [vanillaId, hstate, BitVec.eq_of_toNat_eq heq]

theorem fromVanillaId_of_ge (h : 17112 ≤ id.toNat) (h' : id.toNat < 65535) :
    fromVanillaId table id = some air := by
  rw [fromVanillaId, if_pos h', Option.some.injEq]
  apply foldl_update_of_not_assigned
  intro entry hentry same
  have := vanillaId_lt (mem_entries.mp hentry)
  rw [same] at this
  omega

def Known (table : VanillaIdTable) (block : BlockId) : Prop :=
  ∃ id, block.vanillaId table = some id

theorem known_iff : Known table block ↔ block.state < stateCounts.getD block.kind.number 0 := by
  have length := (table.states block.kind).length_eq
  rw [List.length_map, List.length_range'] at length
  rw [Known, ← length]
  simp only [vanillaId, List.getElem?_eq_some_iff]
  constructor
  · rintro ⟨_, bound, -⟩
    exact bound
  · intro bound
    exact ⟨_, bound, rfl⟩

theorem known_stone (table : VanillaIdTable) : Known table ⟨.stone, 0⟩ :=
  known_iff.mpr (by decide)

theorem known_noteBlock (table : VanillaIdTable) {state : Nat} (h : state < 800) :
    Known table ⟨.noteBlock, state⟩ := by
  have states : stateCounts.getD 74 0 = 800 := by decide
  apply known_iff.mpr
  change state < stateCounts.getD 74 0
  rwa [states]

theorem length_le_of_known {blocks : List BlockId} (nodup : blocks.Nodup)
    (known : ∀ block ∈ blocks, Known table block) : blocks.length ≤ 17112 := by
  let number (block : BlockId) : Nat := ((block.vanillaId table).getD 0).toNat
  have distinct : (blocks.map number).Nodup := by
    apply nodup.map_on
    intro block hblock block' hblock' same
    obtain ⟨id, hid⟩ := known block hblock
    obtain ⟨id', hid'⟩ := known block' hblock'
    simp only [number, hid, hid', Option.getD_some] at same
    rw [BitVec.eq_of_toNat_eq same] at hid
    exact vanillaId_injective hid hid'
  have small : blocks.map number ⊆ List.range 17112 := by
    intro n hn
    obtain ⟨block, hblock, rfl⟩ := List.mem_map.mp hn
    obtain ⟨id, hid⟩ := known block hblock
    simpa [number, hid] using vanillaId_lt hid
  simpa using (distinct.subperm small).length_le

theorem vanillaId_air (table : VanillaIdTable) : air.vanillaId table = some 0#16 := by
  have states := table.states .air
  have row : (table.row .air).map BitVec.toNat = [0] := by
    have run : List.range' (runStart stateCounts (BlockKind.air).number)
      (stateCounts.getD (BlockKind.air).number 0) = [0] := by decide
    rw [run] at states
    exact List.perm_singleton.mp states
  obtain ⟨id, hrow, hid⟩ := List.map_eq_singleton_iff.mp row
  rw [vanillaId, air, hrow, ← BitVec.eq_of_toNat_eq (x := id) (y := 0#16) hid]
  rfl

theorem known_fromVanillaId (h : fromVanillaId table id = some block) : Known table block := by
  by_cases bound : id.toNat < 17112
  · obtain ⟨block', h'⟩ : ∃ block' : BlockId, block'.vanillaId table = some id :=
      exists_vanillaId bound
    rw [fromVanillaId_vanillaId h', Option.some.injEq] at h
    exact ⟨id, h ▸ h'⟩
  · have below : id.toNat < 65535 := by
      by_contra above
      rw [fromVanillaId, if_neg above] at h
      cases h
    rw [fromVanillaId_of_ge (Nat.le_of_not_lt bound) below, Option.some.injEq] at h
    exact ⟨0, h ▸ vanillaId_air table⟩

/-- The two tables are inverse to each other: an id below 17112 belongs to exactly one block and
that block has exactly this id; air stands for the ids above, and the last id panics. -/
theorem vanilla_ids_inverse (table : VanillaIdTable) (id : BitVec 16) :
    (id.toNat < 17112 → ∃ block : BlockId, block.vanillaId table = some id) ∧
    (∀ block : BlockId, block.vanillaId table = some id ↔
      id.toNat < 17112 ∧ fromVanillaId table id = some block) ∧
    (17112 ≤ id.toNat → fromVanillaId table id = if id = 65535#16 then none else some air) := by
  refine ⟨exists_vanillaId, ?_, ?_⟩
  · intro block
    constructor
    · intro h
      exact ⟨vanillaId_lt h, fromVanillaId_vanillaId h⟩
    · rintro ⟨bound, h⟩
      obtain ⟨block', h'⟩ : ∃ block' : BlockId, block'.vanillaId table = some id :=
        exists_vanillaId bound
      rw [fromVanillaId_vanillaId h', Option.some.injEq] at h
      rw [← h, h']
  · intro bound
    by_cases last : id = 65535#16
    · rw [if_pos last, last]
      rfl
    · have below : id.toNat < 65535 := by
        have := id.isLt
        have : id.toNat ≠ 65535 := fun h => last (BitVec.eq_of_toNat_eq h)
        omega
      rw [if_neg last, fromVanillaId_of_ge bound below]

end BlockId
end FpgaCraft.Server
