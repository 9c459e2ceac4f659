import FpgaCraft.Software.Coherence
import FpgaCraft.Software.Vtu

/-! The units are clocked one after the other on the memory they share. A unit reads the
outputs of its own port and writes the inputs of its own port, so the order is not
observable: every unit steps on the memory as L2 left it. -/
namespace FpgaCraft.Software
open Library

variable {P S : Nat} {ram : MockCache} {profile : Profile}

structure L2Cache.SameLines (l2 l2' : L2Cache P S) : Prop where
  entries : l2'.entries = l2.entries
  validOut : l2'.validOut = l2.validOut
  voxelOut : l2'.voxelOut = l2.voxelOut

namespace Cluster

/-- The effect of an edge on unit `i` and on the inputs of its port. -/
structure Stepped (profile : Profile) (reset : Bool) (i : Fin P)
    (vtu vtu' : Fin P → VoxelTraversalUnit) (l2 l2' : L2Cache P S) (w : PortWrite) : Prop where
  edge : (vtu i).edge profile reset (l2.validOut i) (l2.voxelOut i) = some (vtu' i, w)
  readEnable : l2'.readEnableIn i = w.readEnable (l2.readEnableIn i)
  addr : l2'.addrIn i = w.addr (l2.addrIn i)

theorem clockVtus_spec {reset : Bool} (units : List (Fin P)) (nodup : units.Nodup)
    {vtu vtu' : Fin P → VoxelTraversalUnit} {l2 l2' : L2Cache P S}
    (h : clockVtus profile reset units vtu l2 = some (vtu', l2')) :
    l2.SameLines l2' ∧ (∀ i ∈ units, ∃ w, Stepped profile reset i vtu vtu' l2 l2' w) ∧
      ∀ i ∉ units, vtu' i = vtu i ∧ l2'.readEnableIn i = l2.readEnableIn i ∧
        l2'.addrIn i = l2.addrIn i := by
  induction units generalizing vtu l2 with
  | nil =>
    obtain ⟨rfl, rfl⟩ := Prod.mk.inj (Option.some.inj h)
    exact ⟨⟨rfl, rfl, rfl⟩, fun i hi => (List.not_mem_nil hi).elim, fun i _ => ⟨rfl, rfl, rfl⟩⟩
  | cons k rest ih =>
    obtain ⟨hk, hrest⟩ := List.nodup_cons.mp nodup
    obtain ⟨⟨unit, l2k⟩, hunit, htail⟩ := Option.bind_eq_some_iff.mp h
    obtain ⟨⟨unit', w⟩, hedge, heq⟩ := Option.bind_eq_some_iff.mp hunit
    obtain ⟨rfl, rfl⟩ := Prod.mk.inj (Option.some.inj heq)
    obtain ⟨same, stepped, untouched⟩ := ih hrest htail
    refine ⟨⟨same.entries, same.validOut, same.voxelOut⟩, fun i hi => ?_, fun i hi => ?_⟩
    · by_cases hik : i = k
      · subst hik
        obtain ⟨hvtu, hread, haddr⟩ := untouched i hk
        refine ⟨w, ?_, ?_, ?_⟩
        · rw [hvtu, Function.update_self]
          exact hedge
        · simpa [L2Cache.write] using hread
        · simpa [L2Cache.write] using haddr
      · obtain ⟨w', step⟩ := stepped i ((List.mem_cons.mp hi).resolve_left hik)
        refine ⟨w', ?_, ?_, ?_⟩
        · have hstep := step.edge
          rw [Function.update_of_ne hik] at hstep
          exact hstep
        · simpa [L2Cache.write, Function.update_of_ne hik] using step.readEnable
        · simpa [L2Cache.write, Function.update_of_ne hik] using step.addr
    · have hik : i ≠ k := fun heq => hi (heq ▸ List.mem_cons_self)
      obtain ⟨hvtu, hread, haddr⟩ := untouched i fun hmem => hi (List.mem_cons_of_mem k hmem)
      exact ⟨by rw [hvtu, Function.update_of_ne hik],
        by simpa [L2Cache.write, Function.update_of_ne hik] using hread,
        by simpa [L2Cache.write, Function.update_of_ne hik] using haddr⟩

theorem valid_of_sameLines {memory : Memory P S} {l2 : L2Cache P S} (same : memory.l2.SameLines l2)
    (valid : memory.Valid ram profile) : Memory.Valid ram profile ⟨l2, memory.l3⟩ where
  coherent := by rw [same.entries]; exact valid.coherent
  distinct := by rw [same.entries]; exact valid.distinct
  answer := valid.answer
  fresh := by rw [same.entries]; exact valid.fresh

variable [NeZero S]

/-- One edge of the cluster: one edge of the memory, on which every unit then steps. -/
theorem risingClkEdge_spec {reset : Bool} {c c' : Cluster P S}
    (h : c.risingClkEdge ram profile reset = some c') :
    ∃ memory, c.memory.risingClkEdge ram profile reset = some memory ∧
      memory.l2.SameLines c'.memory.l2 ∧ c'.memory.l3 = memory.l3 ∧
      ∀ i, ∃ w, Stepped profile reset i c.vtu c'.vtu memory.l2 c'.memory.l2 w := by
  obtain ⟨memory, hmemory, hrest⟩ := Option.bind_eq_some_iff.mp h
  obtain ⟨⟨vtu, l2⟩, hvtus, heq⟩ := Option.bind_eq_some_iff.mp hrest
  obtain rfl := Option.some.inj heq
  obtain ⟨same, stepped, -⟩ := clockVtus_spec _ (List.nodup_finRange P) hvtus
  exact ⟨memory, hmemory, same, rfl, fun i => stepped i (List.mem_finRange i)⟩

/-- The memory under the units is valid after a reset, and stays so whatever they request. -/
theorem valid_risingClkEdge {reset : Bool} {c c' : Cluster P S}
    (valid : reset = false → c.memory.Valid ram profile)
    (h : c.risingClkEdge ram profile reset = some c') : c'.memory.Valid ram profile := by
  obtain ⟨memory, hmemory, same, hl3, -⟩ := risingClkEdge_spec h
  have hvalid : memory.Valid ram profile := by
    cases reset with
    | true => exact Memory.valid_reset hmemory
    | false => exact (Memory.risingClkEdge_spec (valid rfl) hmemory).1
  have := valid_of_sameLines same hvalid
  rw [← hl3] at this
  exact this

/-- What a unit sees at a non-reset edge: its port answers the address it requested. -/
theorem unit_step {c c' : Cluster P S} (valid : c.memory.Valid ram profile)
    (h : c.risingClkEdge ram profile false = some c') (i : Fin P) :
    ∃ ready voxel w, (c.vtu i).edge profile false ready voxel = some (c'.vtu i, w) ∧
      c'.memory.l2.readEnableIn i = w.readEnable (c.memory.l2.readEnableIn i) ∧
      c'.memory.l2.addrIn i = w.addr (c.memory.l2.addrIn i) ∧
      (ready = true → ram.block profile (c.memory.l2.addrIn i) = some voxel) := by
  obtain ⟨memory, hmemory, -, -, hunits⟩ := risingClkEdge_spec h
  obtain ⟨-, haddr, hread, hports⟩ := Memory.risingClkEdge_spec valid hmemory
  obtain ⟨w, step⟩ := hunits i
  refine ⟨_, _, w, step.edge, ?_, ?_, fun hready => ?_⟩
  · rw [step.readEnable, hread]
  · rw [step.addr, haddr]
  · rw [← haddr]
    exact (hports i hready).2

end Cluster
end FpgaCraft.Software
