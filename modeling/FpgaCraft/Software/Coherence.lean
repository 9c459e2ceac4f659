import Mathlib.Data.Fin.VecNotation
import FpgaCraft.Software.L2

/-! Coherence of the software memory under every sequence of port inputs and resets.
An answer of L3 is in flight for exactly one edge, for a key that no entry carries. -/
namespace FpgaCraft.Software
open Library

variable {P S : Nat} {ram : MockCache} {profile : Profile}

/-- What every edge preserves. The answer in flight belongs to `l3.addrIn`. -/
structure Memory.Valid (ram : MockCache) (profile : Profile) (m : Memory P S) : Prop where
  coherent : Lines.Coherent (ram.block profile) m.l2.entries
  distinct : Lines.Distinct m.l2.entries
  answer : m.l3.validOut = true → ram.block profile m.l3.addrIn = some m.l3.voxelOut
  fresh : m.l3.validOut = true → Lines.Absent m.l3.addrIn m.l2.entries

def L2Cache.PortsAnswered (ram : MockCache) (profile : Profile) (l2 : L2Cache P S) : Prop :=
  ∀ p, l2.validOut p = true →
    l2.readEnableIn p = true ∧ ram.block profile (l2.addrIn p) = some (l2.voxelOut p)

theorem Memory.valid_init [NeZero S] : (Memory.init : Memory P S).Valid ram profile where
  coherent := Lines.coherent_empty _
  distinct := Lines.distinct_empty
  answer := by intro h; cases h
  fresh := by intro h; cases h

theorem Memory.Valid.drive {m : Memory P S} (h : m.Valid ram profile) (i : MemoryIn P) :
    (m.drive i).Valid ram profile :=
  ⟨h.coherent, h.distinct, h.answer, h.fresh⟩

namespace L2Cache

theorem fill_spec [NeZero S] {m : Memory P S} (h : m.Valid ram profile) :
    ∃ filled, m.l2.fill m.l3 = some filled ∧
      filled.addrIn = m.l2.addrIn ∧ filled.readEnableIn = m.l2.readEnableIn ∧
      Lines.Coherent (ram.block profile) filled.entries ∧ Lines.Distinct filled.entries := by
  unfold fill
  by_cases hv : m.l3.validOut = true
  · have habsent := h.fresh hv
    have hnone := Lines.lookup_eq_none_iff.mpr habsent
    rw [if_pos hv, hnone]
    exact ⟨_, rfl, rfl, rfl, h.coherent.replace _ (h.answer hv), h.distinct.replace _ habsent⟩
  · rw [if_neg hv]
    exact ⟨_, rfl, rfl, rfl, h.coherent, h.distinct⟩

theorem respond_validOut (l2 : L2Cache P S) (p : Fin P) :
    l2.respond.validOut p = true ↔
      l2.readEnableIn p = true ∧ (Lines.lookup l2.entries (l2.addrIn p)).isSome = true := by
  simp only [respond]
  split <;> simp_all

theorem respond_answered (l2 : L2Cache P S) (h : Lines.Coherent (ram.block profile) l2.entries) :
    l2.respond.PortsAnswered ram profile := by
  intro p hp
  obtain ⟨hread, hsome⟩ := (l2.respond_validOut p).mp hp
  obtain ⟨voxel, hvoxel⟩ := Option.isSome_iff_exists.mp hsome
  refine ⟨hread, ?_⟩
  have hout : l2.respond.voxelOut p = voxel := by
    simp only [respond, hread, if_true, hvoxel, Option.getD_some]
  rw [hout]
  exact h.lookup hvoxel

theorem arbitrate_fresh (l2 : L2Cache P S) (l3 : L3Cache)
    (h : (l2.respond.arbitrate l3).readEnableIn = true) :
    Lines.Absent (l2.respond.arbitrate l3).addrIn l2.entries := by
  unfold arbitrate at h ⊢
  split at h
  · rename_i p hp
    have hmiss := List.find?_some hp
    simp only [Bool.and_eq_true, Bool.not_eq_true'] at hmiss
    apply Lines.lookup_eq_none_iff.mp
    by_contra hsome
    have : l2.respond.validOut p = true :=
      (l2.respond_validOut p).mpr ⟨hmiss.1, Option.ne_none_iff_isSome.mp hsome⟩
    rw [this] at hmiss
    exact Bool.noConfusion hmiss.2
  · cases h

theorem risingClkEdge_spec [NeZero S] {m : Memory P S} (h : m.Valid ram profile) :
    ∃ l2 l3, m.l2.risingClkEdge false m.l3 = some (l2, l3) ∧
      l2.addrIn = m.l2.addrIn ∧ l2.readEnableIn = m.l2.readEnableIn ∧
      Lines.Coherent (ram.block profile) l2.entries ∧ Lines.Distinct l2.entries ∧
      l2.PortsAnswered ram profile ∧
      (l3.readEnableIn = true → Lines.Absent l3.addrIn l2.entries) := by
  obtain ⟨filled, hfill, haddr, hread, hcoherent, hdistinct⟩ := fill_spec h
  refine ⟨filled.respond, filled.respond.arbitrate m.l3, ?_, haddr, hread, hcoherent, hdistinct,
    filled.respond_answered hcoherent, filled.arbitrate_fresh m.l3⟩
  simp [risingClkEdge, hfill]

end L2Cache

theorem Memory.valid_of_l3 {l2 : L2Cache P S} {l3 l3' : L3Cache}
    (coherent : Lines.Coherent (ram.block profile) l2.entries) (distinct : Lines.Distinct l2.entries)
    (fresh : l3.readEnableIn = true → Lines.Absent l3.addrIn l2.entries)
    (h : l3.risingClkEdge ram profile false = some l3') : Memory.Valid ram profile ⟨l2, l3'⟩ := by
  simp only [L3Cache.risingClkEdge, Bool.false_eq_true, if_false] at h
  by_cases hread : l3.readEnableIn = true
  · simp only [hread, Bool.not_true, Bool.false_eq_true, if_false] at h
    obtain ⟨voxel, hvoxel, heq⟩ := Option.bind_eq_some_iff.mp h
    obtain rfl := Option.some.inj heq
    exact ⟨coherent, distinct, fun _ => hvoxel, fun _ => fresh hread⟩
  · simp only [Bool.not_eq_true] at hread
    simp only [hread, Bool.not_false, if_true, Option.some.injEq] at h
    subst h
    exact ⟨coherent, distinct, fun hv => Bool.noConfusion hv, fun hv => Bool.noConfusion hv⟩

theorem Memory.valid_reset [NeZero S] {m m' : Memory P S} (h : m.risingClkEdge ram profile true = some m') :
    m'.Valid ram profile := by
  simp only [Memory.risingClkEdge, L2Cache.risingClkEdge, L3Cache.risingClkEdge, if_true,
    Option.bind_eq_bind, Option.bind_some, Option.pure_def, Option.some.injEq] at h
  subst h
  exact ⟨Lines.coherent_empty _, Lines.distinct_empty, fun hv => Bool.noConfusion hv,
    fun hv => Bool.noConfusion hv⟩

/-- A non-reset edge: the ports keep what they present and see answers, and the memory
stays valid. -/
theorem Memory.risingClkEdge_spec [NeZero S] {m m' : Memory P S} (valid : m.Valid ram profile)
    (h : m.risingClkEdge ram profile false = some m') :
    m'.Valid ram profile ∧ m'.l2.addrIn = m.l2.addrIn ∧ m'.l2.readEnableIn = m.l2.readEnableIn ∧
      m'.l2.PortsAnswered ram profile := by
  obtain ⟨l2, l3, hedge, haddr, hread, hcoherent, hdistinct, hports, hfresh⟩ :=
    L2Cache.risingClkEdge_spec valid
  simp only [Memory.risingClkEdge, hedge, Option.bind_eq_bind, Option.bind_some] at h
  obtain ⟨l3', hl3, heq⟩ := Option.bind_eq_some_iff.mp h
  obtain rfl := Option.some.inj heq
  exact ⟨Memory.valid_of_l3 hcoherent hdistinct hfresh hl3, haddr, hread, hports⟩

theorem Memory.Valid.tick [NeZero S] {m m' : Memory P S} {i : MemoryIn P} (valid : m.Valid ram profile)
    (h : m.tick ram profile i = some m') : m'.Valid ram profile := by
  unfold Memory.tick at h
  cases hr : i.reset with
  | true => exact Memory.valid_reset (hr ▸ h)
  | false => exact (Memory.risingClkEdge_spec (valid.drive i) (hr ▸ h)).1

theorem Memory.valid_run [NeZero S] {history : List (MemoryIn P)} {m : Memory P S}
    (h : run (Memory.tick ram profile) history Memory.init = some m) : m.Valid ram profile :=
  run_preserves (fun _ _ _ (_ : True) valid hstep => valid.tick hstep)
    (fun _ _ => trivial) Memory.valid_init h

/-- After every non-reset L2 edge of every run, each occupied entry holds what L3 answers
for its key, and a valid port holds what L3 answers for the address it presented. -/
theorem l2_coherent [NeZero S] (ram : MockCache) (profile : Profile) (history : List (MemoryIn P))
    (m : Memory P S) (hrun : run (Memory.tick ram profile) history Memory.init = some m)
    (i : MemoryIn P) :
    ∃ l2 l3, (m.drive i).l2.risingClkEdge false (m.drive i).l3 = some (l2, l3) ∧
      Lines.Coherent (ram.block profile) l2.entries ∧
      ∀ p, l2.validOut p = true →
        i.readEnableIn p = true ∧ ram.block profile (i.addrIn p) = some (l2.voxelOut p) := by
  obtain ⟨l2, l3, hedge, haddr, hread, hcoherent, -, hports, -⟩ :=
    L2Cache.risingClkEdge_spec ((Memory.valid_run hrun).drive i)
  refine ⟨l2, l3, hedge, hcoherent, fun p hp => ?_⟩
  have h := hports p hp
  rw [haddr, hread] at h
  exact h

/-- Two ports of a one-entry cache ask for different voxels of a stone chunk; after two
edges the entry holds the voxel of port 0, and the next edge answers it. -/
theorem l2_coherent_stone :
    let ram : MockCache := ⟨fun _ => .stone⟩
    let ports : MemoryIn 2 := ⟨false, ![0, ⟨0, 0, ⟨40, by decide, by decide⟩⟩], fun _ => true⟩
    ∃ m : Memory 2 1, run (Memory.tick ram .debug) [ports, ports] Memory.init = some m ∧
      ∃ l2 l3, (m.drive ports).l2.risingClkEdge false (m.drive ports).l3 = some (l2, l3) ∧
        Lines.Coherent (ram.block .debug) l2.entries ∧
        ∀ p, l2.validOut p = true →
          ports.readEnableIn p = true ∧ ram.block .debug (ports.addrIn p) = some (l2.voxelOut p) := by
  intro ram ports
  have h : (run (Memory.tick ram .debug) [ports, ports] (Memory.init : Memory 2 1)).isSome := by
    decide +kernel
  obtain ⟨m, hm⟩ := Option.isSome_iff_exists.mp h
  exact ⟨m, hm, l2_coherent ram .debug [ports, ports] m hm ports⟩

/-- Between the edges of every run and after every L2 edge no key is held twice; the edge
never stops at the assertion that says so. -/
theorem l2_keys_distinct [NeZero S] (ram : MockCache) (profile : Profile)
    (history : List (MemoryIn P)) (m : Memory P S)
    (hrun : run (Memory.tick ram profile) history Memory.init = some m) (i : MemoryIn P) :
    Lines.Distinct m.l2.entries ∧
      ∃ l2 l3, (m.drive i).l2.risingClkEdge i.reset (m.drive i).l3 = some (l2, l3) ∧
        Lines.Distinct l2.entries := by
  have valid := Memory.valid_run hrun
  refine ⟨valid.distinct, ?_⟩
  cases i.reset with
  | true => exact ⟨_, _, rfl, Lines.distinct_empty⟩
  | false =>
    obtain ⟨l2, l3, hedge, -, -, -, distinct, -⟩ := L2Cache.risingClkEdge_spec (valid.drive i)
    exact ⟨l2, l3, hedge, distinct⟩

/-- Both ports miss on one voxel, which is in flight when the request is withdrawn and made
again. -/
theorem l2_keys_distinct_stone :
    let ram : MockCache := ⟨fun _ => .stone⟩
    let ports (reads : Bool) : MemoryIn 2 := ⟨false, fun _ => 0, fun _ => reads⟩
    ∃ m : Memory 2 2,
      run (Memory.tick ram .debug) [ports true, ports false, ports true] Memory.init = some m ∧
        Lines.Distinct m.l2.entries ∧
        ∃ l2 l3, (m.drive (ports true)).l2.risingClkEdge false (m.drive (ports true)).l3 =
          some (l2, l3) ∧ Lines.Distinct l2.entries := by
  intro ram ports
  have h : (run (Memory.tick ram .debug) [ports true, ports false, ports true]
      (Memory.init : Memory 2 2)).isSome := by
    decide +kernel
  obtain ⟨m, hm⟩ := Option.isSome_iff_exists.mp h
  exact ⟨m, hm, l2_keys_distinct ram .debug _ m hm (ports true)⟩

end FpgaCraft.Software
