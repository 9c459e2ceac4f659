import FpgaCraft.Hardware.Walk

/-! ## The traversal unit refines the sequential walk

A voxel takes four cycles: the one that tests it and three in which the address of the
next one comes through the pipeline of the chunk. -/
namespace FpgaCraft.Hardware
open Library

variable {rom : Rom} {setup : RaySetup} {n : Nat}

structure Finished (outcome : BlockType × Vec3) (v : Vtu) : Prop where
  state : v.state = .idle
  hitValid : v.hitValid = true
  hit : (v.hit, v.hitNorm) = outcome

namespace Traversing
variable {w : Walk} {v : Vtu}

theorem tooFar_eq (h : Traversing setup n w v) (hn : n ≤ 60) : v.tooFar = v := by
  refine if_neg ?_
  rw [h.numSteps, BitVec.toNat_ofNat]
  omega

theorem wait (h : Traversing setup n w v) (hn : n ≤ 60) (out : BlockType) :
    v.traversingEdge false out = v := h.tooFar_eq hn

theorem move (h : Traversing setup n w v) (hn : n ≤ 60) :
    Traversing setup (n + 1) (w.advance setup.rayStep setup.rayDDt)
      (v.traversingEdge true BLOCK_AIR) := by
  have hedge : v.traversingEdge true BLOCK_AIR =
      { v with walk := v.walk.advance v.rayStep v.rayDDt, numSteps := v.numSteps + 1 } := by
    simp only [Vtu.traversingEdge, h.tooFar_eq hn, if_true, ne_eq, not_true_eq_false, if_false]
  rw [hedge]
  refine ⟨h.state, h.rayStep, h.rayDDt, ?_, ?_, h.hitValid, h.ramReadEnable⟩
  · change v.walk.advance v.rayStep v.rayDDt = _
    rw [h.rayStep, h.rayDDt, h.walk]
  · change v.numSteps + 1 = _
    rw [h.numSteps, BitVec.ofNat_add]
    rfl

theorem solid (h : Traversing setup n w v) {out : BlockType} (hsolid : out ≠ BLOCK_AIR) :
    Finished (out, hitNormal w.lastStep setup.rayStep) (v.traversingEdge true out) := by
  rw [← h.walk, ← h.rayStep]
  simp only [Vtu.traversingEdge, if_true, if_pos hsolid]
  exact ⟨rfl, rfl, rfl⟩

theorem tooFar (h : Traversing setup 61 w v) (out : BlockType) :
    Finished (BLOCK_AIR, 0) (v.traversingEdge false out) := by
  have hfar : 60 < v.numSteps.toNat := by
    rw [h.numSteps]
    decide
  simp only [Vtu.traversingEdge, Vtu.tooFar, if_pos hfar]
  exact ⟨rfl, rfl, rfl⟩

end Traversing

theorem Finished.withPipelines {outcome : BlockType × Vec3} {v : Vtu} (h : Finished outcome v)
    (m : Normalize) (r : RecipLte1) :
    Finished outcome { v with normalizeRayDir := m, recip := r } := ⟨h.state, h.hitValid, h.hit⟩

namespace Caster
variable {i : CasterIn} {j : Nat} {c : Caster}

/-- The unit is at voxel `n`, whose address it has presented for `j` cycles. -/
structure Fetching (rom : Rom) (setup : RaySetup) (n j : Nat) (c : Caster) : Prop where
  vtu : Traversing setup n (setup.walkAt n) c.vtu
  chunk : c.chunk.Delivering rom (setup.posAt n).blockPos j

structure Waiting (rom : Rom) (setup : RaySetup) (n j : Nat) (c : Caster) : Prop
    extends c.Fetching rom setup n j where
  leaving : ∃ old, old ≠ (setup.posAt n).blockPos ∧ c.chunk.Leaving old j

theorem Fetching.ramAddr (h : c.Fetching rom setup n j) : c.vtu.ramAddr = (setup.posAt n).blockPos :=
  congrArg (fun w : Walk => w.rayPos.blockPos) h.vtu.walk

theorem Fetching.answered (h : c.Fetching rom setup n 3) :
    c.ramValid = true ∧ c.chunk.out = setup.blockAt rom n := by
  obtain ⟨hpipe, hout⟩ := h.chunk.pipe2 le_rfl
  exact ⟨Chunk.valid_eq_true.mpr ⟨h.vtu.ramReadEnable, h.ramAddr.trans hpipe.symm⟩, hout⟩

theorem Waiting.unanswered (h : c.Waiting rom setup n j) (hj : j < 3) : c.ramValid = false := by
  obtain ⟨old, hold, hleaving⟩ := h.leaving
  refine Bool.eq_false_iff.mpr fun hvalid => hold ?_
  obtain ⟨-, haddr⟩ := Chunk.valid_eq_true.mp hvalid
  exact (hleaving.pipe2 hj).symm.trans (haddr.symm.trans h.ramAddr)

theorem control_held (hstate : c.vtu.state = .traversing) :
    c.vtu.control (c.vtuIn i.held) = c.vtu.traversingEdge c.ramValid c.chunk.out :=
  Vtu.control_traversing rfl hstate

theorem Waiting.edge (h : c.Waiting rom setup n j) (hj : j < 3) (hn : n ≤ 60) :
    (c.risingClkEdge rom i.held).Waiting rom setup n (j + 1) := by
  have hvtu := h.vtu.withPipelines
  rw [← h.vtu.wait hn c.chunk.out, ← h.unanswered hj, ← control_held h.vtu.state] at hvtu
  obtain ⟨old, hold, hleaving⟩ := h.leaving
  exact ⟨⟨hvtu _ _, h.chunk.risingClkEdge rfl h.ramAddr⟩, old, hold, hleaving.risingClkEdge rfl⟩

theorem Fetching.move (h : c.Fetching rom setup n 3) (hsteps : setup.HasSteps) (hn : n ≤ 60)
    (hair : setup.blockAt rom n = BLOCK_AIR) :
    (c.risingClkEdge rom i.held).Waiting rom setup (n + 1) 0 := by
  obtain ⟨hvalid, hout⟩ := h.answered
  have hvtu := (h.vtu.move hn).withPipelines
  rw [← RaySetup.walkAt_succ, ← hair, ← hout, ← hvalid, ← control_held h.vtu.state] at hvtu
  have hchunk := (h.chunk.risingClkEdge (i := c.chunkIn false) rfl h.ramAddr)
  exact ⟨⟨hvtu _ _, Chunk.delivering_zero _ _⟩, _, hsteps.blockPos_ne n,
    (hchunk.weaken (by omega)).leaving⟩

theorem Fetching.solid (h : c.Fetching rom setup n 3) (hsolid : setup.blockAt rom n ≠ BLOCK_AIR) :
    Finished (setup.blockAt rom n, hitNormal (setup.walkAt n).lastStep setup.rayStep)
      (c.risingClkEdge rom i.held).vtu := by
  obtain ⟨hvalid, hout⟩ := h.answered
  have hvtu := (h.vtu.solid hsolid).withPipelines
  rw [← hvalid, ← hout, ← control_held h.vtu.state, hout] at hvtu
  exact hvtu _ _

theorem Waiting.tooFar (h : c.Waiting rom setup 61 0) :
    Finished (BLOCK_AIR, 0) (c.risingClkEdge rom i.held).vtu := by
  have hvtu := (h.vtu.tooFar c.chunk.out).withPipelines
  rw [← h.unanswered (by omega), ← control_held h.vtu.state] at hvtu
  exact hvtu _ _

theorem finished_edge {outcome : BlockType × Vec3} (h : Finished outcome c.vtu) :
    Finished outcome (c.risingClkEdge rom i.held).vtu := by
  have hvtu := h.withPipelines
  rw [← Vtu.control_idle (i := c.vtuIn i.held) rfl h.state] at hvtu
  exact hvtu _ _

theorem Fetching.tested (h : c.Fetching rom setup n 3) :
    c.tested i.held = some (setup.testAt rom n) := by
  obtain ⟨hvalid, hout⟩ := h.answered
  refine (if_pos ⟨rfl, h.vtu.state, hvalid⟩).trans ?_
  rw [hout, h.vtu.walk]
  rfl

theorem Waiting.tested (h : c.Waiting rom setup n j) (hj : j < 3) : c.tested i = none := by
  refine if_neg fun ⟨_, _, hvalid⟩ => ?_
  exact Bool.false_ne_true ((h.unanswered hj).symm.trans hvalid)

theorem tested_of_state (h : c.vtu.state ≠ .traversing) : c.tested i = none :=
  if_neg fun ⟨_, hstate, _⟩ => h hstate

end Caster

section Launch
variable {i : CasterIn} (s : Caster)

theorem launch_edge {k : Nat} (hk : 0 < k) :
    trace (Caster.risingClkEdge rom) (launch i) s (k + 1) =
      (trace (Caster.risingClkEdge rom) (launch i) s k).risingClkEdge rom i.held := by
  obtain ⟨k, rfl⟩ := Nat.exists_eq_add_of_lt hk
  rw [trace_succ, Nat.zero_add, launch_succ]

theorem launch_delivering (hrst : i.resets = true) {k : Nat} (hk : k ≤ 13) :
    (trace (Caster.risingClkEdge rom) (launch i) s (k + 1)).chunk.Delivering rom
      (i.setup.posAt 0).blockPos k := by
  induction k with
  | zero => exact Chunk.delivering_zero _ _
  | succ k ih =>
    have hinit := launch_initialising rom s hrst (k := k) (by omega)
    rw [launch_edge s (Nat.succ_pos k)]
    refine (ih (by omega)).risingClkEdge rfl ?_
    exact hinit.ramAddr

structure Reached (rom : Rom) (i : CasterIn) (s : Caster) (n : Nat) : Prop where
  fetching : (trace (Caster.risingClkEdge rom) (launch i) s (14 + 4 * n)).Fetching rom i.setup n 3
  quiet : ∀ k, k < 14 + 4 * n →
    (trace (Caster.risingClkEdge rom) (launch i) s (k + 1)).vtu.hitValid = false
  tested : events (Caster.risingClkEdge rom) Caster.tested (launch i) s (14 + 4 * n) =
    (List.range n).map (i.setup.testAt rom)

theorem Reached.tested_succ {n : Nat} (h : Reached rom i s n) :
    events (Caster.risingClkEdge rom) Caster.tested (launch i) s (14 + 4 * n + 1) =
      (List.range (n + 1)).map (i.setup.testAt rom) := by
  rw [events_succ, launch_of_pos i (k := 14 + 4 * n) (by omega), h.fetching.tested, h.tested,
    List.range_succ, List.map_append]
  rfl

theorem reached_zero (hrst : i.resets = true) : Reached rom i s 0 := by
  have htraversing := launch_traversing rom s hrst
  refine ⟨⟨htraversing, (launch_delivering s hrst le_rfl).weaken (by omega)⟩, fun k hk => ?_, ?_⟩
  · rcases Nat.lt_or_ge k 13 with hk' | hk'
    · exact (launch_initialising rom s hrst (by omega)).hitValid
    · obtain rfl : k = 13 := by omega
      exact htraversing.hitValid
  · have hnone : events (Caster.risingClkEdge rom) Caster.tested (launch i) s (0 + 14) =
        events (Caster.risingClkEdge rom) Caster.tested (launch i) s 0 := by
      refine events_add_of_none fun k hk => ?_
      rw [Nat.zero_add]
      cases k with
      | zero => exact if_neg fun ⟨hoff, _⟩ => Bool.false_ne_true (hoff.symm.trans hrst)
      | succ k =>
        refine Caster.tested_of_state fun hstate => ?_
        rw [(launch_initialising rom s hrst (by omega)).state] at hstate
        cases hstate
    exact hnone

theorem Reached.next {n : Nat} (h : Reached rom i s n) (hn : n < 60)
    (hair : i.setup.blockAt rom n = BLOCK_AIR) : Reached rom i s (n + 1) := by
  have hsteps : i.setup.HasSteps := RaySetup.hasSteps_raySetup _ _
  have h₁ := h.fetching.move (i := i) hsteps (by omega) hair
  rw [← launch_edge s (k := 14 + 4 * n) (by omega)] at h₁
  have h₂ := h₁.edge (i := i) (by omega) (by omega)
  rw [← launch_edge s (k := 14 + 4 * n + 1) (by omega)] at h₂
  have h₃ := h₂.edge (i := i) (by omega) (by omega)
  rw [← launch_edge s (k := 14 + 4 * n + 2) (by omega)] at h₃
  have h₄ := h₃.edge (i := i) (by omega) (by omega)
  rw [← launch_edge s (k := 14 + 4 * n + 3) (by omega)] at h₄
  have hround : 14 + 4 * (n + 1) = 14 + 4 * n + 4 := by omega
  refine ⟨hround ▸ h₄.toFetching, fun k hk => ?_, ?_⟩
  · rcases Nat.lt_or_ge k (14 + 4 * n) with hk' | hk'
    · exact h.quiet k hk'
    · obtain rfl | rfl | rfl | rfl : k = 14 + 4 * n ∨ k = 14 + 4 * n + 1 ∨ k = 14 + 4 * n + 2 ∨
          k = 14 + 4 * n + 3 := by omega
      · exact h₁.vtu.hitValid
      · exact h₂.vtu.hitValid
      · exact h₃.vtu.hitValid
      · exact h₄.vtu.hitValid
  · rw [hround, ← h.tested_succ]
    have hquiet : events (Caster.risingClkEdge rom) Caster.tested (launch i) s (14 + 4 * n + 1 + 3) =
        events (Caster.risingClkEdge rom) Caster.tested (launch i) s (14 + 4 * n + 1) := by
      refine events_add_of_none fun k hk => ?_
      obtain rfl | rfl | rfl : k = 0 ∨ k = 1 ∨ k = 2 := by omega
      · exact h₁.tested (by omega)
      · exact h₂.tested (by omega)
      · exact h₃.tested (by omega)
    exact hquiet

theorem reached (hrst : i.resets = true) {n : Nat} (hn : n ≤ 60)
    (hair : ∀ m, m < n → i.setup.blockAt rom m = BLOCK_AIR) : Reached rom i s n := by
  induction n with
  | zero => exact reached_zero s hrst
  | succ n ih =>
    exact (ih (by omega) fun m hm => hair m (by omega)).next s (by omega) (hair n (by omega))

structure Ended (rom : Rom) (i : CasterIn) (s : Caster) : Prop where
  finished : Finished (i.setup.cast rom)
    (trace (Caster.risingClkEdge rom) (launch i) s (i.setup.latency rom + 1)).vtu
  quiet : ∀ k, k < i.setup.latency rom →
    (trace (Caster.risingClkEdge rom) (launch i) s (k + 1)).vtu.hitValid = false
  tested : events (Caster.risingClkEdge rom) Caster.tested (launch i) s (i.setup.latency rom + 1) =
    (List.range (i.setup.voxels rom)).map (i.setup.testAt rom)

theorem Reached.solid {n : Nat} (h : Reached rom i s n) (hfirst : i.setup.firstSolid rom = some n) :
    Ended rom i s := by
  have hsolid := (RaySetup.firstSolid_eq_some hfirst).1
  have hlatency := RaySetup.latency_of_some hfirst
  refine ⟨?_, ?_, ?_⟩
  · rw [hlatency, launch_edge s (by omega), RaySetup.cast_of_some hfirst]
    exact h.fetching.solid hsolid
  · rw [hlatency]
    exact h.quiet
  · rw [hlatency, RaySetup.voxels_of_some hfirst, h.tested_succ]

theorem Reached.tooFar (h : Reached rom i s 60) (hfirst : i.setup.firstSolid rom = none) :
    Ended rom i s := by
  have hair := RaySetup.firstSolid_eq_none hfirst le_rfl
  have hlatency := RaySetup.latency_of_none hfirst
  have h₁ := h.fetching.move (i := i) (RaySetup.hasSteps_raySetup _ _) (by omega) hair
  rw [← launch_edge s (k := 14 + 4 * 60) (by omega)] at h₁
  refine ⟨?_, fun k hk => ?_, ?_⟩
  · rw [hlatency, launch_edge s (by omega), RaySetup.cast_of_none hfirst]
    exact h₁.tooFar
  · rw [hlatency] at hk
    rcases Nat.lt_or_ge k 254 with hk' | hk'
    · exact h.quiet k hk'
    · obtain rfl : k = 254 := by omega
      exact h₁.vtu.hitValid
  · have hquiet := h₁.tested (i := launch i 255) (by omega)
    rw [hlatency, RaySetup.voxels_of_none hfirst, events_succ, h.tested_succ, hquiet, Option.toList_none,
      List.append_nil]

theorem ended (hrst : i.resets = true) : Ended rom i s := by
  cases hfirst : i.setup.firstSolid rom with
  | none =>
    exact (reached s hrst le_rfl fun m hm => RaySetup.firstSolid_eq_none hfirst hm.le).tooFar s hfirst
  | some n =>
    obtain ⟨-, hmem, hbefore⟩ := RaySetup.firstSolid_eq_some hfirst
    exact (reached s hrst hmem hbefore).solid s hfirst

variable {k : Nat}

theorem launch_finished (hrst : i.resets = true) (hk : i.setup.latency rom ≤ k) :
    Finished (i.setup.cast rom) (trace (Caster.risingClkEdge rom) (launch i) s (k + 1)).vtu := by
  induction k, hk using Nat.le_induction with
  | base => exact (ended s hrst).finished
  | succ k hk ih =>
    rw [launch_edge s (Nat.succ_pos k)]
    exact Caster.finished_edge ih

theorem launch_hitValid (rom : Rom) (hrst : i.resets = true) (k : Nat) :
    (trace (Caster.risingClkEdge rom) (launch i) s (k + 1)).vtu.hitValid =
      decide (i.setup.latency rom ≤ k) := by
  by_cases hk : i.setup.latency rom ≤ k
  · rw [(launch_finished s hrst hk).hitValid, decide_eq_true hk]
  · rw [(ended s hrst).quiet k (by omega), decide_eq_false hk]

theorem launch_tests (hrst : i.resets = true) (hk : i.setup.latency rom ≤ k) :
    events (Caster.risingClkEdge rom) Caster.tested (launch i) s (k + 1) =
      (List.range (i.setup.voxels rom)).map (i.setup.testAt rom) := by
  obtain ⟨m, rfl⟩ := Nat.exists_eq_add_of_le hk
  have hquiet : events (Caster.risingClkEdge rom) Caster.tested (launch i) s
      (i.setup.latency rom + 1 + m) =
        events (Caster.risingClkEdge rom) Caster.tested (launch i) s (i.setup.latency rom + 1) := by
    refine events_add_of_none fun j _ => Caster.tested_of_state fun hstate => ?_
    have hidle : Finished (i.setup.cast rom)
        (trace (Caster.risingClkEdge rom) (launch i) s (i.setup.latency rom + j + 1)).vtu :=
      launch_finished s hrst (Nat.le_add_right _ j)
    rw [Nat.add_right_comm, hidle.state] at hstate
    cases hstate
  rw [Nat.add_right_comm, hquiet, (ended s hrst).tested]

theorem voxels_nodup (rom : Rom) (i : CasterIn) :
    ((List.range (i.setup.voxels rom)).map i.setup.posAt).Nodup := by
  have hsteps : i.setup.HasSteps := RaySetup.hasSteps_raySetup _ _
  have hvoxels := RaySetup.voxels_le rom i.setup
  refine List.Nodup.map_on (fun m hm n hn heq => ?_) List.nodup_range
  rw [List.mem_range] at hm hn
  exact hsteps.posAt_injective (by omega) (by omega) heq

end Launch

/-- From any contents of the registers, a ray that is held from a reset on walks through
the voxels in order, each against its own word, and ends at the first that is not air. -/
theorem caster_refines_walk (rom : Rom) (s : Caster) (i : CasterIn) (hrst : i.resets = true) :
    let run := trace (Caster.risingClkEdge rom) (launch i) s
    let setup := i.setup
    ((∀ k, k < 13 → (run (k + 1)).vtu.state = .init) ∧ (run 14).vtu.state = .traversing ∧
      (run 14).vtu.rayStep = setup.rayStep ∧ (run 14).vtu.rayDDt = setup.rayDDt ∧
      (run 14).vtu.walk = setup.walkAt 0 ∧ setup.posAt 0 = vfloor i.rayOrigin) ∧
    (∃ done, (∀ k, k < done → (run (k + 1)).vtu.hitValid = false) ∧
      ∀ k, done ≤ k → (run (k + 1)).vtu.hitValid = true ∧
        ((run (k + 1)).vtu.hit, (run (k + 1)).vtu.hitNorm) = setup.cast rom ∧
        events (Caster.risingClkEdge rom) Caster.tested (launch i) s (k + 1) =
          (List.range (setup.voxels rom)).map (setup.testAt rom)) ∧
    ((List.range (setup.voxels rom)).map setup.posAt).Nodup := by
  intro run setup
  have htraversing := launch_traversing rom s hrst
  refine ⟨⟨fun k hk => (launch_initialising rom s hrst (by omega)).state, htraversing.state,
    htraversing.rayStep, htraversing.rayDDt, htraversing.walk, rfl⟩, ?_, voxels_nodup rom i⟩
  refine ⟨setup.latency rom, (ended s hrst).quiet, fun k hk => ?_⟩
  have hfinished := launch_finished s hrst hk
  exact ⟨hfinished.hitValid, hfinished.hit, launch_tests s hrst hk⟩

theorem caster_refines_walk_stone :
    let i : CasterIn := ⟨true, false, 0, ⟨FIXED_1, 0, 0⟩⟩
    let run := trace (Caster.risingClkEdge fun _ => BLOCK_STONE) (launch i) Caster.powerUp
    ∃ done, ∀ k, done ≤ k → (run (k + 1)).vtu.hitValid = true ∧
      ((run (k + 1)).vtu.hit, (run (k + 1)).vtu.hitNorm) = (BLOCK_STONE, 0) := by
  intro i run
  obtain ⟨-, ⟨done, -, hdone⟩, -⟩ := caster_refines_walk (fun _ => BLOCK_STONE) Caster.powerUp i rfl
  exact ⟨done, fun k hk => ⟨(hdone k hk).1, (hdone k hk).2.1⟩⟩

end FpgaCraft.Hardware
