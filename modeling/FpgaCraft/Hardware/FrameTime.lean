import FpgaCraft.Hardware.Frame
import Mathlib.Algebra.BigOperators.Group.List.Basic
import Mathlib.Algebra.Order.BigOperators.Group.List
import Mathlib.Algebra.Order.Ring.Nat

/-! ## The time a frame takes

A ray is on its way for the latency of the unit and two cycles of the orchestrator, so the
cycle of `frame_done` is a sum over the pixels. -/
namespace FpgaCraft.Hardware
open Library

namespace RaySetup
variable {rom : Rom}

theorem latency_bounds (setup : RaySetup) : 14 ≤ setup.latency rom ∧ setup.latency rom ≤ 255 := by
  cases hfirst : setup.firstSolid rom with
  | none =>
    rw [latency_of_none hfirst]
    omega
  | some n =>
    have hle := (firstSolid_eq_some hfirst).2.1
    rw [latency_of_some hfirst]
    omega

theorem latency_air (setup : RaySetup) : setup.latency (fun _ => BLOCK_AIR) = 255 := by
  apply latency_of_none
  rw [firstSolid, List.find?_eq_none]
  intro n _
  simp [blockAt, Chunk.word]

end RaySetup
namespace Orchestrator
variable {U : TraversalUnit} {frame o m : Orchestrator U} {inputs : Nat → OrchestratorIn} {n t : Nat}

def pixelTime (frame : Orchestrator U) (a : Nat) : Nat := frame.pixelLatency a + 2

def firstTime (frame o : Orchestrator U) : Nat := if o.stale then 0 else frame.pixelTime 0

def launchTime (frame o : Orchestrator U) (n : Nat) : Nat :=
  19 + firstTime frame o + ((List.range (n - 1)).map frame.pixelTime).sum

def doneTime (frame o : Orchestrator U) : Nat := launchTime frame o FRAME_AREA + 1

theorem launchTime_succ (frame o : Orchestrator U) (hn : 0 < n) :
    launchTime frame o (n + 1) = launchTime frame o n + (frame.pixelLatency (n - 1) + 2) := by
  have hsum : ((List.range n).map frame.pixelTime).sum =
      ((List.range (n - 1)).map frame.pixelTime).sum + (frame.pixelLatency (n - 1) + 2) := by
    rw [← Nat.sub_add_cancel hn, List.range_succ, List.map_append, List.sum_append, List.map_singleton,
      List.sum_singleton, Nat.add_sub_cancel]
    rfl
  rw [launchTime, launchTime, Nat.add_sub_cancel, hsum, ← Nat.add_assoc]

section Run
variable (hrst : (inputs 0).rst = true) (hquiet : ∀ j, 0 < j → (inputs j).rst = false)
include hrst hquiet

theorem notDone_nineteen : NotDone inputs o 19 := by
  intro k hk hk'
  rcases Nat.lt_or_ge k 19 with hlt | hge
  · obtain ⟨n, rfl⟩ := Nat.exists_eq_add_of_lt hk
    rw [Nat.zero_add]
    exact (warming (o := o) hrst (by omega) fun j hj _ => hquiet j hj).frameDone
  · obtain rfl : k = 19 := by omega
    exact (launched_first (o := o) hrst hquiet).1.frameDone

theorem launched_one : Launched (trace risingClkEdge inputs o 18) 1
      (trace risingClkEdge inputs o (launchTime (trace risingClkEdge inputs o 18) o 1)) ∧
    NotDone inputs o (launchTime (trace risingClkEdge inputs o 18) o 1) := by
  have hlaunched := (launched_first (o := o) hrst hquiet).1
  have hnotDone := notDone_nineteen (o := o) hrst hquiet
  simp only [launchTime, firstTime, Nat.sub_self, List.range_zero, List.map_nil, List.sum_nil, Nat.add_zero]
  cases hstale : o.stale with
  | true =>
    rw [hstale] at hlaunched
    exact ⟨hlaunched, hnotDone⟩
  | false =>
    rw [hstale] at hlaunched
    obtain ⟨hnext, -, hwait⟩ := hlaunched.round hquiet (by omega) (by decide)
    exact ⟨hnext, hnotDone.append hwait⟩

theorem launched_at (hpos : 0 < n) (hn : n ≤ FRAME_AREA) :
    Launched (trace risingClkEdge inputs o 18) n
      (trace risingClkEdge inputs o (launchTime (trace risingClkEdge inputs o 18) o n)) ∧
    NotDone inputs o (launchTime (trace risingClkEdge inputs o 18) o n) := by
  induction n, hpos using Nat.le_induction with
  | base => exact launched_one hrst hquiet
  | succ n hpos ih =>
    obtain ⟨hlaunched, hnotDone⟩ := ih (by omega)
    have hlate : 0 < launchTime (trace risingClkEdge inputs o 18) o n := by
      rw [launchTime]
      omega
    obtain ⟨hnext, -, hwait⟩ := hlaunched.round hquiet hlate (by omega)
    rw [launchTime_succ _ _ hpos]
    exact ⟨hnext, hnotDone.append hwait⟩

theorem launched_last : ∃ t, 0 < t ∧ doneTime (trace risingClkEdge inputs o 18) o = t + 1 ∧
    Launched (trace risingClkEdge inputs o 18) FRAME_AREA (trace risingClkEdge inputs o t) ∧
    NotDone inputs o t := by
  obtain ⟨hlaunched, hnotDone⟩ := launched_at (o := o) (n := FRAME_AREA) hrst hquiet (by decide) le_rfl
  refine ⟨_, ?_, rfl, hlaunched, hnotDone⟩
  rw [launchTime]
  omega

theorem firstDone_doneTime : FirstDone inputs o (doneTime (trace risingClkEdge inputs o 18) o) := by
  obtain ⟨t, hpos, hdone, hlaunched, hnotDone⟩ := launched_last (o := o) hrst hquiet
  rw [hdone]
  exact ⟨hlaunched.finish (hquiet t hpos), fun k hk hk' => hnotDone k hk (Nat.le_of_lt_succ hk')⟩

theorem idle_after {k : Nat} (hk : doneTime (trace risingClkEdge inputs o 18) o ≤ k) :
    (trace risingClkEdge inputs o k).state = .idle ∧ (trace risingClkEdge inputs o k).frameDone = true := by
  induction k, hk using Nat.le_induction with
  | base =>
    obtain ⟨t, hpos, hdone, hlaunched, -⟩ := launched_last (o := o) hrst hquiet
    have hcontrol := control_rendering (hquiet t hpos) hlaunched.state
    have hlast : (trace risingClkEdge inputs o t).nextPixelAddr = FRAME_AREA :=
      hlaunched.nextPixelAddr.trans ((ofNat_eq_frameArea le_rfl).mpr rfl)
    rw [hdone]
    exact ⟨(congrArg Orchestrator.state hcontrol).trans (if_pos hlast),
      (congrArg Orchestrator.frameDone hcontrol).trans (if_pos hlast)⟩
  | succ k hk ih =>
    have hlate : 0 < k := by
      rw [doneTime] at hk
      omega
    have hcontrol := control_idle (hquiet k hlate) ih.1
    exact ⟨(congrArg Orchestrator.state hcontrol).trans ih.1,
      (congrArg Orchestrator.frameDone hcontrol).trans ih.2⟩

end Run

theorem doneTime_bounds {rom : Rom} (frame o : Orchestrator (casterUnit rom)) :
    32772 ≤ doneTime frame o ∧ doneTime frame o ≤ 526356 := by
  have hbounds (a : Nat) : 16 ≤ frame.pixelTime a ∧ frame.pixelTime a ≤ 257 := by
    have hlatency : 14 ≤ (raySetup frame.cameraPos (frame.pixelDirection a)).latency rom ∧
        (raySetup frame.cameraPos (frame.pixelDirection a)).latency rom ≤ 255 := RaySetup.latency_bounds _
    change 16 ≤ RaySetup.latency rom _ + 2 ∧ RaySetup.latency rom _ + 2 ≤ 257
    omega
  have hleast := List.card_nsmul_le_sum ((List.range (FRAME_AREA - 1)).map frame.pixelTime) 16
    (List.forall_mem_map.mpr fun a _ => (hbounds a).1)
  have hmost := List.sum_le_card_nsmul ((List.range (FRAME_AREA - 1)).map frame.pixelTime) 257
    (List.forall_mem_map.mpr fun a _ => (hbounds a).2)
  have hfirst : firstTime frame o ≤ 257 := by
    rw [firstTime]
    split
    · omega
    · exact (hbounds 0).2
  rw [List.length_map, List.length_range, Nat.nsmul_eq_mul] at hleast hmost
  change 2047 * 16 ≤ _ at hleast
  change _ ≤ 2047 * 257 at hmost
  rw [doneTime, launchTime]
  omega

/-- A frame is done in the cycle that the latencies of its pixels add up to, whatever was
going on before, and stays done, with nothing more written, until the next reset. -/
theorem frame_time (rom : Rom) (o : Orchestrator (casterUnit rom)) (inputs : Nat → OrchestratorIn)
    (hrst : (inputs 0).rst = true) (hquiet : ∀ j, 0 < j → (inputs j).rst = false) :
    let frame := trace risingClkEdge inputs o 18
    let done := 20 + (if o.stale then 0 else frame.pixelLatency 0 + 2) +
      ((List.range (FRAME_AREA - 1)).map fun a => frame.pixelLatency a + 2).sum
    FirstDone inputs o done ∧
      (∀ k, done ≤ k → (trace risingClkEdge inputs o k).frameDone = true ∧
        (trace risingClkEdge inputs o k).sbufWrite (inputs k) = none) ∧
      32772 ≤ done ∧ done ≤ 526356 := by
  intro frame done
  have hdone : done = doneTime frame o := by
    change 20 + firstTime frame o + ((List.range (FRAME_AREA - 1)).map frame.pixelTime).sum = _
    rw [doneTime, launchTime]
    omega
  rw [hdone]
  refine ⟨firstDone_doneTime hrst hquiet, fun k hk => ?_, doneTime_bounds frame o⟩
  obtain ⟨hidle, hhigh⟩ := idle_after hrst hquiet hk
  refine ⟨hhigh, ?_⟩
  simp [Orchestrator.sbufWrite, sbufWriteEnable, hidle]

theorem frame_time_empty : FirstDone (frameInputs 0 0) (powerUp fun _ => BLOCK_AIR) 526356 := by
  obtain ⟨hdone, -⟩ := frame_time (fun _ => BLOCK_AIR) (powerUp fun _ => BLOCK_AIR) (frameInputs 0 0) rfl
    fun j hj => frameInputs_quiet 0 0 hj
  have hlatency (frame : Orchestrator (casterUnit fun _ => BLOCK_AIR)) (a : Nat) :
      frame.pixelLatency a = 255 := RaySetup.latency_air (raySetup frame.cameraPos (frame.pixelDirection a))
  have hstale : (powerUp fun _ => BLOCK_AIR).stale = false := rfl
  simp only [hlatency, hstale, List.map_const', List.length_range, List.sum_replicate] at hdone
  exact hdone

end Orchestrator
end FpgaCraft.Hardware
