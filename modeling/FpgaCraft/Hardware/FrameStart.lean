import FpgaCraft.Hardware.Orchestrator

/-! ## The start of a frame

`rst_in` resets the unit with the ray of the last frame, and unless the unit is held in reset
by `vtu.rst` it casts that ray while the orchestrator computes the camera. -/
namespace FpgaCraft.Hardware
open Library

namespace Orchestrator
variable {U : TraversalUnit} {i : OrchestratorIn} {self : Orchestrator U}

theorem control_reset (hrst : i.rst = true) : self.control i = self.reset i := if_pos hrst

theorem control_init (hrst : i.rst = false) (h : self.state = .init) :
    self.control i = self.initEdge := by
  simp only [control, hrst, h, Bool.false_eq_true, if_false]

theorem control_rendering (hrst : i.rst = false) (h : self.state = .rendering) :
    self.control i = self.renderingEdge := by
  simp only [control, hrst, h, Bool.false_eq_true, if_false]

theorem control_idle (hrst : i.rst = false) (h : self.state = .idle) : self.control i = self := by
  simp only [control, hrst, h, Bool.false_eq_true, if_false]

def launches (self : Orchestrator U) : Bool :=
  decide (self.state = .rendering) && (self.vtuValid || self.vtu.uninit)

def nextSlot (self : Orchestrator U) : VtuSlot :=
  ⟨true, false, self.cameraPos, vsub self.pixelLoc self.cameraPos, self.nextPixelAddr.setWidth 16⟩

theorem launches_eq_true :
    self.launches = true ↔ self.state = .rendering ∧ (self.vtuValid = true ∨ self.vtu.uninit = true) := by
  simp only [launches, Bool.and_eq_true, decide_eq_true_eq, Bool.or_eq_true]

theorem rst_of_vtuValid (h : self.vtuValid = true) : self.vtu.rst = false := by
  simpa using (Bool.and_eq_true_iff.mp h).2

theorem arbitrate_of_launches (hrst : i.rst = false) (h : self.launches = true) :
    self.arbitrate i = self.nextSlot := by
  obtain ⟨hstate, hwhy⟩ := launches_eq_true.mp h
  have hcond : (self.vtuValid && !self.vtu.rst || self.vtu.uninit) = true := by
    rcases hwhy with hvalid | huninit
    · simp [hvalid, rst_of_vtuValid hvalid]
    · simp [huninit]
  simp only [arbitrate, hrst, hstate, hcond, Bool.false_eq_true, if_false, if_true, nextSlot]

theorem arbitrate_of_not_launches (hrst : i.rst = false) (h : self.launches = false) :
    self.arbitrate i =
      { self.vtu with rst := if self.state = .rendering then false else self.vtu.rst } := by
  by_cases hstate : self.state = .rendering
  · obtain ⟨hvalid, huninit⟩ : self.vtuValid = false ∧ self.vtu.uninit = false := by
      simpa [launches, hstate] using h
    simp [arbitrate, hrst, hstate, hvalid, huninit]
  · simp [arbitrate, hrst, hstate]

/-- The unit has been running for `k` cycles on the ray in its registers. -/
def Flying (k : Nat) (self : Orchestrator U) : Prop :=
  ∃ j s, j.resets = true ∧ j.rayOrigin = self.vtu.rayOrigin ∧
    j.rayDirection = self.vtu.rayDirection ∧ self.unit = trace U.step (launch j) s (k + 1)

def rayLatency (self : Orchestrator U) : Nat := U.latency self.vtu.rayOrigin self.vtu.rayDirection

def rayColor (self : Orchestrator U) : BitVec 16 :=
  sbufColor (U.cast self.vtu.rayOrigin self.vtu.rayDirection)

variable {k : Nat}

theorem Flying.hitValid (h : self.Flying k) :
    U.hitValid self.unit = decide (self.rayLatency ≤ k) := by
  obtain ⟨j, s, hresets, horigin, hdirection, hunit⟩ := h
  rw [hunit, U.hitValid_launch s j k hresets, rayLatency, horigin, hdirection]

theorem Flying.color (h : self.Flying k) (hvalid : self.vtuValid = true) :
    sbufColor (U.hit self.unit) = self.rayColor := by
  have hlatency : self.rayLatency ≤ k :=
    of_decide_eq_true (h.hitValid.symm.trans (Bool.and_eq_true_iff.mp hvalid).1)
  obtain ⟨j, s, hresets, horigin, hdirection, hunit⟩ := h
  rw [rayLatency, ← horigin, ← hdirection] at hlatency
  rw [hunit, U.hit_launch s j k hresets hlatency, rayColor, horigin, hdirection]

theorem flying_of_resets (hrst : i.rst = true ∨ self.vtu.rst = true)
    (horigin : (self.arbitrate i).rayOrigin = self.vtu.rayOrigin)
    (hdirection : (self.arbitrate i).rayDirection = self.vtu.rayDirection) :
    (self.risingClkEdge i).Flying 0 :=
  ⟨self.unitIn i, self.unit, by simpa [CasterIn.resets, unitIn] using hrst, horigin.symm,
    hdirection.symm, rfl⟩

theorem Flying.edge (h : self.Flying k) (hrst : i.rst = false) (hoff : self.vtu.rst = false)
    (horigin : (self.arbitrate i).rayOrigin = self.vtu.rayOrigin)
    (hdirection : (self.arbitrate i).rayDirection = self.vtu.rayDirection) :
    (self.risingClkEdge i).Flying (k + 1) := by
  obtain ⟨j, s, hresets, horigin', hdirection', hunit⟩ := h
  refine ⟨j, s, hresets, horigin'.trans horigin.symm, hdirection'.trans hdirection.symm, ?_⟩
  have hheld : self.unitIn i = j.held := by
    rw [unitIn, hrst, hoff, ← horigin', ← hdirection']
    rfl
  rw [trace_succ, launch_succ, ← hunit, ← hheld]
  rfl

def Casting (self : Orchestrator U) : Prop := self.vtu.rst = true ∨ ∃ k, self.Flying k

theorem casting_reset (hrst : i.rst = true) (self : Orchestrator U) :
    (self.risingClkEdge i).Casting := by
  have hslot : self.arbitrate i = { self.vtu with uninit := true } := if_pos hrst
  exact .inr ⟨0, flying_of_resets (.inl hrst) (hslot ▸ rfl) (hslot ▸ rfl)⟩

theorem Casting.edge (h : self.Casting) (hrst : i.rst = false) : (self.risingClkEdge i).Casting := by
  cases hlaunch : self.launches with
  | true => exact .inl (congrArg VtuSlot.rst (arbitrate_of_launches hrst hlaunch))
  | false =>
    have hslot := arbitrate_of_not_launches hrst hlaunch
    have horigin := congrArg VtuSlot.rayOrigin hslot
    have hdirection := congrArg VtuSlot.rayDirection hslot
    cases hoff : self.vtu.rst with
    | true => exact .inr ⟨0, flying_of_resets (.inr hoff) horigin hdirection⟩
    | false =>
      rcases h with hon | ⟨k, hflying⟩
      · exact absurd (hoff.symm.trans hon) Bool.false_ne_true
      · exact .inr ⟨k + 1, hflying.edge hrst hoff horigin hdirection⟩

/-- Cycle `k` after the reset, up to the first cycle of RENDERING. -/
structure Warming (o : Orchestrator U) (camera : Vec3) (k : Nat) (m : Orchestrator U) : Prop where
  state : m.state = if k = 17 then .rendering else .init
  timer : m.initTimer = BitVec.ofNat 6 k
  vtu : m.vtu = { o.vtu with uninit := true }
  cameraPos : m.cameraPos = camera
  nextPixelAddr : m.nextPixelAddr = 0
  frameDone : m.frameDone = false
  flying : o.vtu.rst = false → m.Flying k

def stale (self : Orchestrator U) : Bool := !self.vtu.rst && decide (self.rayLatency ≤ 17)

variable {o : Orchestrator U} {camera : Vec3}

theorem warming_reset (hrst : i.rst = true) :
    Warming o i.cameraPosition 0 (o.risingClkEdge i) := by
  have hcontrol : o.control i = o.reset i := control_reset hrst
  have hslot : o.arbitrate i = { o.vtu with uninit := true } := if_pos hrst
  exact ⟨congrArg state hcontrol, congrArg initTimer hcontrol, hslot, congrArg cameraPos hcontrol,
    congrArg nextPixelAddr hcontrol, congrArg frameDone hcontrol,
    fun _ => flying_of_resets (.inl hrst) (by rw [hslot]) (by rw [hslot])⟩

theorem Warming.state_init (h : Warming o camera k self) (hk : k < 17) : self.state = .init :=
  h.state.trans (if_neg (by omega))

theorem Warming.state_rendering (h : Warming o camera 17 self) : self.state = .rendering := h.state

theorem launches_of_state (h : self.state ≠ .rendering) : self.launches = false := by
  simp [launches, h]

theorem Warming.edge (h : Warming o camera k self) (hk : k < 17) (hrst : i.rst = false) :
    Warming o camera (k + 1) (self.risingClkEdge i) := by
  have hinit := h.state_init hk
  have hcontrol := control_init hrst hinit
  have hstate : self.state ≠ .rendering := hinit ▸ nofun
  have hslot : self.arbitrate i = self.vtu := by
    rw [arbitrate_of_not_launches hrst (launches_of_state hstate), if_neg hstate]
  have htimer : self.initTimer = 16 ↔ k + 1 = 17 := by
    rw [h.timer]
    refine ⟨fun heq => ?_, fun heq => ?_⟩
    · have hnat := congrArg BitVec.toNat heq
      rw [BitVec.toNat_ofNat] at hnat
      change k % 64 = 16 at hnat
      omega
    · obtain rfl : k = 16 := by omega
      rfl
  refine ⟨?_, ?_, hslot.trans h.vtu, (congrArg Orchestrator.cameraPos hcontrol).trans h.cameraPos,
    (congrArg Orchestrator.nextPixelAddr hcontrol).trans h.nextPixelAddr,
    (congrArg Orchestrator.frameDone hcontrol).trans h.frameDone, fun hoff => ?_⟩
  · refine (congrArg Orchestrator.state hcontrol).trans ?_
    change (if self.initTimer = 16 then OrchestratorState.rendering else self.state) = _
    rw [hinit, if_congr htimer rfl rfl]
  · refine (congrArg Orchestrator.initTimer hcontrol).trans ?_
    change self.initTimer + 1 = _
    rw [h.timer, BitVec.ofNat_add]
    rfl
  · have hoff' : self.vtu.rst = false := (congrArg VtuSlot.rst h.vtu).trans hoff
    exact (h.flying hoff).edge hrst hoff' (congrArg VtuSlot.rayOrigin hslot)
      (congrArg VtuSlot.rayDirection hslot)

theorem Warming.vtuValid (h : Warming o camera 17 self) : self.vtuValid = o.stale := by
  have hrst : self.vtu.rst = o.vtu.rst := by rw [h.vtu]
  have hlatency : self.rayLatency = o.rayLatency := by
    rw [rayLatency, h.vtu]
    rfl
  cases hoff : o.vtu.rst with
  | true => simp [Orchestrator.vtuValid, stale, hrst, hoff]
  | false =>
    simp [Orchestrator.vtuValid, stale, hrst, hoff, (h.flying hoff).hitValid, hlatency]

theorem warming {inputs : Nat → OrchestratorIn} (hrst : (inputs 0).rst = true) (hk : k ≤ 17)
    (hquiet : ∀ j, 0 < j → j ≤ k → (inputs j).rst = false) :
    Warming o (inputs 0).cameraPosition k (trace risingClkEdge inputs o (k + 1)) := by
  induction k with
  | zero => exact warming_reset hrst
  | succ k ih =>
    exact (ih (by omega) fun j hj hjk => hquiet j hj (by omega)).edge (by omega)
      (hquiet (k + 1) (Nat.succ_pos k) le_rfl)

end Orchestrator
end FpgaCraft.Hardware
