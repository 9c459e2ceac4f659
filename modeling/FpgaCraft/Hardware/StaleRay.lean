import FpgaCraft.Hardware.FrameStart

/-! ## Writes of stale rays

From the first launch on, a write carries the colour of the last ray launched. Before it, in
the first cycle of RENDERING, the unit may show the answer for the ray of the last frame. -/
namespace FpgaCraft.Hardware
open Library

namespace Orchestrator
variable {U : TraversalUnit} {i : OrchestratorIn} {self o : Orchestrator U} {j k : Nat}

theorem sbufWriteEnable_eq_true (hrst : i.rst = false) :
    self.sbufWriteEnable i = true ↔ self.state = .rendering ∧ self.vtuValid = true := by
  simp [sbufWriteEnable, hrst]

theorem sbufWrite_eq_some (h : self.sbufWriteEnable i = true) (hvalid : self.vtuValid = true) :
    self.sbufWrite i = some (self.vtu.writeAddr.setWidth 11, sbufColor (U.hit self.unit)) := by
  rw [sbufWrite, if_pos h, sbufAddr, sbufData, if_pos hvalid, if_pos hvalid]

theorem write_of_advance (hrst : i.rst = false)
    (h : (self.risingClkEdge i).nextPixelAddr ≠ self.nextPixelAddr) :
    self.state = .rendering ∧ self.vtuValid = true := by
  have hnext : (self.risingClkEdge i).nextPixelAddr = (self.control i).nextPixelAddr := rfl
  rw [hnext] at h
  cases hstate : self.state with
  | init =>
    rw [control_init hrst hstate] at h
    exact absurd rfl h
  | idle =>
    rw [control_idle hrst hstate] at h
    exact absurd rfl h
  | rendering =>
    rw [control_rendering hrst hstate] at h
    refine ⟨rfl, ?_⟩
    by_contra hvalid
    exact h (if_neg hvalid)

theorem cameraPos_edge (hrst : i.rst = false) : (self.risingClkEdge i).cameraPos = self.cameraPos := by
  have hnext : (self.risingClkEdge i).cameraPos = (self.control i).cameraPos := rfl
  rw [hnext]
  cases hstate : self.state with
  | init => rw [control_init hrst hstate]; rfl
  | rendering => rw [control_rendering hrst hstate]; rfl
  | idle => rw [control_idle hrst hstate]

/-- Cycle `j` made the last launch before cycle `k`, and the registers still hold its ray. -/
structure LastLaunch (inputs : Nat → OrchestratorIn) (o : Orchestrator U) (j k : Nat) : Prop where
  after : 0 < j
  before : j < k
  launches : (trace risingClkEdge inputs o j).launches = true
  last : ∀ m, j < m → m < k → (trace risingClkEdge inputs o m).launches = false
  slot : (trace risingClkEdge inputs o k).vtu =
    { (trace risingClkEdge inputs o j).nextSlot with rst := (trace risingClkEdge inputs o k).vtu.rst }

variable {inputs : Nat → OrchestratorIn}

theorem lastLaunch_succ (hk : 0 < k) (hrst : (inputs k).rst = false)
    (h : (trace risingClkEdge inputs o k).launches = true) : LastLaunch inputs o k (k + 1) := by
  refine ⟨hk, Nat.lt_succ_self k, h, fun m hm hmk => by omega, ?_⟩
  have hslot : (trace risingClkEdge inputs o (k + 1)).vtu =
      (trace risingClkEdge inputs o k).nextSlot := arbitrate_of_launches hrst h
  rw [hslot]

theorem LastLaunch.next (h : LastLaunch inputs o j k) (hrst : (inputs k).rst = false) :
    ∃ j', LastLaunch inputs o j' (k + 1) := by
  cases hlaunch : (trace risingClkEdge inputs o k).launches with
  | true => exact ⟨k, lastLaunch_succ (h.after.trans h.before) hrst hlaunch⟩
  | false =>
    refine ⟨j, h.after, h.before.trans (Nat.lt_succ_self k), h.launches, fun m hm hmk => ?_, ?_⟩
    · rcases Nat.lt_succ_iff_lt_or_eq.mp hmk with hlt | rfl
      · exact h.last m hm hlt
      · exact hlaunch
    · have hslot : (trace risingClkEdge inputs o (k + 1)).vtu =
          { (trace risingClkEdge inputs o k).vtu with
            rst := if (trace risingClkEdge inputs o k).state = .rendering then false
              else (trace risingClkEdge inputs o k).vtu.rst } :=
        arbitrate_of_not_launches hrst hlaunch
      rw [hslot, h.slot]

theorem exists_lastLaunch (hrst : (inputs 0).rst = true) (hk : 19 ≤ k)
    (hquiet : ∀ j, 0 < j → j < k → (inputs j).rst = false) : ∃ j, LastLaunch inputs o j k := by
  induction k, hk using Nat.le_induction with
  | base =>
    have hwarm := warming (o := o) hrst (k := 17) le_rfl fun j hj hjk => hquiet j hj (by omega)
    refine ⟨18, lastLaunch_succ (by omega) (hquiet 18 (by omega) (by omega)) ?_⟩
    exact launches_eq_true.mpr ⟨hwarm.state_rendering, .inr (by rw [hwarm.vtu])⟩
  | succ k hk ih =>
    obtain ⟨j, h⟩ := ih fun j hj hjk => hquiet j hj (by omega)
    exact h.next (hquiet k (by omega) (Nat.lt_succ_self k))

theorem casting (hrst : (inputs 0).rst = true) (hk : 0 < k)
    (hquiet : ∀ j, 0 < j → j < k → (inputs j).rst = false) :
    (trace risingClkEdge inputs o k).Casting := by
  induction k, hk using Nat.le_induction with
  | base => exact casting_reset hrst o
  | succ k hk ih =>
    exact (ih fun j hj hjk => hquiet j hj (by omega)).edge (hquiet k hk (Nat.lt_succ_self k))

theorem cameraPos_trace (hrst : (inputs 0).rst = true) (hk : 0 < k)
    (hquiet : ∀ j, 0 < j → j < k → (inputs j).rst = false) :
    (trace risingClkEdge inputs o k).cameraPos = (inputs 0).cameraPosition := by
  induction k, hk using Nat.le_induction with
  | base =>
    have hcontrol : o.control (inputs 0) = o.reset (inputs 0) := control_reset hrst
    exact congrArg cameraPos hcontrol
  | succ k hk ih =>
    rw [trace_succ, cameraPos_edge (hquiet k hk (Nat.lt_succ_self k))]
    exact ih fun j hj hjk => hquiet j hj (by omega)

/-- After a reset, until the next one, a write or a move of `next_pixel_addr` comes from the
last launch since the reset: with its address, the colour of its ray, and this frame's camera. -/
def NoStaleWrite (o : Orchestrator U) : Prop :=
  ∀ inputs : Nat → OrchestratorIn, (inputs 0).rst = true → ∀ k, 0 < k →
    (∀ j, 0 < j → j ≤ k → (inputs j).rst = false) →
    let run := trace risingClkEdge inputs o
    ((run k).sbufWriteEnable (inputs k) = true ∨ (run (k + 1)).nextPixelAddr ≠ (run k).nextPixelAddr) →
      ∃ j, 0 < j ∧ j < k ∧ (run j).launches = true ∧
        (∀ m, j < m → m < k → (run m).launches = false) ∧
        (run j).cameraPos = (inputs 0).cameraPosition ∧
        (run k).sbufWrite (inputs k) = some ((run j).nextPixelAddr.setWidth 11,
          sbufColor (U.cast (run j).cameraPos (vsub (run j).pixelLoc (run j).cameraPos)))

theorem LastLaunch.sbufWrite (h : LastLaunch inputs o j k) (hrst : (inputs k).rst = false)
    (hcasting : (trace risingClkEdge inputs o k).Casting)
    (hstate : (trace risingClkEdge inputs o k).state = .rendering)
    (hvalid : (trace risingClkEdge inputs o k).vtuValid = true) :
    (trace risingClkEdge inputs o k).sbufWrite (inputs k) =
      some ((trace risingClkEdge inputs o j).nextPixelAddr.setWidth 11,
        sbufColor (U.cast (trace risingClkEdge inputs o j).cameraPos
          (vsub (trace risingClkEdge inputs o j).pixelLoc (trace risingClkEdge inputs o j).cameraPos))) := by
  rcases hcasting with hon | ⟨n, hflying⟩
  · exact absurd ((rst_of_vtuValid hvalid).symm.trans hon) Bool.false_ne_true
  · rw [sbufWrite_eq_some ((sbufWriteEnable_eq_true hrst).mpr ⟨hstate, hvalid⟩) hvalid,
      hflying.color hvalid, rayColor, h.slot]
    have haddr (addr : BitVec 12) : (addr.setWidth 16).setWidth 11 = addr.setWidth 11 := by
      apply BitVec.eq_of_toNat_eq
      simp only [BitVec.toNat_setWidth]
      omega
    exact congrArg (fun addr => some (addr, _)) (haddr _)

def frameInputs (cameraPosition cameraHeading : Vec3) (k : Nat) : OrchestratorIn :=
  ⟨decide (k = 0), cameraPosition, cameraHeading⟩

theorem frameInputs_quiet (cameraPosition cameraHeading : Vec3) (hk : 0 < k) :
    (frameInputs cameraPosition cameraHeading k).rst = false := decide_eq_false hk.ne'

theorem not_stale_of_noStaleWrite (h : o.NoStaleWrite) : o.stale = false := by
  by_contra hstale
  rw [Bool.not_eq_false] at hstale
  have hquiet : ∀ j, 0 < j → (frameInputs 0 0 j).rst = false := fun j hj => frameInputs_quiet 0 0 hj
  have hwarm (n : Nat) (hn : n ≤ 17) :
      Warming o 0 n (trace risingClkEdge (frameInputs 0 0) o (n + 1)) :=
    warming rfl hn fun j hj _ => hquiet j hj
  have hwrite := (sbufWriteEnable_eq_true (hquiet 18 (by omega))).mpr
    ⟨(hwarm 17 le_rfl).state_rendering, (hwarm 17 le_rfl).vtuValid.trans hstale⟩
  obtain ⟨j, hj, hj18, hlaunch, -⟩ := h _ rfl 18 (by omega) (fun j hj _ => hquiet j hj) (.inl hwrite)
  obtain ⟨n, rfl⟩ := Nat.exists_eq_add_of_lt hj
  rw [Nat.zero_add] at hlaunch
  have hinit := (hwarm n (by omega)).state_init (by omega)
  rw [launches_of_state (hinit ▸ nofun)] at hlaunch
  exact Bool.false_ne_true hlaunch

theorem noStaleWrite_of_not_stale (h : o.stale = false) : o.NoStaleWrite := by
  intro inputs hrst k hk hquiet run hwhy
  obtain ⟨hstate, hvalid⟩ : (run k).state = .rendering ∧ (run k).vtuValid = true := by
    rcases hwhy with hwrite | hadvance
    · exact (sbufWriteEnable_eq_true (hquiet k hk le_rfl)).mp hwrite
    · exact write_of_advance (hquiet k hk le_rfl) hadvance
  have hlate : 19 ≤ k := by
    by_contra hearly
    obtain ⟨n, rfl⟩ := Nat.exists_eq_add_of_lt hk
    rw [Nat.zero_add] at hstate hvalid hearly hquiet
    have hwarm := warming (o := o) (k := n) hrst (by omega) fun j hj hjn => hquiet j hj (by omega)
    rcases Nat.lt_or_ge n 17 with hn | hn
    · exact absurd ((hwarm.state_init hn).symm.trans hstate) nofun
    · obtain rfl : n = 17 := by omega
      exact Bool.false_ne_true ((h.symm.trans hwarm.vtuValid.symm).trans hvalid)
  have hbefore : ∀ j, 0 < j → j < k → (inputs j).rst = false := fun j hj hjk => hquiet j hj hjk.le
  obtain ⟨j, hlast⟩ := exists_lastLaunch (o := o) hrst hlate hbefore
  exact ⟨j, hlast.after, hlast.before, hlast.launches, hlast.last,
    cameraPos_trace hrst hlast.after fun m hm hmj => hbefore m hm (hmj.trans hlast.before),
    hlast.sbufWrite (hquiet k hk le_rfl) (casting hrst hk hbefore) hstate hvalid⟩

end Orchestrator

/-- No stale ray is written exactly if the unit was in reset when `rst_in` came, or the ray
of the last frame starts in air. -/
theorem no_stale_write_iff (rom : Rom) (o : Orchestrator (casterUnit rom)) :
    o.NoStaleWrite ↔
      o.vtu.rst = true ∨ Chunk.word rom (vfloor o.vtu.rayOrigin).blockPos = BLOCK_AIR := by
  have hlatency : o.rayLatency ≤ 17 ↔ Chunk.word rom (vfloor o.vtu.rayOrigin).blockPos ≠ BLOCK_AIR :=
    RaySetup.latency_le_seventeen rom (raySetup o.vtu.rayOrigin o.vtu.rayDirection)
  have hstale : o.stale = false ↔
      o.vtu.rst = true ∨ Chunk.word rom (vfloor o.vtu.rayOrigin).blockPos = BLOCK_AIR := by
    rw [Orchestrator.stale, Bool.and_eq_false_iff, Bool.not_eq_false', decide_eq_false_iff_not,
      hlatency, not_not]
  exact ⟨fun h => hstale.mp (Orchestrator.not_stale_of_noStaleWrite h),
    fun h => Orchestrator.noStaleWrite_of_not_stale (hstale.mpr h)⟩

/-- A frame from inside a stone is interrupted after 40 cycles. The frame after it, from
elsewhere, has launched nothing when the colour of the stone is written at address 0. -/
theorem stale_ray_written :
    let rom : Rom := fun a => if a = 166632 then BLOCK_STONE else BLOCK_AIR
    let inputs (k : Nat) : OrchestratorIn :=
      ⟨decide (k = 0 ∨ k = 40), if k < 40 then ⟨0, 0x300, 0⟩ else ⟨0x800, 0x800, 0x800⟩,
        ⟨0, 0, FIXED_1⟩⟩
    let run := trace Orchestrator.risingClkEdge inputs (Orchestrator.powerUp rom)
    (run 58).sbufWrite (inputs 58) = some (0, 0x522A) ∧
      (∀ j, j < 17 → (run (j + 41)).launches = false) ∧
      (run 58).nextPixelAddr = 0 ∧ (run 59).nextPixelAddr = 1 ∧
      ¬(run 40).NoStaleWrite := by
  intro rom inputs run
  have hstale : (run 40).stale = true := by decide +kernel
  exact ⟨by decide +kernel, by decide +kernel, by decide +kernel, by decide +kernel,
    fun h => Bool.false_ne_true ((Orchestrator.not_stale_of_noStaleWrite h).symm.trans hstale)⟩

end FpgaCraft.Hardware
