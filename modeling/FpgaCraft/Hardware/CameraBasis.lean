import FpgaCraft.Hardware.FrameStart

/-! ## The camera of a frame

One pipelined normaliser is used twice under the timer of INIT: its first result is `w` and
the operand of the second, its second result is `u`. What is in the pipeline of an earlier
frame has left it when the first result is taken. -/
namespace FpgaCraft.Hardware
open Library

namespace Orchestrator
variable {U : TraversalUnit} {self : Orchestrator U} {heading : Vec3} {k : Nat}

/-- `Vec3::UP.cross(w)`, the operand of the second normalisation. -/
def upCross (w : Vec3) : Vec3 := ⟨w.z, 0, -w.x⟩

structure Latched (heading : Vec3) (k : Nat) (m : Orchestrator U) : Prop where
  first : k = 0 → m.normalizeIn = heading
  second : k = 7 → m.normalizeIn = upCross (Hardware.normalize heading)
  w : 7 ≤ k → m.w = Hardware.normalize heading
  u : 14 ≤ k → m.u = Hardware.normalize (upCross (Hardware.normalize heading))
  v : 15 ≤ k → m.v = cross m.w m.u
  viewportU : 16 ≤ k → m.viewportU = vmul m.u 0x400
  viewportV : 16 ≤ k → m.viewportV = vmul (vneg m.v) 0x200
  pixelDu : 16 ≤ k → m.pixelDu = vmul m.u ((0x400 : Fixed).sshiftRight 6)
  pixelDv : 16 ≤ k → m.pixelDv = vmul (vneg m.v) ((0x200 : Fixed).sshiftRight 5)
  pixel0Loc : 17 ≤ k → m.pixel0Loc =
    vadd (vsub (vsub m.cameraPos m.w) (vdiv2 (vadd m.viewportU m.viewportV)))
      (vdiv2 (vadd m.pixelDu m.pixelDv))

theorem latched_reset (i : OrchestratorIn) (self : Orchestrator U) :
    Latched i.cameraHeading 0 (self.reset i) := by
  constructor
  case first => exact fun _ => rfl
  all_goals exact fun later => absurd later (by decide)

theorem Latched.beside (h : Latched heading k self) (unit : U.State) (vtu : VtuSlot)
    (n : Normalize) :
    Latched heading k { self with unit := unit, vtu := vtu, normalize := n } :=
  ⟨h.first, h.second, h.w, h.u, h.v, h.viewportU, h.viewportV, h.pixelDu, h.pixelDv, h.pixel0Loc⟩

theorem timer_iff (timer : self.initTimer = BitVec.ofNat 6 k) (hk : k < 64) {n : Nat} (hn : n < 64) :
    self.initTimer = BitVec.ofNat 6 n ↔ k = n := by
  rw [timer]
  constructor
  · intro same
    have values := congrArg BitVec.toNat same
    rw [BitVec.toNat_ofNat, BitVec.toNat_ofNat] at values
    omega
  · rintro rfl
    rfl

theorem written {α : Type*} {n : Nat} {new old value : α} (now : k = n → new = value)
    (later : k ≠ n → old = value) : (if k = n then new else old) = value := by
  split
  · exact now ‹_›
  · exact later ‹_›

/-- Each register is written in one cycle, from registers that have been written before and
are not written again. -/
theorem Latched.initEdge (h : Latched heading k self) (timer : self.initTimer = BitVec.ofNat 6 k)
    (hk : k < 17) (first : k = 6 → self.normalize.out = Hardware.normalize heading)
    (second : k = 13 → self.normalize.out = Hardware.normalize (upCross (Hardware.normalize heading))) :
    Latched heading (k + 1) self.initEdge := by
  have at6 : self.initTimer = 6 ↔ k = 6 := timer_iff timer (by omega) (by decide)
  have at13 : self.initTimer = 13 ↔ k = 13 := timer_iff timer (by omega) (by decide)
  have at14 : self.initTimer = 14 ↔ k = 14 := timer_iff timer (by omega) (by decide)
  have at15 : self.initTimer = 15 ↔ k = 15 := timer_iff timer (by omega) (by decide)
  have at16 : self.initTimer = 16 ↔ k = 16 := timer_iff timer (by omega) (by decide)
  constructor <;> simp only [Orchestrator.initEdge, at6, at13, at14, at15, at16] <;> intro later
  case first => omega
  case second =>
    obtain rfl : k = 6 := by omega
    simp only [if_true, first rfl, upCross]
  case w =>
    exact written (fun now => first now) fun later => h.w (by omega)
  case u =>
    exact written (fun now => second now) fun later => h.u (by omega)
  case v =>
    have w : k ≠ 6 := by omega
    have u : k ≠ 13 := by omega
    rw [if_neg w, if_neg u]
    exact written (fun _ => rfl) fun later => h.v (by omega)
  case viewportU =>
    have u : k ≠ 13 := by omega
    rw [if_neg u]
    exact written (fun _ => rfl) fun later => h.viewportU (by omega)
  case viewportV =>
    have v : k ≠ 14 := by omega
    rw [if_neg v]
    exact written (fun _ => rfl) fun later => h.viewportV (by omega)
  case pixelDu =>
    have u : k ≠ 13 := by omega
    rw [if_neg u]
    exact written (fun _ => rfl) fun later => h.pixelDu (by omega)
  case pixelDv =>
    have v : k ≠ 14 := by omega
    rw [if_neg v]
    exact written (fun _ => rfl) fun later => h.pixelDv (by omega)
  case pixel0Loc =>
    obtain rfl : k = 16 := by omega
    simp

theorem normalized (input : Nat → OrchestratorIn) (o : Orchestrator U) (n : Nat) :
    (trace risingClkEdge input o (n + 6)).normalize.out =
      Hardware.normalize (trace risingClkEdge input o n).normalizeIn := by
  have pipeline : (trace risingClkEdge input o (n + 6)).normalize =
      trace Normalize.risingClkEdge (fun k => (trace risingClkEdge input o k).normalizeIn)
        o.normalize (n + 6) :=
    @trace_component _ _ risingClkEdge _ _ Normalize.risingClkEdge Orchestrator.normalize
      (fun _ m => m.normalizeIn) (fun _ _ => rfl) input o (n + 6)
  rw [pipeline, Normalize.latency]

variable {input : Nat → OrchestratorIn} (o : Orchestrator U)

theorem latched (hrst : (input 0).rst = true) (hrun : ∀ j, 0 < j → j < 18 → (input j).rst = false)
    (hk : k ≤ 17) : Latched (input 0).cameraHeading k (trace risingClkEdge input o (k + 1)) := by
  induction k using Nat.strong_induction_on with
  | _ k ih =>
    cases k with
    | zero =>
      have start := (latched_reset (input 0) o).beside
      rw [← control_reset hrst] at start
      exact start _ _ _
    | succ k =>
      have now := ih k (Nat.lt_succ_self k) (by omega)
      have warm : Warming o (input 0).cameraPosition k (trace risingClkEdge input o (k + 1)) :=
        warming hrst (by omega) fun j hj hjk => hrun j hj (by omega)
      rw [trace_succ]
      have next := (now.initEdge warm.timer (by omega) ?_ ?_).beside
      · rw [← control_init (hrun (k + 1) (by omega) (by omega)) (warm.state_init (by omega))] at next
        exact next _ _ _
      · rintro rfl
        rw [normalized, (ih 0 (by omega) (by omega)).first rfl]
      · rintro rfl
        rw [normalized, (ih 7 (by omega) (by omega)).second rfl]

/-- When RENDERING begins, the camera is a function of the position and the heading in the
last cycle of the reset. -/
theorem camera_basis_aligned (hrst : (input 0).rst = true)
    (hrun : ∀ j, 0 < j → j < 18 → (input j).rst = false) :
    (∀ j, 0 < j → j < 18 → (trace risingClkEdge input o j).state = .init) ∧
      let m := trace risingClkEdge input o 18
      m.state = .rendering ∧
      m.cameraPos = (input 0).cameraPosition ∧
      m.w = Hardware.normalize (input 0).cameraHeading ∧
      m.u = Hardware.normalize ⟨m.w.z, 0, -m.w.x⟩ ∧
      m.v = cross m.w m.u ∧
      m.viewportU = vmul m.u 0x400 ∧
      m.viewportV = vmul (vneg m.v) 0x200 ∧
      m.pixelDu = vmul m.u ((0x400 : Fixed).sshiftRight 6) ∧
      m.pixelDv = vmul (vneg m.v) ((0x200 : Fixed).sshiftRight 5) ∧
      m.pixel0Loc = vadd (vsub (vsub m.cameraPos m.w) (vdiv2 (vadd m.viewportU m.viewportV)))
        (vdiv2 (vadd m.pixelDu m.pixelDv)) := by
  have warm : ∀ j, j ≤ 17 →
      Warming o (input 0).cameraPosition j (trace risingClkEdge input o (j + 1)) :=
    fun j hj => warming hrst hj fun l hl hlj => hrun l hl (by omega)
  constructor
  · intro j first last
    obtain ⟨k, rfl⟩ := Nat.exists_eq_add_of_lt first
    rw [Nat.zero_add]
    exact (warm k (by omega)).state_init (by omega)
  · intro m
    have done : Latched (input 0).cameraHeading 17 m := latched o hrst hrun le_rfl
    have w := done.w (by decide)
    have u : m.u = Hardware.normalize ⟨m.w.z, 0, -m.w.x⟩ := by
      rw [w]
      exact done.u (by decide)
    exact ⟨(warm 17 le_rfl).state, (warm 17 le_rfl).cameraPos, w, u, done.v (by decide),
      done.viewportU (by decide), done.viewportV (by decide), done.pixelDu (by decide),
      done.pixelDv (by decide), done.pixel0Loc (by decide)⟩

theorem camera_basis_aligned_forward :
    let last : Orchestrator (casterUnit fun _ => 0) :=
      { powerUp (fun _ => 0) with
        state := .rendering
        w := ⟨7, 7, 7⟩
        u := ⟨7, 7, 7⟩
        normalizeIn := ⟨7, 7, 7⟩
        normalize := ⟨⟨7, 7, 7⟩, ⟨7, 7, 7⟩, ⟨7, 7, 7⟩, ⟨7, 7, 7⟩, ⟨7, 7, 7⟩, ⟨7, 7, 7, 7, 7, 7⟩, ⟨7, 7, 7⟩⟩ }
    let input : Nat → OrchestratorIn := fun k => ⟨decide (k = 0), ⟨0x180, 0x80, 0x80⟩, ⟨0, 0, 0x100⟩⟩
    (trace risingClkEdge input last 18).state = .rendering ∧
      (trace risingClkEdge input last 18).w = ⟨0, 0, 0xc4⟩ := by
  intro last input
  obtain ⟨-, state, -, w, -⟩ := @camera_basis_aligned _ input last rfl
    (fun k hk _ => decide_eq_false hk.ne')
  have forward : Hardware.normalize ⟨0, 0, 0x100⟩ = ⟨0, 0, 0xc4⟩ := by decide +kernel
  exact ⟨state, w.trans forward⟩

end Orchestrator
end FpgaCraft.Hardware
