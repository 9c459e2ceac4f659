import FpgaCraft.Hardware.Vtu

/-! ## The initialisation of a ray

Thirteen cycles after its reset a traversal unit has read the results of both pipelines in
their slots, and knows nothing of earlier rays. -/
namespace FpgaCraft.Hardware
open Library

/-- The registers at the end of INIT, as functions of the ray. -/
structure RaySetup where
  rayStep : Vec3i
  rayDDt : Vec3
  rayDist : Vec3
  start : Walk

def raySetup (origin direction : Vec3) : RaySetup :=
  let rayStep : Vec3i := ⟨Vtu.stepOf direction.x, Vtu.stepOf direction.y, Vtu.stepOf direction.z⟩
  let rayDir := normalize direction
  let rayPos := vfloor origin
  let rayDDt : Vec3 :=
    ⟨Vtu.absOf (recipLte1 rayDir.x), Vtu.absOf (recipLte1 rayDir.y), Vtu.absOf (recipLte1 rayDir.z)⟩
  let rayDist : Vec3 :=
    ⟨Vtu.distOf rayStep.x origin.x rayPos.x, Vtu.distOf rayStep.y origin.y rayPos.y,
     Vtu.distOf rayStep.z origin.z rayPos.z⟩
  let rayTMax : Vec3 :=
    ⟨Vtu.tMaxOf rayDir.x rayDDt.x rayDist.x, Vtu.tMaxOf rayDir.y rayDDt.y rayDist.y,
     Vtu.tMaxOf rayDir.z rayDDt.z rayDist.z⟩
  ⟨rayStep, rayDDt, rayDist, ⟨rayPos, rayTMax, .none⟩⟩

variable {rom : Rom} {origin direction : Vec3}

structure Initialising (origin direction : Vec3) (k : Nat) (v : Vtu) : Prop where
  state : v.state = .init
  timer : v.initTimer = BitVec.ofNat 5 k
  rayOri : v.rayOri = origin
  rayStep : v.rayStep = (raySetup origin direction).rayStep
  walk : v.walk = ⟨vfloor origin, 0, .none⟩
  numSteps : v.numSteps = 0
  hitValid : v.hitValid = false
  ramReadEnable : v.ramReadEnable = false
  rayDir : 6 ≤ k → v.rayDir = normalize direction
  rayDist : 6 ≤ k → v.rayDist = (raySetup origin direction).rayDist
  recipX : k = 6 → v.recipIn = (normalize direction).x
  recipY : k = 7 → v.recipIn = (normalize direction).y
  recipZ : k = 8 → v.recipIn = (normalize direction).z
  dDtX : 10 ≤ k → v.rayDDt.x = (raySetup origin direction).rayDDt.x
  dDtY : 11 ≤ k → v.rayDDt.y = (raySetup origin direction).rayDDt.y
  dDtZ : 12 ≤ k → v.rayDDt.z = (raySetup origin direction).rayDDt.z

theorem Initialising.ramAddr {k : Nat} {v : Vtu} (h : Initialising origin direction k v) :
    v.ramAddr = (vfloor origin).blockPos := congrArg (fun w : Walk => w.rayPos.blockPos) h.walk

structure Delivered (direction : Vec3) (k : Nat) (v : Vtu) : Prop where
  dir : k = 5 → v.normalizeRayDir.out = normalize direction
  recipX : k = 9 → v.recip.iter1 = recipLte1 (normalize direction).x
  recipY : k = 10 → v.recip.iter1 = recipLte1 (normalize direction).y
  recipZ : k = 11 → v.recip.iter1 = recipLte1 (normalize direction).z

theorem Initialising.timer_iff {k : Nat} {v : Vtu} (h : Initialising origin direction k v)
    (hk : k < 32) {n : Nat} (hn : n < 32) : v.initTimer = BitVec.ofNat 5 n ↔ k = n := by
  rw [h.timer]
  refine ⟨fun heq => ?_, fun heq => heq ▸ rfl⟩
  have := congrArg BitVec.toNat heq
  rw [BitVec.toNat_ofNat, BitVec.toNat_ofNat] at this
  omega

theorem Initialising.initEdge {k : Nat} {v : Vtu} (h : Initialising origin direction k v)
    (delivered : Delivered direction k v) (hk : k < 12) :
    Initialising origin direction (k + 1) v.initEdge := by
  have at5 : v.initTimer = 5 ↔ k = 5 := h.timer_iff (by omega) (by decide)
  have at6 : v.initTimer = 6 ↔ k = 6 := h.timer_iff (by omega) (by decide)
  have at7 : v.initTimer = 7 ↔ k = 7 := h.timer_iff (by omega) (by decide)
  have at9 : v.initTimer = 9 ↔ k = 9 := h.timer_iff (by omega) (by decide)
  have at10 : v.initTimer = 10 ↔ k = 10 := h.timer_iff (by omega) (by decide)
  have at11 : v.initTimer = 11 ↔ k = 11 := h.timer_iff (by omega) (by decide)
  have at12 : v.initTimer = 12 ↔ k = 12 := h.timer_iff (by omega) (by decide)
  have before12 : v.initTimer ≠ 12 := fun heq => absurd (at12.mp heq) (by omega)
  refine ⟨?_, ?_, h.rayOri, h.rayStep, ?_, h.numSteps, h.hitValid, ?_, ?_, ?_, ?_, ?_, ?_, ?_, ?_, ?_⟩
  · exact (if_neg before12).trans h.state
  · change v.initTimer + 1 = _
    rw [h.timer, BitVec.ofNat_add]
    rfl
  · exact (if_neg before12).trans h.walk
  · exact (if_neg before12).trans h.ramReadEnable
  · intro hk'
    by_cases h5 : k = 5
    · exact (if_pos (at5.mpr h5)).trans (delivered.dir h5)
    · exact (if_neg (at5.not.mpr h5)).trans (h.rayDir (by omega))
  · intro hk'
    by_cases h5 : k = 5
    · refine (if_pos (at5.mpr h5)).trans ?_
      rw [h.rayStep, h.rayOri, h.walk]
      rfl
    · exact (if_neg (at5.not.mpr h5)).trans (h.rayDist (by omega))
  · intro h5
    refine (if_pos (at5.mpr (by omega))).trans ?_
    rw [delivered.dir (by omega)]
  · intro h6
    refine (if_neg (at5.not.mpr (by omega))).trans ((if_pos (at6.mpr (by omega))).trans ?_)
    rw [h.rayDir (by omega)]
  · intro h7
    refine (if_neg (at5.not.mpr (by omega))).trans ((if_neg (at6.not.mpr (by omega))).trans
      ((if_pos (at7.mpr (by omega))).trans ?_))
    rw [h.rayDir (by omega)]
  · intro hk'
    by_cases h9 : k = 9
    · refine (if_pos (at9.mpr h9)).trans ?_
      rw [delivered.recipX h9]
      rfl
    · exact (if_neg (at9.not.mpr h9)).trans (h.dDtX (by omega))
  · intro hk'
    by_cases h10 : k = 10
    · refine (if_pos (at10.mpr h10)).trans ?_
      rw [delivered.recipY h10]
      rfl
    · exact (if_neg (at10.not.mpr h10)).trans (h.dDtY (by omega))
  · intro hk'
    by_cases h11 : k = 11
    · refine (if_pos (at11.mpr h11)).trans ?_
      rw [delivered.recipZ h11]
      rfl
    · exact (if_neg (at11.not.mpr h11)).trans (h.dDtZ (by omega))

structure Traversing (setup : RaySetup) (n : Nat) (w : Walk) (v : Vtu) : Prop where
  state : v.state = .traversing
  rayStep : v.rayStep = setup.rayStep
  rayDDt : v.rayDDt = setup.rayDDt
  walk : v.walk = w
  numSteps : v.numSteps = BitVec.ofNat 6 n
  hitValid : v.hitValid = false
  ramReadEnable : v.ramReadEnable = true

theorem Initialising.done {v : Vtu} (h : Initialising origin direction 12 v) :
    Traversing (raySetup origin direction) 0 (raySetup origin direction).start v.initEdge := by
  have at12 : v.initTimer = 12 := h.timer
  have hdDt : v.initEdge.rayDDt = (raySetup origin direction).rayDDt := by
    apply Vec3.ext
    · exact (if_neg (by rw [at12]; decide)).trans (h.dDtX (by omega))
    · exact (if_neg (by rw [at12]; decide)).trans (h.dDtY (by omega))
    · exact (if_neg (by rw [at12]; decide)).trans (h.dDtZ (by omega))
  refine ⟨if_pos at12, h.rayStep, hdDt, ?_, h.numSteps, h.hitValid, if_pos at12⟩
  refine (if_pos at12).trans ?_
  rw [h.rayDir (by omega), h.rayDist (by omega), h.dDtX (by omega), h.dDtY (by omega),
    h.dDtZ (by omega), h.walk]
  rfl

theorem Initialising.rayDist_done {v : Vtu} (h : Initialising origin direction 12 v) :
    v.initEdge.rayDist = (raySetup origin direction).rayDist := by
  have at12 : v.initTimer = 12 := h.timer
  exact (if_neg (by rw [at12]; decide)).trans (h.rayDist (by omega))

theorem Initialising.rayDir_done {v : Vtu} (h : Initialising origin direction 12 v) :
    v.initEdge.rayDir = normalize direction := by
  have at12 : v.initTimer = 12 := h.timer
  exact (if_neg (by rw [at12]; decide)).trans (h.rayDir (by omega))

theorem Initialising.withPipelines {k : Nat} {v : Vtu} (h : Initialising origin direction k v)
    (n : Normalize) (r : RecipLte1) :
    Initialising origin direction k { v with normalizeRayDir := n, recip := r } :=
  ⟨h.state, h.timer, h.rayOri, h.rayStep, h.walk, h.numSteps, h.hitValid, h.ramReadEnable, h.rayDir,
    h.rayDist, h.recipX, h.recipY, h.recipZ, h.dDtX, h.dDtY, h.dDtZ⟩

theorem Traversing.withPipelines {setup : RaySetup} {m : Nat} {w : Walk} {v : Vtu}
    (h : Traversing setup m w v) (n : Normalize) (r : RecipLte1) :
    Traversing setup m w { v with normalizeRayDir := n, recip := r } :=
  ⟨h.state, h.rayStep, h.rayDDt, h.walk, h.numSteps, h.hitValid, h.ramReadEnable⟩

theorem initialising_reset (i : VtuIn) (v : Vtu) :
    Initialising i.rayOrigin i.rayDirection 0 (v.reset i) :=
  ⟨rfl, rfl, rfl, rfl, rfl, rfl, rfl, rfl, fun h => (Nat.not_succ_le_zero _ h).elim,
    fun h => (Nat.not_succ_le_zero _ h).elim, nofun, nofun, nofun,
    fun h => (Nat.not_succ_le_zero _ h).elim, fun h => (Nat.not_succ_le_zero _ h).elim,
    fun h => (Nat.not_succ_le_zero _ h).elim⟩

/-! ### A unit on its own -/

namespace Vtu
variable {input : Nat → VtuIn} (v : Vtu)

theorem normalized (n : Nat) : (trace risingClkEdge input v (n + 6)).normalizeRayDir.out =
    normalize (input n).rayDirection := by
  have hpart : (trace risingClkEdge input v (n + 6)).normalizeRayDir =
      trace Normalize.risingClkEdge (fun k => (input k).rayDirection) v.normalizeRayDir (n + 6) :=
    @trace_component _ _ risingClkEdge _ _ Normalize.risingClkEdge normalizeRayDir
      (fun i _ => i.rayDirection) (fun _ _ => rfl) input v (n + 6)
  rw [hpart, Normalize.latency]

theorem reciprocal (n : Nat) : (trace risingClkEdge input v (n + 3)).recip.iter1 =
    recipLte1 (trace risingClkEdge input v n).recipIn := by
  have hpart : (trace risingClkEdge input v (n + 3)).recip =
      trace RecipLte1.risingClkEdge (fun k => (trace risingClkEdge input v k).recipIn) v.recip (n + 3) :=
    @trace_component _ _ risingClkEdge _ _ RecipLte1.risingClkEdge recip
      (fun _ v => v.recipIn) (fun _ _ => rfl) input v (n + 3)
  rw [hpart, RecipLte1.latency]

variable (hrst : (input 0).rst = true) (hrun : ∀ k, 0 < k → k < 14 → (input k).rst = false)
include hrst hrun

theorem initialising {k : Nat} (hk : k ≤ 12) :
    Initialising (input 0).rayOrigin (input 0).rayDirection k
      (trace risingClkEdge input v (k + 1)) := by
  induction k using Nat.strong_induction_on with
  | _ k ih =>
    cases k with
    | zero =>
      have hreset := (initialising_reset (input 0) v).withPipelines
      rw [← control_reset hrst] at hreset
      exact hreset _ _
    | succ k =>
      have hinit := ih k (Nat.lt_succ_self k) (by omega)
      have delivered : Delivered (input 0).rayDirection k (trace risingClkEdge input v (k + 1)) := by
        refine ⟨?_, ?_, ?_, ?_⟩
        · rintro rfl
          exact normalized v 0
        · rintro rfl
          rw [reciprocal, (ih 6 (by omega) (by omega)).recipX rfl]
        · rintro rfl
          rw [reciprocal, (ih 7 (by omega) (by omega)).recipY rfl]
        · rintro rfl
          rw [reciprocal, (ih 8 (by omega) (by omega)).recipZ rfl]
      rw [trace_succ]
      have hnext := (hinit.initEdge delivered (by omega)).withPipelines
      rw [← control_init (hrun (k + 1) (by omega) (by omega)) hinit.state] at hnext
      exact hnext _ _

theorem traversing :
    Traversing (raySetup (input 0).rayOrigin (input 0).rayDirection) 0
      (raySetup (input 0).rayOrigin (input 0).rayDirection).start
      (trace risingClkEdge input v 14) := by
  have hinit := initialising v hrst hrun (k := 12) le_rfl
  have hnext := hinit.done.withPipelines
  rw [← control_init (hrun 13 (by omega) (by omega)) hinit.state] at hnext
  exact hnext _ _

theorem rayDist_traversing : (trace risingClkEdge input v 14).rayDist =
    (raySetup (input 0).rayOrigin (input 0).rayDirection).rayDist := by
  have hinit := initialising v hrst hrun (k := 12) le_rfl
  rw [← hinit.rayDist_done, ← control_init (hrun 13 (by omega) (by omega)) hinit.state]
  rfl

theorem rayDir_traversing : (trace risingClkEdge input v 14).rayDir =
    normalize (input 0).rayDirection := by
  have hinit := initialising v hrst hrun (k := 12) le_rfl
  rw [← hinit.rayDir_done, ← control_init (hrun 13 (by omega) (by omega)) hinit.state]
  rfl

theorem rayOri_traversing : (trace risingClkEdge input v 14).rayOri = (input 0).rayOrigin := by
  have hinit := initialising v hrst hrun (k := 12) le_rfl
  have hnext := congrArg rayOri (control_init (hrun 13 (by omega) (by omega)) hinit.state)
  exact hnext.trans hinit.rayOri

/-- The first cycle of TRAVERSING is the thirteenth after the reset, and by then every
register of the ray is a function of the origin and the direction in its last cycle. -/
theorem initialisation_aligned :
    (∀ k, 0 < k → k < 14 → (trace risingClkEdge input v k).state = .init) ∧
      let origin := (input 0).rayOrigin
      let direction := (input 0).rayDirection
      let unit := trace risingClkEdge input v 14
      unit.state = .traversing ∧
      unit.rayOri = origin ∧
      unit.walk.rayPos = vfloor origin ∧
      unit.rayDir = normalize direction ∧
      unit.rayDDt = ⟨absOf (recipLte1 unit.rayDir.x), absOf (recipLte1 unit.rayDir.y),
        absOf (recipLte1 unit.rayDir.z)⟩ ∧
      unit.rayStep = ⟨stepOf direction.x, stepOf direction.y, stepOf direction.z⟩ ∧
      unit.rayDist = ⟨distOf unit.rayStep.x origin.x unit.walk.rayPos.x,
        distOf unit.rayStep.y origin.y unit.walk.rayPos.y,
        distOf unit.rayStep.z origin.z unit.walk.rayPos.z⟩ ∧
      unit.walk.rayTMax =
        ⟨if unit.rayDir.x ≠ 0 then fmul unit.rayDDt.x unit.rayDist.x else FIXED_MAX,
         if unit.rayDir.y ≠ 0 then fmul unit.rayDDt.y unit.rayDist.y else FIXED_MAX,
         if unit.rayDir.z ≠ 0 then fmul unit.rayDDt.z unit.rayDist.z else FIXED_MAX⟩ := by
  constructor
  · intro k first last
    obtain ⟨k, rfl⟩ := Nat.exists_eq_add_of_lt first
    rw [Nat.zero_add]
    exact (initialising v hrst hrun (by omega)).state
  · intro origin direction unit
    have entered := traversing v hrst hrun
    have dir : unit.rayDir = normalize direction := rayDir_traversing v hrst hrun
    have dist : unit.rayDist = (raySetup origin direction).rayDist := rayDist_traversing v hrst hrun
    have held : unit.rayOri = origin := rayOri_traversing v hrst hrun
    refine ⟨entered.state, held, congrArg Walk.rayPos entered.walk, dir, ?_, entered.rayStep, ?_, ?_⟩
    · rw [dir]
      exact entered.rayDDt
    · rw [dist, entered.rayStep, entered.walk]
      rfl
    · rw [dir, dist, entered.rayDDt, entered.walk]
      rfl

omit hrst hrun in
/-- A level ray, into a unit whose registers and pipelines are full of another one. -/
theorem initialisation_aligned_level :
    let stale : Vtu := ⟨1, 0, true, false, .idle, 9, ⟨7, 7, 7⟩, ⟨7, 7, 7⟩, ⟨1, 1, 1⟩, ⟨7, 7, 7⟩,
      ⟨7, 7, 7⟩, ⟨⟨5, 5, 5⟩, ⟨7, 7, 7⟩, .y⟩, 3, 7,
      ⟨⟨7, 7, 7⟩, ⟨7, 7, 7⟩, ⟨7, 7, 7⟩, ⟨7, 7, 7⟩, ⟨7, 7, 7⟩, ⟨7, 7, 7, 7, 7, 7⟩, ⟨7, 7, 7⟩⟩,
      ⟨7, 7, 7, 7, 7⟩⟩
    let input : Nat → VtuIn := fun k => ⟨decide (k = 0), ⟨0x180, 0x80, 0x80⟩, ⟨0x100, 0, 0⟩, 0, false⟩
    (trace risingClkEdge input stale 14).state = .traversing ∧
      (trace risingClkEdge input stale 14).rayDir = ⟨0xc4, 0, 0⟩ := by
  intro stale input
  obtain ⟨-, entered, -, -, dir, -⟩ := @initialisation_aligned input stale rfl
    (fun k hk _ => decide_eq_false hk.ne')
  have level : normalize ⟨0x100, 0, 0⟩ = ⟨0xc4, 0, 0⟩ := by decide +kernel
  exact ⟨entered, dir.trans level⟩

end Vtu

/-! ### A unit with its chunk -/

def CasterIn.resets (i : CasterIn) : Bool := i.rst || i.vtuRst

def CasterIn.held (i : CasterIn) : CasterIn := { i with rst := false, vtuRst := false }

def launch (i : CasterIn) (k : Nat) : CasterIn := if k = 0 then i else i.held

def CasterIn.setup (i : CasterIn) : RaySetup := raySetup i.rayOrigin i.rayDirection

variable (i : CasterIn) (s : Caster)

theorem launch_succ (k : Nat) : launch i (k + 1) = i.held := if_neg (Nat.succ_ne_zero k)

theorem launch_of_pos {k : Nat} (hk : 0 < k) : launch i k = i.held := if_neg hk.ne'

variable (rom)

def launchIn (k : Nat) : VtuIn :=
  Caster.vtuIn (launch i k) (trace (Caster.risingClkEdge rom) (launch i) s k)

theorem launch_vtu (n : Nat) : (trace (Caster.risingClkEdge rom) (launch i) s n).vtu =
    trace Vtu.risingClkEdge (launchIn rom i s) s.vtu n :=
  @trace_component _ _ (Caster.risingClkEdge rom) _ _ Vtu.risingClkEdge Caster.vtu Caster.vtuIn
    (fun _ _ => rfl) (launch i) s n

theorem launchIn_running (k : Nat) (hk : 0 < k) (_ : k < 14) : (launchIn rom i s k).rst = false := by
  unfold launchIn
  rw [launch_of_pos i hk]
  rfl

variable {i}

theorem launch_initialising (hrst : i.resets = true) {k : Nat} (hk : k ≤ 12) :
    Initialising i.rayOrigin i.rayDirection k
      (trace (Caster.risingClkEdge rom) (launch i) s (k + 1)).vtu := by
  rw [launch_vtu]
  exact Vtu.initialising s.vtu hrst (launchIn_running rom i s) hk

theorem launch_traversing (hrst : i.resets = true) :
    Traversing i.setup 0 i.setup.start
      (trace (Caster.risingClkEdge rom) (launch i) s 14).vtu := by
  rw [launch_vtu]
  exact Vtu.traversing s.vtu hrst (launchIn_running rom i s)

end FpgaCraft.Hardware
