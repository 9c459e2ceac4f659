import FpgaCraft.Hardware.StaleRay

/-! ## The pixels of a frame

A ray is launched with `next_pixel_addr` in the edge that increments it, so the first pixel
is rendered twice, and the frame ends with the last one on its way. -/
namespace FpgaCraft.Hardware
open Library

def fixedOfNat (n : Nat) : Fixed := BitVec.ofNat B (n <<< D)

namespace Orchestrator
variable {U : TraversalUnit} {i : OrchestratorIn} {frame m o : Orchestrator U} {k n t : Nat}

/-- The direction of the ray through pixel `(a % FRAME_WIDTH, a / FRAME_WIDTH)`. -/
def pixelDirection (frame : Orchestrator U) (a : Nat) : Vec3 :=
  vsub (vadd frame.pixel0Loc (vadd (vmul frame.pixelDu (fixedOfNat (a % FRAME_WIDTH)))
    (vmul frame.pixelDv (fixedOfNat (a / FRAME_WIDTH))))) frame.cameraPos

def pixelColor (frame : Orchestrator U) (a : Nat) : BitVec 16 :=
  sbufColor (U.cast frame.cameraPos (frame.pixelDirection a))

def pixelLatency (frame : Orchestrator U) (a : Nat) : Nat :=
  U.latency frame.cameraPos (frame.pixelDirection a)

def pixelWrite (frame : Orchestrator U) (a : Nat) : BitVec 11 × BitVec 16 :=
  (BitVec.ofNat 11 a, frame.pixelColor a)

theorem setWidth_append_zero {width : Nat} (c : BitVec width) :
    ((0 : BitVec 1) ++ c ++ (0 : BitVec D)).setWidth B = fixedOfNat c.toNat := by
  apply BitVec.eq_of_toNat_eq
  rw [BitVec.toNat_setWidth, BitVec.toNat_append, BitVec.toNat_append]
  simp [fixedOfNat]

theorem nextPixelX_ofNat (n : Nat) : nextPixelX (BitVec.ofNat 12 n) = fixedOfNat (n % FRAME_WIDTH) := by
  rw [nextPixelX, setWidth_append_zero, BitVec.extractLsb'_toNat, BitVec.toNat_ofNat,
    Nat.shiftRight_zero]
  congr 1
  simp only [FRAME_WIDTH, Nat.reducePow]
  omega

theorem nextPixelY_ofNat (hn : n < FRAME_AREA) :
    nextPixelY (BitVec.ofNat 12 n) = fixedOfNat (n / FRAME_WIDTH) := by
  have hn' : n < 2048 := hn
  rw [nextPixelY, setWidth_append_zero, BitVec.extractLsb'_toNat, BitVec.toNat_ofNat,
    Nat.shiftRight_eq_div_pow]
  congr 1
  simp only [FRAME_WIDTH, Nat.reducePow]
  omega

structure SameCamera (frame m : Orchestrator U) : Prop where
  cameraPos : m.cameraPos = frame.cameraPos
  pixelDu : m.pixelDu = frame.pixelDu
  pixelDv : m.pixelDv = frame.pixelDv
  pixel0Loc : m.pixel0Loc = frame.pixel0Loc

theorem SameCamera.direction (h : SameCamera frame m) (hnext : m.nextPixelAddr = BitVec.ofNat 12 n)
    (hn : n < FRAME_AREA) : vsub m.pixelLoc m.cameraPos = frame.pixelDirection n := by
  rw [pixelLoc, pixelDirection, hnext, nextPixelX_ofNat, nextPixelY_ofNat hn, h.cameraPos, h.pixelDu,
    h.pixelDv, h.pixel0Loc]

theorem SameCamera.rendering (h : SameCamera frame m) (hrst : i.rst = false)
    (hstate : m.state = .rendering) : SameCamera frame (m.risingClkEdge i) := by
  have hcontrol := control_rendering hrst hstate
  exact ⟨(congrArg Orchestrator.cameraPos hcontrol).trans h.cameraPos,
    (congrArg Orchestrator.pixelDu hcontrol).trans h.pixelDu,
    (congrArg Orchestrator.pixelDv hcontrol).trans h.pixelDv,
    (congrArg Orchestrator.pixel0Loc hcontrol).trans h.pixel0Loc⟩

/-- `n` pixels are accounted for, and the ray of the one before the next is on its way. -/
structure Rendering (frame : Orchestrator U) (n : Nat) (m : Orchestrator U) : Prop where
  state : m.state = .rendering
  vtu : ∃ rst, m.vtu = ⟨rst, false, frame.cameraPos, frame.pixelDirection (n - 1), BitVec.ofNat 16 (n - 1)⟩
  nextPixelAddr : m.nextPixelAddr = BitVec.ofNat 12 n
  frameDone : m.frameDone = false
  camera : SameCamera frame m

structure Launched (frame : Orchestrator U) (n : Nat) (m : Orchestrator U) : Prop
    extends Rendering frame n m where
  rst : m.vtu.rst = true

structure Tracing (frame : Orchestrator U) (n k : Nat) (m : Orchestrator U) : Prop
    extends Rendering frame n m where
  rst : m.vtu.rst = false
  flying : m.Flying k

theorem ofNat_eq_frameArea (hn : n ≤ FRAME_AREA) :
    BitVec.ofNat 12 n = (FRAME_AREA : BitVec 12) ↔ n = FRAME_AREA := by
  refine ⟨fun heq => ?_, fun heq => heq ▸ rfl⟩
  have hnat := congrArg BitVec.toNat heq
  change n % 4096 = 2048 at hnat
  change n ≤ 2048 at hn
  change n = 2048
  omega

theorem renderingEdge_state (hstate : m.state = .rendering)
    (hnext : m.nextPixelAddr = BitVec.ofNat 12 n) (hn : n < FRAME_AREA) :
    m.renderingEdge.state = .rendering ∧ m.renderingEdge.frameDone = m.frameDone := by
  have hne : m.nextPixelAddr ≠ (FRAME_AREA : BitVec 12) := by
    rw [hnext]
    exact (ofNat_eq_frameArea hn.le).not.mpr hn.ne
  exact ⟨(if_neg hne).trans hstate, if_neg hne⟩

theorem Rendering.wait (h : Rendering frame n m) (hn : n < FRAME_AREA) (hrst : i.rst = false)
    (hvalid : m.vtuValid = false) :
    Rendering frame n (m.risingClkEdge i) ∧
      (m.risingClkEdge i).vtu = { m.vtu with rst := false } := by
  obtain ⟨rst, hvtu⟩ := h.vtu
  have hcontrol := control_rendering hrst h.state
  have hlaunch : m.launches = false := by simp [launches, hvalid, hvtu]
  have hslot : (m.risingClkEdge i).vtu = { m.vtu with rst := false } := by
    have hkept := arbitrate_of_not_launches hrst hlaunch
    rwa [if_pos h.state] at hkept
  obtain ⟨hstate, hdone⟩ := renderingEdge_state h.state h.nextPixelAddr hn
  refine ⟨⟨(congrArg Orchestrator.state hcontrol).trans hstate, ⟨false, ?_⟩,
    (congrArg Orchestrator.nextPixelAddr hcontrol).trans ?_,
    (congrArg Orchestrator.frameDone hcontrol).trans (hdone.trans h.frameDone),
    h.camera.rendering hrst h.state⟩, hslot⟩
  · rw [hslot, hvtu]
  · refine Eq.trans ?_ h.nextPixelAddr
    exact if_neg (Bool.eq_false_iff.mp hvalid)

theorem launched_of_launches (hstate : m.state = .rendering) (hlaunch : m.launches = true)
    (hnext : m.nextPixelAddr = BitVec.ofNat 12 n) (hn : n < FRAME_AREA) (hdone : m.frameDone = false)
    (hcamera : SameCamera frame m) (hrst : i.rst = false) {n' : Nat}
    (hn' : n' = if m.vtuValid then n + 1 else n) (hpixel : n' - 1 = n) :
    Launched frame n' (m.risingClkEdge i) := by
  have hcontrol := control_rendering hrst hstate
  have hslot : (m.risingClkEdge i).vtu = m.nextSlot := arbitrate_of_launches hrst hlaunch
  obtain ⟨hstate', hdone'⟩ := renderingEdge_state hstate hnext hn
  refine ⟨⟨(congrArg Orchestrator.state hcontrol).trans hstate', ⟨true, ?_⟩,
    (congrArg Orchestrator.nextPixelAddr hcontrol).trans ?_,
    (congrArg Orchestrator.frameDone hcontrol).trans (hdone'.trans hdone),
    hcamera.rendering hrst hstate⟩, by rw [hslot]; rfl⟩
  · rw [hslot, nextSlot, hcamera.direction hnext hn, hcamera.cameraPos, hnext, hpixel]
    congr 1
    apply BitVec.eq_of_toNat_eq
    have hn2 : n < 2048 := hn
    simp only [BitVec.toNat_setWidth, BitVec.toNat_ofNat]
    omega
  · change (if m.vtuValid then m.nextPixelAddr + 1 else m.nextPixelAddr) = _
    rw [hn', hnext]
    split
    · rw [BitVec.ofNat_add]
      rfl
    · rfl

theorem Rendering.rayLatency (h : Rendering frame n m) : m.rayLatency = frame.pixelLatency (n - 1) := by
  obtain ⟨rst, hvtu⟩ := h.vtu
  rw [Orchestrator.rayLatency, hvtu, pixelLatency]

theorem Launched.not_valid (h : Launched frame n m) : m.vtuValid = false := by
  simp [vtuValid, h.rst]

theorem Tracing.vtuValid (h : Tracing frame n k m) :
    m.vtuValid = decide (frame.pixelLatency (n - 1) ≤ k) := by
  rw [Orchestrator.vtuValid, h.flying.hitValid, h.rayLatency, h.rst, Bool.not_false, Bool.and_true]

theorem Launched.edge (h : Launched frame n m) (hn : n < FRAME_AREA) (hrst : i.rst = false) :
    Tracing frame n 0 (m.risingClkEdge i) := by
  obtain ⟨hrendering, hslot⟩ := h.toRendering.wait hn hrst h.not_valid
  have hkept : m.arbitrate i = { m.vtu with rst := false } := hslot
  exact ⟨hrendering, by rw [hslot], flying_of_resets (.inr h.rst) (by rw [hkept]) (by rw [hkept])⟩

theorem Tracing.edge (h : Tracing frame n k m) (hn : n < FRAME_AREA) (hrst : i.rst = false)
    (hk : k < frame.pixelLatency (n - 1)) : Tracing frame n (k + 1) (m.risingClkEdge i) := by
  have hvalid : m.vtuValid = false := by rw [h.vtuValid, decide_eq_false (by omega)]
  obtain ⟨hrendering, hslot⟩ := h.toRendering.wait hn hrst hvalid
  have hkept : m.arbitrate i = { m.vtu with rst := false } := hslot
  exact ⟨hrendering, by rw [hslot], h.flying.edge hrst h.rst (by rw [hkept]) (by rw [hkept])⟩

theorem Tracing.answered (h : Tracing frame n k m) (hn : n < FRAME_AREA) (hrst : i.rst = false)
    (hvalid : m.vtuValid = true) : Launched frame (n + 1) (m.risingClkEdge i) :=
  launched_of_launches h.state (launches_eq_true.mpr ⟨h.state, .inl hvalid⟩) h.nextPixelAddr hn
    h.frameDone h.camera hrst (by rw [if_pos hvalid]) rfl

theorem Tracing.sbufWrite (h : Tracing frame n k m) (hrst : i.rst = false)
    (hvalid : m.vtuValid = true) : m.sbufWrite i = some (frame.pixelWrite (n - 1)) := by
  obtain ⟨rst, hvtu⟩ := h.vtu
  rw [sbufWrite_eq_some ((sbufWriteEnable_eq_true hrst).mpr ⟨h.state, hvalid⟩) hvalid,
    h.flying.color hvalid, rayColor, hvtu]
  refine congrArg (fun addr => some (addr, frame.pixelColor (n - 1))) ?_
  apply BitVec.eq_of_toNat_eq
  simp only [BitVec.toNat_setWidth, BitVec.toNat_ofNat]
  omega

theorem sbufWrite_of_not_valid (hvalid : m.vtuValid = false) : m.sbufWrite i = none := by
  simp [Orchestrator.sbufWrite, sbufWriteEnable, hvalid]

theorem Launched.finish (h : Launched frame FRAME_AREA m) (hrst : i.rst = false) :
    (m.risingClkEdge i).frameDone = true := by
  refine (congrArg Orchestrator.frameDone (control_rendering hrst h.state)).trans ?_
  exact if_pos (h.nextPixelAddr.trans ((ofNat_eq_frameArea le_rfl).mpr rfl))

section Run
variable {inputs : Nat → OrchestratorIn}

/-- From the launch of a pixel to the launch of the next, its colour is written once. -/
theorem Launched.round (hquiet : ∀ j, 0 < j → (inputs j).rst = false) (ht : 0 < t)
    (h : Launched frame n (trace risingClkEdge inputs o t)) (hn : n < FRAME_AREA) :
    Launched frame (n + 1) (trace risingClkEdge inputs o (t + (frame.pixelLatency (n - 1) + 2))) ∧
      events risingClkEdge sbufWrite inputs o (t + (frame.pixelLatency (n - 1) + 2)) =
        events risingClkEdge sbufWrite inputs o t ++ [frame.pixelWrite (n - 1)] ∧
      ∀ j, j ≤ frame.pixelLatency (n - 1) + 2 →
        (trace risingClkEdge inputs o (t + j)).frameDone = false := by
  have htracing (k : Nat) (hk : k ≤ frame.pixelLatency (n - 1)) :
      Tracing frame n k (trace risingClkEdge inputs o (t + (k + 1))) := by
    induction k with
    | zero => exact h.edge hn (hquiet t ht)
    | succ k ih => exact (ih (by omega)).edge hn (hquiet (t + (k + 1)) (by omega)) (by omega)
  have hlast := htracing (frame.pixelLatency (n - 1)) le_rfl
  have hvalid := hlast.vtuValid.trans (decide_eq_true le_rfl)
  have hsilent : events risingClkEdge sbufWrite inputs o (t + (frame.pixelLatency (n - 1) + 1)) =
      events risingClkEdge sbufWrite inputs o t := by
    refine events_add_of_none fun j hj => sbufWrite_of_not_valid ?_
    cases j with
    | zero => exact h.not_valid
    | succ j => rw [(htracing j (by omega)).vtuValid, decide_eq_false (by omega)]
  have hrst := hquiet (t + (frame.pixelLatency (n - 1) + 1)) (by omega)
  have hnext := hlast.answered hn hrst hvalid
  refine ⟨hnext, ?_, fun j hj => ?_⟩
  · have hwrite := hlast.sbufWrite hrst hvalid
    refine (events_succ sbufWrite inputs o (t + (frame.pixelLatency (n - 1) + 1))).trans ?_
    rw [hsilent, hwrite]
    rfl
  · rcases Nat.eq_or_lt_of_le hj with rfl | hlt
    · exact hnext.frameDone
    · cases j with
      | zero => exact h.frameDone
      | succ j => exact (htracing j (by omega)).frameDone

def NotDone (inputs : Nat → OrchestratorIn) (o : Orchestrator U) (t : Nat) : Prop :=
  ∀ k, 0 < k → k ≤ t → (trace risingClkEdge inputs o k).frameDone = false

theorem NotDone.append {d : Nat} (h : NotDone inputs o t)
    (hwait : ∀ j, j ≤ d → (trace risingClkEdge inputs o (t + j)).frameDone = false) :
    NotDone inputs o (t + d) := by
  intro k hk hk'
  rcases Nat.lt_or_ge k t with hlt | hge
  · exact h k hk hlt.le
  · obtain ⟨j, rfl⟩ := Nat.exists_eq_add_of_le hge
    exact hwait j (by omega)

def prologue (frame o : Orchestrator U) : List (BitVec 11 × BitVec 16) :=
  if o.stale then [(o.vtu.writeAddr.setWidth 11, o.rayColor)] else [frame.pixelWrite 0]

/-- `n` pixels are accounted for, and all but the last are written. -/
structure Progress (inputs : Nat → OrchestratorIn) (frame o : Orchestrator U) (n t : Nat) : Prop where
  pos : 0 < t
  launched : Launched frame n (trace risingClkEdge inputs o t)
  writes : events risingClkEdge sbufWrite inputs o t =
    prologue frame o ++ (List.range (n - 1)).map frame.pixelWrite
  notDone : NotDone inputs o t

theorem events_warming (hrst : (inputs 0).rst = true) (hquiet : ∀ j, 0 < j → (inputs j).rst = false) :
    events risingClkEdge sbufWrite inputs o 18 = [] := by
  have hnone : events risingClkEdge sbufWrite inputs o (0 + 18) =
      events risingClkEdge sbufWrite inputs o 0 := by
    refine events_add_of_none fun k hk => ?_
    rw [Nat.zero_add]
    cases k with
    | zero => simp [Orchestrator.sbufWrite, sbufWriteEnable, hrst]
    | succ k =>
      have hwarm := warming (o := o) (k := k) hrst (by omega) fun j hj _ => hquiet j hj
      simp [Orchestrator.sbufWrite, sbufWriteEnable, hwarm.state_init (by omega)]
  exact hnone

/-- The first launch: with `next_pixel_addr` already one further after a stale write. -/
theorem launched_first (hrst : (inputs 0).rst = true) (hquiet : ∀ j, 0 < j → (inputs j).rst = false) :
    Launched (trace risingClkEdge inputs o 18) (if o.stale then 1 else 0)
        (trace risingClkEdge inputs o 19) ∧
      events risingClkEdge sbufWrite inputs o 19 =
        if o.stale then [(o.vtu.writeAddr.setWidth 11, o.rayColor)] else [] := by
  have hwarm := warming (o := o) (k := 17) hrst le_rfl fun j hj _ => hquiet j hj
  have hrst₁₈ := hquiet 18 (by omega)
  refine ⟨?_, ?_⟩
  · have hlaunch := launches_eq_true.mpr ⟨hwarm.state_rendering, .inr (by rw [hwarm.vtu])⟩
    refine launched_of_launches hwarm.state_rendering hlaunch hwarm.nextPixelAddr (by decide)
      hwarm.frameDone ⟨rfl, rfl, rfl, rfl⟩ hrst₁₈ (by rw [hwarm.vtuValid]) ?_
    split <;> rfl
  · rw [events_succ, events_warming hrst hquiet, List.nil_append]
    cases hstale : o.stale with
    | false => rw [sbufWrite_of_not_valid (hwarm.vtuValid.trans hstale)]; rfl
    | true =>
      have hvalid := hwarm.vtuValid.trans hstale
      have hoff : o.vtu.rst = false := by
        simpa using (Bool.and_eq_true_iff.mp hstale).1
      have hwrite := sbufWrite_eq_some
        ((sbufWriteEnable_eq_true hrst₁₈).mpr ⟨hwarm.state_rendering, hvalid⟩) hvalid
      rw [hwrite, (hwarm.flying hoff).color hvalid, rayColor, hwarm.vtu]
      rfl

theorem progress_one (hrst : (inputs 0).rst = true) (hquiet : ∀ j, 0 < j → (inputs j).rst = false) :
    ∃ t, Progress inputs (trace risingClkEdge inputs o 18) o 1 t := by
  obtain ⟨hlaunched, hwrites⟩ := launched_first (o := o) hrst hquiet
  have hnotDone : NotDone inputs o 19 := by
    intro k hk hk'
    rcases Nat.lt_or_ge k 19 with hlt | hge
    · obtain ⟨n, rfl⟩ := Nat.exists_eq_add_of_lt hk
      rw [Nat.zero_add]
      exact (warming (o := o) hrst (by omega) fun j hj _ => hquiet j hj).frameDone
    · obtain rfl : k = 19 := by omega
      exact hlaunched.frameDone
  cases hstale : o.stale with
  | true =>
    rw [hstale] at hlaunched hwrites
    exact ⟨19, by omega, hlaunched, by rw [hwrites, prologue, hstale]; rfl, hnotDone⟩
  | false =>
    rw [hstale] at hlaunched hwrites
    obtain ⟨hnext, hwrite, hwait⟩ := hlaunched.round hquiet (by omega) (by decide)
    exact ⟨_, by omega, hnext, by rw [hwrite, hwrites, prologue, hstale]; rfl, hnotDone.append hwait⟩

theorem Progress.next (hquiet : ∀ j, 0 < j → (inputs j).rst = false)
    (h : Progress inputs frame o n t) (hpos : 0 < n) (hn : n < FRAME_AREA) :
    ∃ t', Progress inputs frame o (n + 1) t' := by
  obtain ⟨hnext, hwrite, hwait⟩ := h.launched.round hquiet h.pos hn
  have hlt := h.pos
  refine ⟨_, by omega, hnext, ?_, h.notDone.append hwait⟩
  obtain ⟨m, rfl⟩ := Nat.exists_eq_add_of_lt hpos
  rw [Nat.zero_add] at *
  rw [hwrite, h.writes, List.append_assoc, Nat.add_sub_cancel, Nat.add_sub_cancel, List.range_succ,
    List.map_append]
  rfl

theorem progress (hrst : (inputs 0).rst = true) (hquiet : ∀ j, 0 < j → (inputs j).rst = false)
    (hpos : 0 < n) (hn : n ≤ FRAME_AREA) :
    ∃ t, Progress inputs (trace risingClkEdge inputs o 18) o n t := by
  induction n, hpos using Nat.le_induction with
  | base => exact progress_one hrst hquiet
  | succ n hpos ih =>
    obtain ⟨t, h⟩ := ih (by omega)
    exact h.next hquiet hpos (by omega)

def FirstDone (inputs : Nat → OrchestratorIn) (o : Orchestrator U) (done : Nat) : Prop :=
  (trace risingClkEdge inputs o done).frameDone = true ∧
    ∀ k, 0 < k → k < done → (trace risingClkEdge inputs o k).frameDone = false

theorem FirstDone.unique {done done' : Nat} (h : FirstDone inputs o done)
    (h' : FirstDone inputs o done') (hpos : 0 < done) (hpos' : 0 < done') : done = done' := by
  rcases Nat.lt_trichotomy done done' with hlt | heq | hlt
  · exact absurd ((h'.2 done hpos hlt).symm.trans h.1) Bool.false_ne_true
  · exact heq
  · exact absurd ((h.2 done' hpos' hlt).symm.trans h'.1) Bool.false_ne_true

theorem frame_writes (hrst : (inputs 0).rst = true) (hquiet : ∀ j, 0 < j → (inputs j).rst = false) :
    ∃ done, 0 < done ∧ FirstDone inputs o done ∧
      events risingClkEdge sbufWrite inputs o done =
        prologue (trace risingClkEdge inputs o 18) o ++
          (List.range (FRAME_AREA - 1)).map (trace risingClkEdge inputs o 18).pixelWrite := by
  obtain ⟨t, h⟩ := progress (o := o) (n := FRAME_AREA) hrst hquiet (by decide) le_rfl
  refine ⟨t + 1, Nat.succ_pos t, ⟨h.launched.finish (hquiet t h.pos), fun k hk hk' =>
    h.notDone k hk (by omega)⟩, ?_⟩
  rw [events_succ, sbufWrite_of_not_valid h.launched.not_valid, Option.toList_none, List.append_nil,
    h.writes]

end Run

theorem lastWritten_pixels (log : List (BitVec 11 × BitVec 16)) {a : Nat} (ha : a < FRAME_AREA)
    (hn : n ≤ FRAME_AREA) :
    lastWritten (log ++ (List.range n).map frame.pixelWrite) (BitVec.ofNat 11 a) =
      if a < n then some (frame.pixelColor a) else lastWritten log (BitVec.ofNat 11 a) := by
  induction n with
  | zero => simp
  | succ n ih =>
    have haddr : (frame.pixelWrite n).1 = BitVec.ofNat 11 a ↔ n = a := by
      refine ⟨fun heq => ?_, fun heq => heq ▸ rfl⟩
      have hnat : (BitVec.ofNat 11 n).toNat = (BitVec.ofNat 11 a).toNat := congrArg BitVec.toNat heq
      have ha' : a < 2048 := ha
      have hn' : n + 1 ≤ 2048 := hn
      rw [BitVec.toNat_ofNat, BitVec.toNat_ofNat] at hnat
      omega
    rw [List.range_succ, List.map_append, ← List.append_assoc, List.map_singleton, lastWritten_concat,
      ih (by omega)]
    by_cases heq : n = a
    · rw [if_pos (haddr.mpr heq), if_pos (by omega), ← heq]
      rfl
    · rw [if_neg (haddr.not.mpr heq)]
      by_cases hlt : a < n
      · rw [if_pos hlt, if_pos (by omega)]
      · rw [if_neg hlt, if_neg (by omega)]

/-- By the first cycle in which `frame_done` is high, every address has been written, and
last with the colour of its own pixel. -/
def FrameCovered (o : Orchestrator U) (inputs : Nat → OrchestratorIn) : Prop :=
  ∃ done, 0 < done ∧ FirstDone inputs o done ∧ ∀ a, a < FRAME_AREA →
    lastWritten (events risingClkEdge sbufWrite inputs o done) (BitVec.ofNat 11 a) =
      some ((trace risingClkEdge inputs o 18).pixelColor a)

theorem lastWritten_prologue (frame o : Orchestrator U) (color : BitVec 16) :
    lastWritten (prologue frame o) (BitVec.ofNat 11 (FRAME_AREA - 1)) = some color ↔
      o.stale = true ∧ o.vtu.writeAddr.setWidth 11 = BitVec.ofNat 11 (FRAME_AREA - 1) ∧
        o.rayColor = color := by
  rw [prologue]
  cases o.stale with
  | true =>
    by_cases haddr : o.vtu.writeAddr.setWidth 11 = BitVec.ofNat 11 (FRAME_AREA - 1)
    · simp [lastWritten, haddr]
    · simp [lastWritten, haddr]
  | false =>
    have haddr : BitVec.ofNat 11 0 ≠ BitVec.ofNat 11 (FRAME_AREA - 1) := by decide
    simp [lastWritten, pixelWrite, haddr]

variable {inputs : Nat → OrchestratorIn}

theorem frameCovered_iff_prologue (hrst : (inputs 0).rst = true)
    (hquiet : ∀ j, 0 < j → (inputs j).rst = false) :
    o.FrameCovered inputs ↔
      lastWritten (prologue (trace risingClkEdge inputs o 18) o) (BitVec.ofNat 11 (FRAME_AREA - 1)) =
        some ((trace risingClkEdge inputs o 18).pixelColor (FRAME_AREA - 1)) := by
  obtain ⟨done, hpos, hdone, hwrites⟩ := frame_writes (o := o) hrst hquiet
  have hlast (a : Nat) (ha : a < FRAME_AREA) := @lastWritten_pixels U
    (trace risingClkEdge inputs o 18) (FRAME_AREA - 1) (prologue (trace risingClkEdge inputs o 18) o)
    a ha (Nat.sub_le _ _)
  refine ⟨fun ⟨done', hpos', hdone', hcovered⟩ => ?_, fun h => ⟨done, hpos, hdone, fun a ha => ?_⟩⟩
  · obtain rfl := hdone.unique hdone' hpos hpos'
    have hcell := hcovered (FRAME_AREA - 1) (by decide)
    rwa [hwrites, hlast _ (by decide), if_neg (Nat.lt_irrefl _)] at hcell
  · rw [hwrites, hlast a ha]
    by_cases hlt : a < FRAME_AREA - 1
    · rw [if_pos hlt]
    · obtain rfl : a = FRAME_AREA - 1 := by omega
      rw [if_neg hlt, h]

end Orchestrator

/-- A frame is covered exactly if the ray of the last frame is answered when RENDERING begins
and its colour, written where the last frame ended, happens to be that of the last pixel. -/
theorem frame_covered_iff (U : TraversalUnit) (o : Orchestrator U) (inputs : Nat → OrchestratorIn)
    (hrst : (inputs 0).rst = true) (hquiet : ∀ j, 0 < j → (inputs j).rst = false) :
    o.FrameCovered inputs ↔
      (o.vtu.rst = false ∧ o.rayLatency ≤ 17) ∧
        o.vtu.writeAddr.setWidth 11 = BitVec.ofNat 11 (FRAME_AREA - 1) ∧
        o.rayColor = (trace Orchestrator.risingClkEdge inputs o 18).pixelColor (FRAME_AREA - 1) := by
  have hstale : o.stale = true ↔ o.vtu.rst = false ∧ o.rayLatency ≤ 17 := by
    rw [Orchestrator.stale, Bool.and_eq_true, Bool.not_eq_true', decide_eq_true_eq]
  rw [Orchestrator.frameCovered_iff_prologue hrst hquiet, Orchestrator.lastWritten_prologue, hstale]

/-- A unit that was left on the last pixel, in a stone that also fills the new frame. -/
theorem frame_covered_iff_stone :
    let rom : Rom := fun _ => BLOCK_STONE
    let o : Orchestrator (casterUnit rom) :=
      { Orchestrator.powerUp rom with vtu := ⟨false, false, 0, 0, 2047⟩ }
    o.FrameCovered (Orchestrator.frameInputs 0 0) := by
  intro rom o
  refine (frame_covered_iff (casterUnit rom) o _ rfl
    fun j hj => Orchestrator.frameInputs_quiet 0 0 hj).mpr ?_
  decide +kernel

/-- The frame of the test bench, in an empty chunk: the last pixel is never written. -/
theorem last_pixel_unwritten :
    let o := Orchestrator.powerUp fun _ => BLOCK_AIR
    let inputs := Orchestrator.frameInputs ⟨0, 0x300, 0⟩ ⟨0, 0, FIXED_1⟩
    (∃ done, 0 < done ∧ Orchestrator.FirstDone inputs o done ∧
      lastWritten (events Orchestrator.risingClkEdge Orchestrator.sbufWrite inputs o done) 2047 = none) ∧
      ¬o.FrameCovered inputs := by
  intro o inputs
  have hquiet : ∀ j, 0 < j → (inputs j).rst = false := fun j hj => Orchestrator.frameInputs_quiet _ _ hj
  have hstale : o.stale = false := by decide +kernel
  refine ⟨?_, fun h => ?_⟩
  · obtain ⟨done, hpos, hdone, hwrites⟩ := Orchestrator.frame_writes (o := o) rfl hquiet
    refine ⟨done, hpos, hdone, ?_⟩
    rw [hwrites]
    refine (Orchestrator.lastWritten_pixels (a := 2047) _ (by decide) (by decide)).trans ?_
    rw [if_neg (by decide), Orchestrator.prologue, hstale]
    rfl
  · rw [Orchestrator.frameCovered_iff_prologue rfl hquiet, Orchestrator.lastWritten_prologue, hstale] at h
    exact Bool.false_ne_true h.1
end FpgaCraft.Hardware
