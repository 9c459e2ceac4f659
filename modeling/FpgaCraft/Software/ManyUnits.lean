import FpgaCraft.Software.FrameDone

/-! ## Several units on one frame

All units begin a frame with the ray of its first pixel, and finish it together. The
counter counts what is written, so the frame ends before the pixels at its end are. -/
namespace FpgaCraft.Software
open Library

variable {cfg : FrameConfig} {P S : Nat} {ram : MockCache} {profile : Profile}

/-- What a frame owes its record when the next one is about to begin. -/
structure Lossless (ram : MockCache) (profile : Profile) (o : Orchestrator cfg P S)
    (record : FrameRecord cfg) : Prop where
  written : ∀ k, ∃ w ∈ record.writes, w.1 = k
  ownRay : ∃ camera, Camera.init cfg record.inputs = some camera ∧
    ∀ w ∈ record.writes, PixelColour cfg ram profile camera w.1 w.2
  notAbandoned : ∀ u, (o.cluster.vtu u).currentPixel < cfg.NUM_PIXELS →
    ∃ w ∈ record.writes, w.1.val = (o.cluster.vtu u).currentPixel

/-! ### Every unit works on a ray of the frame -/

structure Working (ram : MockCache) (profile : Profile) (camera : Camera)
    (o : Orchestrator cfg P S) : Prop where
  latched : o.camera = camera
  valid : o.cluster.memory.Valid ram profile
  pixel : ∀ k, OnPixel cfg camera (o.cluster.vtu k).currentPixel (o.cluster.vtu k)
  ray : ∀ k, OnRay ram profile k o.cluster

section Working
variable [NeZero S] {o o' : Orchestrator cfg P S} {camera : Camera} {i : CameraIn} {e : FrameEvent cfg}

theorem Working.of_begin (valid : o.cluster.memory.Valid ram profile)
    (hnext : o.nextPixel = cfg.NUM_PIXELS)
    (h : o.risingClkEdge ram profile false i = some (o', e)) :
    e = .begin i ∧ o'.nextPixel = 0 ∧
      ∃ camera, Camera.init cfg i = some camera ∧ Working ram profile camera o' := by
  obtain ⟨c, camera, direction, hcluster, hcamera, hdirection, rfl, rfl⟩ :=
    Orchestrator.risingClkEdge_begin hnext h
  have hpos := Camera.cameraPos_of_init hcamera
  have valid' := Cluster.valid_risingClkEdge (fun _ => valid) hcluster
  refine ⟨rfl, rfl, camera, hcamera, rfl, valid', fun k => ⟨rfl, hpos.symm, ?_⟩, fun k => .inl rfl⟩
  dsimp only [VoxelTraversalUnit.assign]
  rw [Camera.rayDirection_zero, hpos]
  exact hdirection

theorem Working.edge (working : Working ram profile camera o) (hnext : o.nextPixel ≠ cfg.NUM_PIXELS)
    (h : o.risingClkEdge ram profile false i = some (o', e)) :
    Working ram profile camera o' ∧
      (e = .none ∧ o'.nextPixel = o.nextPixel ∨
        ∃ index colour, e = .pixel index colour ∧ o'.nextPixel = o.nextPixel + 1 ∧
          PixelColour cfg ram profile camera index colour) := by
  obtain ⟨c, hcluster, hcases⟩ := Orchestrator.risingClkEdge_render hnext h
  have valid := Cluster.valid_risingClkEdge (fun _ => working.valid) hcluster
  have pixel (k : Fin P) : OnPixel cfg camera (c.vtu k).currentPixel (c.vtu k) := by
    have onPixel := (working.pixel k).edge working.valid hcluster
    exact ⟨rfl, onPixel.origin, onPixel.currentPixel.symm ▸ onPixel.direction⟩
  have cast (k : Fin P) := (working.ray k).edge working.valid hcluster
  have sampled {vtu : Fin P → VoxelTraversalUnit} (k : Fin P)
      (hk : vtu k = { c.vtu k with rayInitIn := false }) : OnRay ram profile k { c with vtu := vtu } := by
    obtain ⟨setup, hsetup, inCast⟩ := cast k
    refine .inr ⟨by dsimp only; rw [hk], setup, by dsimp only; rw [hk]; exact hsetup, ?_⟩
    have hk' : vtu k = (c.vtu k).assign (c.vtu k).currentPixel
        ⟨(c.vtu k).rayOriginIn, (c.vtu k).rayDirectionIn, false⟩ := hk
    exact inCast.assign hk'
  rcases hcases with ⟨-, rfl, rfl⟩ | ⟨k, inFrame, colour, direction, hk, hcolour, hdirection, rfl, rfl⟩
  · exact ⟨⟨working.latched, valid, fun k => ⟨rfl, (pixel k).origin, (pixel k).direction⟩,
      fun k => sampled k rfl⟩, .inl ⟨rfl, rfl⟩⟩
  · rw [working.latched] at hdirection
    refine ⟨⟨working.latched, valid, fun j => ?_, fun j => ?_⟩, .inr ⟨_, colour, rfl, rfl, ?_⟩⟩
    · dsimp only [Orchestrator.assign]
      by_cases hj : j = k
      · rw [hj, Function.update_self]
        exact ⟨rfl, congrArg Camera.cameraPos working.latched, hdirection⟩
      · rw [Function.update_of_ne hj]
        exact ⟨rfl, (pixel j).origin, (pixel j).direction⟩
    · by_cases hj : j = k
      · refine .inl ?_
        dsimp only [Orchestrator.assign]
        rw [hj, Function.update_self]
        rfl
      · exact sampled j (Function.update_of_ne hj _ _)
    · obtain ⟨setup, hsetup, inCast⟩ := cast k
      rw [(pixel k).origin] at hsetup
      exact ⟨_, setup, _, _, (pixel k).direction, hsetup,
        inCast.finished (by simpa using List.find?_some hk), hcolour⟩

end Working

/-! ### The first pixel, once for every unit -/

/-- The registers of two walks agree, but for what earlier rays left in them. -/
structure SameWalk (v v' : VoxelTraversalUnit) : Prop where
  position : v.rayPosition = v'.rayPosition
  step : v.rayStep = v'.rayStep
  tDelta : v.rayTDelta = v'.rayTDelta
  tMax : v.rayTMax = v'.rayTMax
  numSteps : v.numSteps = v'.numSteps
  validOut : v.validOut = v'.validOut

theorem SameWalk.edge {v v' u u' : VoxelTraversalUnit} {ready ready' : Bool} {voxel voxel' : Block}
    {w w' : PortWrite} (same : SameWalk v v') (hinit : v.rayInitIn = false)
    (hinit' : v'.rayInitIn = false) (hready : ready = ready')
    (hvoxel : ready = true → voxel = voxel')
    (h : v.edge profile false ready voxel = some (u, w))
    (h' : v'.edge profile false ready' voxel' = some (u', w')) : SameWalk u u' ∧ w = w' := by
  obtain ⟨position, step, tDelta, tMax, numSteps, validOut⟩ := same
  subst hready
  simp only [VoxelTraversalUnit.edge, Bool.false_eq_true, if_false, hinit] at h
  simp only [VoxelTraversalUnit.edge, Bool.false_eq_true, if_false, hinit', ← validOut, ← numSteps,
    ← position, ← step, ← tDelta, ← tMax] at h'
  have keep {a b : VoxelTraversalUnit} {x y : PortWrite}
      (h : some (a, x) = some (u, w)) (h' : some (b, y) = some (u', w')) (hab : SameWalk a b)
      (hxy : x = y) : SameWalk u u' ∧ w = w' := by
    obtain ⟨rfl, rfl⟩ := Prod.mk.inj (Option.some.inj h)
    obtain ⟨rfl, rfl⟩ := Prod.mk.inj (Option.some.inj h')
    exact ⟨hab, hxy⟩
  by_cases hdone : v.validOut = true
  · rw [if_pos hdone] at h h'
    exact keep h h' ⟨position, step, tDelta, tMax, numSteps, validOut⟩ rfl
  · rw [if_neg hdone] at h h'
    by_cases hfar : 110 < v.numSteps
    · rw [if_pos hfar] at h h'
      exact keep h h' ⟨rfl, rfl, rfl, rfl, rfl, rfl⟩ rfl
    · rw [if_neg hfar] at h h'
      cases ready with
      | false =>
        rw [Bool.not_false, if_pos rfl] at h h'
        exact keep h h' ⟨position, step, tDelta, tMax, numSteps, validOut⟩ rfl
      | true =>
        obtain rfl := hvoxel rfl
        rw [Bool.not_true, if_neg Bool.false_ne_true] at h h'
        by_cases hhit : voxel ≠ .air
        · rw [if_pos hhit] at h h'
          obtain ⟨normal, -, h⟩ := Option.bind_eq_some_iff.mp h
          obtain ⟨normal', -, h'⟩ := Option.bind_eq_some_iff.mp h'
          exact keep h h' ⟨rfl, rfl, rfl, rfl, rfl, rfl⟩ rfl
        · rw [if_neg hhit] at h h'
          obtain ⟨⟨next, axis⟩, hadvance, h⟩ := Option.bind_eq_some_iff.mp h
          obtain ⟨⟨next', axis'⟩, hadvance', h'⟩ := Option.bind_eq_some_iff.mp h'
          obtain ⟨rfl, rfl⟩ := Prod.mk.inj (Option.some.inj (hadvance.symm.trans hadvance'))
          exact keep h h' ⟨rfl, rfl, rfl, rfl, rfl, rfl⟩ rfl

theorem sameWalk_of_init {v v' u u' : VoxelTraversalUnit} {ready ready' : Bool}
    {voxel voxel' : Block} {w w' : PortWrite} (hinit : v.rayInitIn = true)
    (hinit' : v'.rayInitIn = true) (horigin : v.rayOriginIn = v'.rayOriginIn)
    (hdirection : v.rayDirectionIn = v'.rayDirectionIn)
    (h : v.edge profile false ready voxel = some (u, w))
    (h' : v'.edge profile false ready' voxel' = some (u', w')) :
    SameWalk u u' ∧ w = w' ∧ ∃ addr, w = .request addr := by
  simp only [VoxelTraversalUnit.edge, Bool.false_eq_true, if_false, hinit, if_true] at h
  simp only [VoxelTraversalUnit.edge, Bool.false_eq_true, if_false, hinit', if_true, ← horigin,
    ← hdirection] at h'
  obtain ⟨setup, hsetup, h⟩ := Option.bind_eq_some_iff.mp h
  obtain ⟨setup', hsetup', h'⟩ := Option.bind_eq_some_iff.mp h'
  obtain rfl := Option.some.inj (hsetup.symm.trans hsetup')
  obtain ⟨rfl, rfl⟩ := Prod.mk.inj (Option.some.inj h)
  obtain ⟨rfl, rfl⟩ := Prod.mk.inj (Option.some.inj h')
  exact ⟨⟨rfl, rfl, rfl, rfl, rfl, rfl⟩, rfl, _, rfl⟩

theorem Memory.same_answer [NeZero S] {m m' : Memory P S} {p q : Fin P}
    (valid : m.Valid ram profile) (haddr : m.l2.addrIn p = m.l2.addrIn q)
    (hread : m.l2.readEnableIn p = m.l2.readEnableIn q)
    (h : m.risingClkEdge ram profile false = some m') :
    m'.l2.validOut p = m'.l2.validOut q ∧
      (m'.l2.validOut p = true → m'.l2.voxelOut p = m'.l2.voxelOut q) := by
  obtain ⟨-, keepAddr, keepRead, answered⟩ := Memory.risingClkEdge_spec valid h
  have same : m'.l2.validOut p = m'.l2.validOut q := by
    obtain ⟨⟨l2, l3⟩, hl2, hrest⟩ := Option.bind_eq_some_iff.mp h
    obtain ⟨l3', -, heq⟩ := Option.bind_eq_some_iff.mp hrest
    obtain rfl := Option.some.inj heq
    obtain ⟨filled, -, hpair⟩ := Option.bind_eq_some_iff.mp hl2
    obtain ⟨rfl, -⟩ := Prod.mk.inj (Option.some.inj hpair)
    have hread' : filled.readEnableIn p = filled.readEnableIn q := by
      change filled.readEnableIn = _ at keepRead
      rw [keepRead]
      exact hread
    have haddr' : filled.addrIn p = filled.addrIn q := by
      change filled.addrIn = _ at keepAddr
      rw [keepAddr]
      exact haddr
    apply Bool.eq_iff_iff.mpr
    rw [L2Cache.respond_validOut, L2Cache.respond_validOut, hread', haddr']
  refine ⟨same, fun hp => ?_⟩
  have answerP := (answered p hp).2
  have answerQ := (answered q (same ▸ hp)).2
  rw [keepAddr, haddr] at answerP
  rw [keepAddr] at answerQ
  exact Option.some.inj (answerP.symm.trans answerQ)

namespace Cluster
variable [NeZero P]

/-- All units are about to sample one ray, or are on the same step of it. -/
structure Lockstep (c : Cluster P S) : Prop where
  pixel : ∀ k, (c.vtu k).currentPixel = 0
  together : (∀ k, (c.vtu k).rayInitIn = true ∧ (c.vtu k).rayOriginIn = (c.vtu 0).rayOriginIn ∧
      (c.vtu k).rayDirectionIn = (c.vtu 0).rayDirectionIn) ∨
    ∀ k, (c.vtu k).rayInitIn = false ∧ SameWalk (c.vtu k) (c.vtu 0) ∧
      c.memory.l2.addrIn k = c.memory.l2.addrIn 0 ∧
      c.memory.l2.readEnableIn k = c.memory.l2.readEnableIn 0

theorem Lockstep.edge [NeZero S] {c c' : Cluster P S} (h : c.Lockstep)
    (valid : c.memory.Valid ram profile) (hedge : c.risingClkEdge ram profile false = some c')
    (k : Fin P) : (c'.vtu k).currentPixel = 0 ∧ SameWalk (c'.vtu k) (c'.vtu 0) ∧
      c'.memory.l2.addrIn k = c'.memory.l2.addrIn 0 ∧
      c'.memory.l2.readEnableIn k = c'.memory.l2.readEnableIn 0 := by
  obtain ⟨memory, hmemory, -, -, units⟩ := risingClkEdge_spec hedge
  obtain ⟨-, haddr, hread, -⟩ := Memory.risingClkEdge_spec valid hmemory
  obtain ⟨w, hunit, hreads, haddrs⟩ := units k
  obtain ⟨w₀, hunit₀, hreads₀, haddrs₀⟩ := units 0
  have pixel := (VoxelTraversalUnit.edge_inputs hunit).1.trans (h.pixel k)
  rw [haddrs, haddrs₀, hreads, hreads₀]
  rcases h.together with init | walking
  · obtain ⟨hinit, horigin, hdirection⟩ := init k
    obtain ⟨same, rfl, addr, rfl⟩ :=
      sameWalk_of_init hinit (init 0).1 horigin hdirection hunit hunit₀
    exact ⟨pixel, same, rfl, rfl⟩
  · obtain ⟨hinit, same, haddr', hread'⟩ := walking k
    obtain ⟨hready, hvoxel⟩ := Memory.same_answer valid haddr' hread' hmemory
    obtain ⟨same', rfl⟩ := same.edge hinit (walking 0).1 hready hvoxel hunit hunit₀
    exact ⟨pixel, same', by rw [haddr, haddr'], by rw [hread, hread']⟩

end Cluster

/-! ### The record of a frame with several units -/

inductive Doubling [NeZero P] (o : Orchestrator cfg P S) (writes : List (Fin cfg.NUM_PIXELS × Rgb565)) :
    Prop
  | together (none : writes = []) (lockstep : o.cluster.Lockstep)
  | second (w : Fin cfg.NUM_PIXELS × Rgb565) (one : writes = [w]) (first : w.1.val = 0)
    (sampling : (o.cluster.vtu 0).rayInitIn = true)
    (waiting : ∀ k ≠ 0, (o.cluster.vtu k).rayInitIn = false ∧ (o.cluster.vtu k).validOut = true ∧
      (o.cluster.vtu k).currentPixel = 0)
  | doubled (w w' : Fin cfg.NUM_PIXELS × Rgb565) (rest : List (Fin cfg.NUM_PIXELS × Rgb565))
    (two : writes = w :: w' :: rest) (same : w.1 = w'.1)

def FrameEvent.written : FrameEvent cfg → List (Fin cfg.NUM_PIXELS × Rgb565)
  | .pixel index colour => [(index, colour)]
  | _ => []

@[simp] theorem FrameEvent.written_none : (FrameEvent.none : FrameEvent cfg).written = [] := rfl

theorem FrameEvent.record_ne_nil (e : FrameEvent cfg) {records : List (FrameRecord cfg)}
    (h : records ≠ []) : e.record records ≠ [] := by
  obtain ⟨current, done, rfl⟩ := List.exists_cons_of_ne_nil h
  cases e with
  | none => exact h
  | begin i => exact List.cons_ne_nil _ _
  | pixel index colour => exact List.cons_ne_nil _ _

section Doubling
variable [NeZero P] [NeZero S] {o o' : Orchestrator cfg P S} {i : CameraIn} {e : FrameEvent cfg}
  {writes : List (Fin cfg.NUM_PIXELS × Rgb565)}

theorem Doubling.of_begin (hnext : o.nextPixel = cfg.NUM_PIXELS)
    (h : o.risingClkEdge ram profile false i = some (o', e)) : Doubling o' [] := by
  obtain ⟨c, camera, direction, -, -, -, -, rfl⟩ := Orchestrator.risingClkEdge_begin hnext h
  exact .together rfl ⟨fun _ => rfl, .inl fun _ => ⟨rfl, rfl, rfl⟩⟩

theorem Doubling.edge (doubling : Doubling o writes) (hP : P ≠ 1)
    (valid : o.cluster.memory.Valid ram profile) (hnext : o.nextPixel ≠ cfg.NUM_PIXELS)
    (h : o.risingClkEdge ram profile false i = some (o', e)) :
    Doubling o' (writes ++ e.written) := by
  obtain ⟨c, hcluster, hcases⟩ := Orchestrator.risingClkEdge_render hnext h
  cases doubling with
  | together none lockstep =>
    have after := lockstep.edge valid hcluster
    subst none
    rcases hcases with ⟨-, rfl, rfl⟩ | ⟨k, inFrame, colour, direction, hk, -, -, rfl, rfl⟩
    · refine .together rfl ⟨fun k => (after k).1, .inr fun k => ⟨rfl, ?_, (after k).2.2⟩⟩
      obtain ⟨position, step, tDelta, tMax, numSteps, validOut⟩ := (after k).2.1
      exact ⟨position, step, tDelta, tMax, numSteps, validOut⟩
    · -- they are done at the same edge, and the first one is drawn
      have done : (c.vtu k).validOut = true := by simpa using List.find?_some hk
      have all (j : Fin P) : (c.vtu j).validOut = true := by
        rw [(after j).2.1.validOut, ← (after k).2.1.validOut]
        exact done
      obtain rfl : 0 = k :=
        Option.some.inj ((find_first (p := fun k => (c.vtu k).validOut) (all 0)).symm.trans hk)
      refine .second (⟨(c.vtu 0).currentPixel, inFrame⟩, colour) rfl (after 0).1 ?_ fun j hj => ?_
      · dsimp only [Orchestrator.assign]
        rw [Function.update_self]
        rfl
      · dsimp only [Orchestrator.assign]
        rw [Function.update_of_ne hj]
        exact ⟨rfl, all j, (after j).1⟩
  | second w one first sampling waiting =>
    subst one
    have unit {j : Fin P} (hj : j ≠ 0) : c.vtu j = o.cluster.vtu j := by
      obtain ⟨_, _, _, hunit, -⟩ := Cluster.unit_step valid hcluster j
      exact VoxelTraversalUnit.edge_done (waiting j hj).1 (waiting j hj).2.1 hunit
    obtain ⟨setup, -, -, busy⟩ := Cluster.inCast_of_init valid sampling hcluster
    rcases hcases with ⟨idle, -, -⟩ | ⟨k, inFrame, colour, direction, hk, -, -, rfl, rfl⟩
    · -- another unit has been waiting with its result
      obtain ⟨j, hj⟩ : ∃ j : Fin P, j ≠ 0 := by
        have : Nontrivial (Fin P) := Fin.nontrivial_iff_two_le.mpr (by
          have := NeZero.ne P
          omega)
        exact exists_ne 0
      have := idle j
      rw [unit hj, (waiting j hj).2.1] at this
      cases this
    · have hk0 : k ≠ 0 := by
        rintro rfl
        have : (c.vtu 0).validOut = true := by simpa using List.find?_some hk
        rw [busy] at this
        cases this
      refine .doubled w (⟨(c.vtu k).currentPixel, inFrame⟩, colour) [] rfl (Fin.ext ?_)
      dsimp only
      rw [first, unit hk0, (waiting k hk0).2.2]
  | doubled w w' rest two same =>
    refine .doubled w w' (rest ++ e.written) ?_ same
    rw [two]
    rfl

omit [NeZero S] in
theorem Doubling.not_written (doubling : Doubling o writes)
    (hlength : writes.length = cfg.NUM_PIXELS) (hN : cfg.NUM_PIXELS ≠ 1) :
    ∃ k, ∀ w ∈ writes, w.1 ≠ k := by
  have hp := cfg.numPixels_pos
  cases doubling with
  | together none _ =>
    rw [none] at hlength
    exact absurd hlength.symm hp.ne'
  | second w one _ _ _ =>
    rw [one] at hlength
    exact absurd hlength.symm hN
  | doubled w w' rest two same =>
    by_contra hall
    simp only [not_exists, not_forall, not_not] at hall
    have hsub : (Finset.univ : Finset (Fin cfg.NUM_PIXELS)) ⊆ ((w' :: rest).map Prod.fst).toFinset := by
      intro k _
      obtain ⟨v, hv, hk⟩ := hall k
      rw [two] at hv
      rw [List.mem_toFinset, ← hk]
      rcases List.mem_cons.mp hv with rfl | hv
      · rw [same]
        exact List.mem_map_of_mem List.mem_cons_self
      · exact List.mem_map_of_mem hv
    have hcard := (Finset.card_le_card hsub).trans (List.toFinset_card_le _)
    rw [two] at hlength
    simp only [Finset.card_univ, Fintype.card_fin, List.length_map, List.length_cons] at hcard hlength
    omega

end Doubling

structure Painting [NeZero P] (ram : MockCache) (profile : Profile) (camera : Camera)
    (o : Orchestrator cfg P S) (record : FrameRecord cfg) : Prop where
  bound : o.nextPixel ≤ cfg.NUM_PIXELS
  latches : Camera.init cfg record.inputs = some camera
  working : Working ram profile camera o
  count : record.writes.length = o.nextPixel
  colours : ∀ w ∈ record.writes, PixelColour cfg ram profile camera w.1 w.2
  doubling : P ≠ 1 → Doubling o record.writes

def Painted [NeZero P] (ram : MockCache) (profile : Profile)
    (s : Orchestrator cfg P S × List (FrameRecord cfg)) : Prop :=
  (s.2 = [] ∧ s.1.cluster.memory.Valid ram profile ∧ s.1.nextPixel = cfg.NUM_PIXELS) ∨
    ∃ current done camera, s.2 = current :: done ∧ Painting ram profile camera s.1 current

section Painted
variable [NeZero P] [NeZero S] {s s' : Orchestrator cfg P S × List (FrameRecord cfg)} {i : CameraIn}

theorem Painting.of_begin {o o' : Orchestrator cfg P S} {e : FrameEvent cfg}
    (valid : o.cluster.memory.Valid ram profile) (hnext : o.nextPixel = cfg.NUM_PIXELS)
    (h : o.risingClkEdge ram profile false i = some (o', e)) :
    e = .begin i ∧ ∃ camera, Painting ram profile camera o' ⟨i, []⟩ := by
  obtain ⟨he, hzero, camera, hcamera, working⟩ := Working.of_begin valid hnext h
  exact ⟨he, camera, by rw [hzero]; exact Nat.zero_le _, hcamera, working, hzero.symm,
    fun _ hw => (List.not_mem_nil hw).elim, fun _ => Doubling.of_begin hnext h⟩

theorem Painted.watch (h : Painted ram profile s)
    (hstep : Orchestrator.watch ram profile i s = some s') : Painted ram profile s' := by
  obtain ⟨o', e, hedge, rfl⟩ := Orchestrator.watch_eq_some.mp hstep
  rcases h with ⟨hnil, valid, hnext⟩ | ⟨current, done, camera, hs, painting⟩
  · obtain ⟨rfl, camera, painting⟩ := Painting.of_begin valid hnext hedge
    exact .inr ⟨⟨i, []⟩, [], camera, congrArg _ hnil, painting⟩
  · rcases Nat.lt_or_eq_of_le painting.bound with hlt | hnext
    · have doubling' (hP : P ≠ 1) :=
        (painting.doubling hP).edge hP painting.working.valid hlt.ne hedge
      obtain ⟨working, hcases⟩ := painting.working.edge hlt.ne hedge
      rcases hcases with ⟨rfl, hsame⟩ | ⟨index, colour, rfl, hsucc, hcolour⟩
      · refine .inr ⟨current, done, camera, hs, by rw [hsame]; exact painting.bound, painting.latches,
          working, by rw [hsame]; exact painting.count, painting.colours, fun hP => ?_⟩
        have := doubling' hP
        rwa [FrameEvent.written_none, List.append_nil] at this
      · refine .inr ⟨⟨current.inputs, current.writes ++ [(index, colour)]⟩, done, camera,
          by rw [hs]; rfl, by rw [hsucc]; exact hlt, painting.latches, working, ?_, fun w hw => ?_,
          doubling'⟩
        · rw [List.length_append, painting.count, hsucc]
          rfl
        · rcases List.mem_append.mp hw with hw | hw
          · exact painting.colours w hw
          · rw [List.mem_singleton.mp hw]
            exact hcolour
    · obtain ⟨rfl, camera', painting'⟩ := Painting.of_begin painting.working.valid hnext hedge
      exact .inr ⟨⟨i, []⟩, current :: done, camera', congrArg _ hs, painting'⟩

theorem painting_of_run {o o₀ o' : Orchestrator cfg P S} {event : FrameEvent cfg}
    (hreset : o.risingClkEdge ram profile true i = some (o₀, event)) {inputs : List CameraIn}
    {record : FrameRecord cfg} {past : List (FrameRecord cfg)}
    (hrun : run (Orchestrator.watch ram profile) inputs (o₀, []) = some (o', record :: past)) :
    ∃ camera, Painting ram profile camera o' record := by
  obtain ⟨valid, hnext, -⟩ := Orchestrator.reset_spec hreset
  have h : Painted ram profile (o', record :: past) :=
    run_preserves (fun _ _ _ (_ : True) h hstep => h.watch hstep) (fun _ _ => trivial)
      (.inl ⟨rfl, valid, hnext⟩) hrun
  rcases h with ⟨hnil, -⟩ | ⟨current, done, camera, hs, painting⟩
  · cases hnil
  · obtain ⟨rfl, rfl⟩ := List.cons.inj hs
    exact ⟨camera, painting⟩

omit [NeZero S] in
theorem Painting.lossless {camera : Camera} {o : Orchestrator cfg P S} {record : FrameRecord cfg}
    (painting : Painting ram profile camera o record)
    (written : ∀ k, ∃ w ∈ record.writes, w.1 = k) : Lossless ram profile o record := by
  refine ⟨written, ⟨camera, painting.latches, painting.colours⟩, fun u hu => ?_⟩
  obtain ⟨w, hw, hk⟩ := written ⟨_, hu⟩
  exact ⟨w, hw, congrArg Fin.val hk⟩

omit [NeZero S] in
theorem Painting.not_lossless {camera : Camera} {o : Orchestrator cfg P S}
    {record : FrameRecord cfg} (painting : Painting ram profile camera o record)
    (hnext : o.nextPixel = cfg.NUM_PIXELS) (hP : P ≠ 1) (hN : cfg.NUM_PIXELS ≠ 1) :
    ¬Lossless ram profile o record := by
  intro lossless
  obtain ⟨k, hk⟩ := (painting.doubling hP).not_written (painting.count.trans hnext) hN
  obtain ⟨w, hw, heq⟩ := lossless.written k
  exact hk w hw heq

end Painted

/-- In every run from a reset, for every world: when a frame is over, every pixel was
written in the colour of its own ray exactly if there is one unit or one pixel. -/
theorem no_pixel_lost_iff [NeZero P] [NeZero S] (cfg : FrameConfig) (ram : MockCache)
    (profile : Profile) (o o₀ o' : Orchestrator cfg P S) (i : CameraIn) (event : FrameEvent cfg)
    (hreset : o.risingClkEdge ram profile true i = some (o₀, event)) (inputs : List CameraIn)
    (record : FrameRecord cfg) (past : List (FrameRecord cfg))
    (hrun : run (Orchestrator.watch ram profile) inputs (o₀, []) = some (o', record :: past))
    (hover : o'.nextPixel = cfg.NUM_PIXELS) :
    Lossless ram profile o' record ↔ P = 1 ∨ cfg.NUM_PIXELS = 1 := by
  obtain ⟨camera, painting⟩ := painting_of_run hreset hrun
  constructor
  · intro lossless
    by_contra hneither
    rw [not_or] at hneither
    exact painting.not_lossless hover hneither.1 hneither.2 lossless
  · rintro (rfl | hN)
    · -- one unit draws the pixels in order
      obtain ⟨valid, hnext, -⟩ := Orchestrator.reset_spec hreset
      have h : Recorded ram profile (o', record :: past) :=
        run_preserves (fun _ _ _ (_ : True) h hstep => h.watch hstep) (fun _ _ => trivial)
          (.inl ⟨rfl, valid, hnext⟩) hrun
      rcases h with ⟨hnil, -⟩ | ⟨current, done, camera', n, hs, -, hcamera, r, drawn, -⟩
      · cases hnil
      · obtain ⟨rfl, rfl⟩ := List.cons.inj hs
        obtain rfl : cfg.NUM_PIXELS = n := hover.symm.trans r.nextPixel
        refine painting.lossless fun k => ?_
        have := List.mem_finRange k
        rw [← (drawn.complete hcamera).1] at this
        obtain ⟨w, hw, hk⟩ := List.mem_map.mp this
        exact ⟨w, hw, hk⟩
    · obtain ⟨w, hw⟩ := List.length_eq_one_iff.mp (painting.count.trans (hover.trans hN))
      refine painting.lossless fun k => ⟨w, by rw [hw]; exact List.mem_singleton_self w, ?_⟩
      apply Fin.ext
      have := w.1.isLt
      have := k.isLt
      omega

theorem no_pixel_lost_iff_stone :
    let cfg : FrameConfig :=
      ⟨2, 1, Fixed.one, Fixed.one, ⟨128, by decide, by decide⟩, Fixed.one, by decide, by decide⟩
    let ram : MockCache := ⟨fun _ => .stone⟩
    ∃ (o₀ o' : Orchestrator cfg 2 1) (event : FrameEvent cfg) (record : FrameRecord cfg) (past : _),
      Orchestrator.init.risingClkEdge ram .debug true northward = some (o₀, event) ∧
        run (Orchestrator.watch ram .debug) (List.replicate 5 northward) (o₀, []) =
          some (o', record :: past) ∧
        o'.nextPixel = cfg.NUM_PIXELS ∧
        (Lossless ram .debug o' record ↔ 2 = 1 ∨ cfg.NUM_PIXELS = 1) := by
  intro cfg ram
  have hruns : ((Orchestrator.init.risingClkEdge ram .debug true northward).bind
      fun (s : Orchestrator cfg 2 1 × _) =>
        (run (Orchestrator.watch ram .debug) (List.replicate 5 northward) (s.1, [])).map
          fun t => (t.1.nextPixel, t.2.length)) = some (2, 1) := by
    decide +kernel
  obtain ⟨⟨o₀, event⟩, hreset, hrest⟩ := Option.bind_eq_some_iff.mp hruns
  obtain ⟨⟨o', records⟩, hrun, heq⟩ := Option.map_eq_some_iff.mp hrest
  obtain ⟨hnext, hlength⟩ := Prod.mk.inj heq
  obtain ⟨record, rfl⟩ := List.length_eq_one_iff.mp hlength
  exact ⟨o₀, o', event, record, [], hreset, hrun, hnext,
    no_pixel_lost_iff cfg ram .debug Orchestrator.init o₀ o' northward event hreset _ record [] hrun hnext⟩

/-- With two units the first frame of a fresh program, in a stone chunk, loses a pixel. -/
theorem pixel_lost_by_two_units :
    let ram : MockCache := ⟨fun _ => .stone⟩
    ∃ (o₀ o' : Orchestrator FrameConfig.standard 2 1) (event : _) (n : Nat) (record : _) (past : _),
      Orchestrator.init.risingClkEdge ram .debug true northward = some (o₀, event) ∧
        run (Orchestrator.watch ram .debug) (List.replicate n northward) (o₀, []) =
          some (o', record :: past) ∧
        o'.nextPixel = FrameConfig.standard.NUM_PIXELS ∧ ¬Lossless ram .debug o' record := by
  intro ram
  obtain ⟨o₀, event, hreset, tame⟩ :=
    Orchestrator.tame_reset (P := 2) (S := 1) ram .debug northward
  have alive : o₀.Alive ram .debug := .of_reset hreset
  obtain ⟨o₁, e, hbegin, tame₁⟩ := tame.edge northward_level false
  have htick : o₀.tick ram .debug northward = some o₁ := Orchestrator.tick_eq_some.mpr ⟨e, hbegin⟩
  obtain ⟨valid, hnext, -⟩ := Orchestrator.reset_spec hreset
  obtain ⟨alive₁, -, -⟩ := Orchestrator.tick_begin alive hnext htick
  obtain ⟨n, o', hrun, hover⟩ := Orchestrator.exists_run northward_level alive₁ tame₁
    (fun o => o.nextPixel != FrameConfig.standard.NUM_PIXELS) Orchestrator.frameRank
    fun m m' alive hguard hstep =>
      (Orchestrator.tick_render alive (lt_of_le_of_ne alive.bound (by simpa using hguard)) hstep).2.2.2
  -- the first edge begins a frame, so there is a record
  have hfirst : Orchestrator.watch ram .debug northward (o₀, []) = some (o₁, [⟨northward, []⟩]) := by
    obtain ⟨rfl, -⟩ := Working.of_begin valid hnext hbegin
    exact Orchestrator.watch_eq_some.mpr ⟨o₁, _, hbegin, rfl⟩
  obtain ⟨records, hwatch⟩ := @run_observed _ _ _ _ (Orchestrator.watch ram .debug)
    (fun i o records o' hstep => by
      obtain ⟨e, hedge⟩ := Orchestrator.tick_eq_some.mp hstep
      exact ⟨_, Orchestrator.watch_eq_some.mpr ⟨o', e, hedge, rfl⟩⟩) _ _ _ hrun [⟨northward, []⟩]
  have hne : records ≠ [] :=
    @run_preserves _ _ (Orchestrator.watch ram .debug) (fun s => s.2 ≠ []) (fun _ => True)
      (fun i s s' _ hs hstep => by
        obtain ⟨o', e, -, rfl⟩ := Orchestrator.watch_eq_some.mp hstep
        exact FrameEvent.record_ne_nil e hs) _ _ _ (fun _ _ => trivial) (List.cons_ne_nil _ _) hwatch
  obtain ⟨record, past, rfl⟩ := List.exists_cons_of_ne_nil hne
  have hall := (run_cons_eq_some _).mpr ⟨_, hfirst, hwatch⟩
  have hend : o'.nextPixel = FrameConfig.standard.NUM_PIXELS := by simpa using hover
  obtain ⟨camera, painting⟩ := painting_of_run hreset hall
  exact ⟨o₀, o', event, n + 1, record, past, hreset, hall, hend,
    painting.not_lossless hend (by decide) (by decide)⟩

end FpgaCraft.Software
