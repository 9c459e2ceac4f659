import FpgaCraft.Software.Orchestrator
import FpgaCraft.Software.Refinement

/-! ## One frame, one camera

With one traversal unit, the ray the unit works on is always the one of `next_pixel`: it
is assigned together with it, sampled at the next edge, and cast until its pixel is drawn. -/
namespace FpgaCraft.Software
open Library

variable {cfg : FrameConfig} {P S : Nat} {ram : MockCache} {profile : Profile}

/-- The colour is that of a completed cast of the camera's ray through the pixel. -/
def PixelColour (cfg : FrameConfig) (ram : MockCache) (profile : Profile) (camera : Camera)
    (pixel : Nat) (colour : Rgb565) : Prop :=
  ∃ direction setup voxel normal, camera.rayDirection cfg pixel = some direction ∧
    raySetup camera.cameraPos direction = some setup ∧
    Outcome ram profile setup voxel normal ∧ shade voxel normal = some colour

structure OnPixel (cfg : FrameConfig) (camera : Camera) (n : Nat) (v : VoxelTraversalUnit) : Prop where
  currentPixel : v.currentPixel = n
  origin : v.rayOriginIn = camera.cameraPos
  direction : camera.rayDirection cfg n = some v.rayDirectionIn

theorem VoxelTraversalUnit.edge_inputs {v v' : VoxelTraversalUnit} {reset ready : Bool}
    {voxel : Block} {w : PortWrite} (h : v.edge profile reset ready voxel = some (v', w)) :
    v'.currentPixel = v.currentPixel ∧ v'.rayOriginIn = v.rayOriginIn ∧
      v'.rayDirectionIn = v.rayDirectionIn ∧ v'.rayInitIn = v.rayInitIn := by
  unfold edge at h
  split_ifs at h
  case neg =>
    obtain ⟨⟨next, axis⟩, -, heq⟩ := Option.bind_eq_some_iff.mp h
    obtain ⟨rfl, -⟩ := Prod.mk.inj (Option.some.inj heq)
    exact ⟨rfl, rfl, rfl, rfl⟩
  all_goals
    first
    | obtain ⟨rfl, -⟩ := Prod.mk.inj (Option.some.inj h)
    | obtain ⟨_, -, heq⟩ := Option.bind_eq_some_iff.mp h
      obtain ⟨rfl, -⟩ := Prod.mk.inj (Option.some.inj heq)
    exact ⟨rfl, rfl, rfl, rfl⟩

theorem Camera.cameraPos_of_init {i : CameraIn} {camera : Camera}
    (h : Camera.init cfg i = some camera) : camera.cameraPos = i.cameraPosIn := by
  unfold Camera.init at h
  iterate 18 obtain ⟨_, -, h⟩ := Option.bind_eq_some_iff.mp h
  exact Option.some.inj h ▸ rfl

theorem Camera.rayDirection_zero (camera : Camera) :
    camera.rayDirection cfg 0 = camera.pixel0Loc.sub camera.cameraPos := by
  have hzero : Fixed.ofI16 (Signed.wrap ((0 : Nat) : Int)) = some 0 := by decide
  simp only [rayDirection, Nat.zero_mod, Nat.zero_div, hzero, Option.bind_eq_bind,
    Option.bind_some, Vec3.mul_zero, Vec3.add_zero]

/-- The single unit works on pixel `n`: its ray is about to be sampled, or being cast. -/
structure Rendering (ram : MockCache) (profile : Profile) (camera : Camera) (n : Nat)
    (o : Orchestrator cfg 1 S) : Prop where
  nextPixel : o.nextPixel = n
  latched : o.camera = camera
  valid : o.cluster.memory.Valid ram profile
  pixel : OnPixel cfg camera n (o.cluster.vtu 0)
  ray : (o.cluster.vtu 0).rayInitIn = true ∨ (o.cluster.vtu 0).rayInitIn = false ∧
    ∃ setup, raySetup (o.cluster.vtu 0).rayOriginIn (o.cluster.vtu 0).rayDirectionIn = some setup ∧
      InCast ram profile setup 0 o.cluster

def OnRay (ram : MockCache) (profile : Profile) (k : Fin P) (c : Cluster P S) : Prop :=
  (c.vtu k).rayInitIn = true ∨ (c.vtu k).rayInitIn = false ∧
    ∃ setup, raySetup (c.vtu k).rayOriginIn (c.vtu k).rayDirectionIn = some setup ∧
      InCast ram profile setup k c

/-- One edge of a unit with a ray. Its result is out only after the edge that samples it. -/
theorem OnRay.edge [NeZero S] {k : Fin P} {c c' : Cluster P S} (h : OnRay ram profile k c)
    (valid : c.memory.Valid ram profile) (hedge : c.risingClkEdge ram profile false = some c') :
    ∃ setup, raySetup (c'.vtu k).rayOriginIn (c'.vtu k).rayDirectionIn = some setup ∧
      InCast ram profile setup k c' := by
  obtain ⟨ready, voxel, w, hunit, -⟩ := Cluster.unit_step valid hedge k
  obtain ⟨-, horigin, hdirection, -⟩ := VoxelTraversalUnit.edge_inputs hunit
  rw [horigin, hdirection]
  rcases h with hinit | ⟨hinit, setup, hsetup, cast⟩
  · obtain ⟨setup, hsetup, cast, -⟩ := Cluster.inCast_of_init valid hinit hedge
    exact ⟨setup, hsetup, cast⟩
  · exact ⟨setup, hsetup, cast.edge hinit hedge⟩

theorem OnPixel.edge [NeZero S] {camera : Camera} {n : Nat} {k : Fin P} {c c' : Cluster P S}
    (h : OnPixel cfg camera n (c.vtu k)) (valid : c.memory.Valid ram profile)
    (hedge : c.risingClkEdge ram profile false = some c') : OnPixel cfg camera n (c'.vtu k) := by
  obtain ⟨ready, voxel, w, hunit, -⟩ := Cluster.unit_step valid hedge k
  obtain ⟨hpixel, horigin, hdirection, -⟩ := VoxelTraversalUnit.edge_inputs hunit
  refine ⟨hpixel.trans h.currentPixel, horigin.trans h.origin, ?_⟩
  rw [hdirection]
  exact h.direction

theorem Rendering.unit [NeZero S] {camera : Camera} {n : Nat} {o : Orchestrator cfg 1 S}
    {c : Cluster 1 S} (h : Rendering ram profile camera n o)
    (hedge : o.cluster.risingClkEdge ram profile false = some c) :
    c.memory.Valid ram profile ∧ OnPixel cfg camera n (c.vtu 0) ∧
      ∃ setup, raySetup (c.vtu 0).rayOriginIn (c.vtu 0).rayDirectionIn = some setup ∧
        InCast ram profile setup 0 c :=
  ⟨Cluster.valid_risingClkEdge (fun _ => h.valid) hedge, h.pixel.edge h.valid hedge,
    OnRay.edge h.ray h.valid hedge⟩

theorem InCast.finished {setup : RaySetup} {c : Cluster P S} {i : Fin P}
    (h : InCast ram profile setup i c) (hvalid : (c.vtu i).validOut = true) :
    Outcome ram profile setup (c.vtu i).voxelOut (c.vtu i).normalOut := by
  rcases h.progress with ⟨n, casting, -⟩ | finished
  · rw [casting.busy] at hvalid
    cases hvalid
  · exact finished.outcome

theorem Orchestrator.reset_spec [NeZero S] {o o' : Orchestrator cfg P S} {i : CameraIn}
    {e : FrameEvent cfg} (h : o.risingClkEdge ram profile true i = some (o', e)) :
    o'.cluster.memory.Valid ram profile ∧ o'.nextPixel = cfg.NUM_PIXELS ∧
      o'.frameDoneOut = false := by
  unfold risingClkEdge at h
  obtain ⟨c, hcluster, heq⟩ := Option.bind_eq_some_iff.mp h
  obtain ⟨rfl, rfl⟩ := Prod.mk.inj (Option.some.inj heq)
  exact ⟨Cluster.valid_risingClkEdge (fun h => Bool.noConfusion h) hcluster, rfl, rfl⟩

theorem Orchestrator.begin_spec [NeZero S] {o o' : Orchestrator cfg 1 S} {i : CameraIn} {e : FrameEvent cfg}
    (valid : o.cluster.memory.Valid ram profile) (hnext : o.nextPixel = cfg.NUM_PIXELS)
    (h : o.risingClkEdge ram profile false i = some (o', e)) :
    e = .begin i ∧ (∃ camera, Camera.init cfg i = some camera ∧ Rendering ram profile camera 0 o') ∧
      o'.frameBufferOut = o.frameBufferOut ∧ o'.frameDoneOut = false := by
  obtain ⟨c, camera, direction, hcluster, hcamera, hdirection, rfl, rfl⟩ :=
    risingClkEdge_begin hnext h
  have hpos := Camera.cameraPos_of_init hcamera
  have hvalid := Cluster.valid_risingClkEdge (fun _ => valid) hcluster
  refine ⟨rfl, ⟨camera, hcamera, rfl, rfl, hvalid, ⟨rfl, hpos.symm, ?_⟩, .inl rfl⟩, rfl, ?_⟩
  · rw [Camera.rayDirection_zero, hpos]
    exact hdirection
  · have hp := cfg.numPixels_pos
    exact beq_eq_false_iff_ne.mpr (by omega)

theorem Rendering.edge [NeZero S] {camera : Camera} {n : Nat} {o o' : Orchestrator cfg 1 S} {i : CameraIn}
    {e : FrameEvent cfg} (r : Rendering ram profile camera n o) (hn : n < cfg.NUM_PIXELS)
    (h : o.risingClkEdge ram profile false i = some (o', e)) :
    o'.frameDoneOut = (n == cfg.NUM_PIXELS - 1) ∧
      (e = .none ∧ Rendering ram profile camera n o' ∧ o'.frameBufferOut = o.frameBufferOut ∨
        ∃ colour, e = .pixel ⟨n, hn⟩ colour ∧ PixelColour cfg ram profile camera n colour ∧
          Rendering ram profile camera (n + 1) o' ∧
          o'.frameBufferOut = Function.update o.frameBufferOut ⟨n, hn⟩ colour) := by
  obtain ⟨c, hcluster, hcases⟩ :=
    Orchestrator.risingClkEdge_render (by rw [r.nextPixel]; exact hn.ne) h
  obtain ⟨valid, pixel, setup, hsetup, cast⟩ := r.unit hcluster
  rw [r.nextPixel] at hcases
  rcases hcases with ⟨-, rfl, rfl⟩ | ⟨k, inFrame, colour, direction, hk, hcolour, hdirection, rfl, rfl⟩
  · -- The unit is busy: its ray is only marked as sampled
    refine ⟨rfl, .inl ⟨rfl, ⟨rfl, r.latched, valid, ⟨pixel.currentPixel, pixel.origin,
      pixel.direction⟩, .inr ⟨rfl, setup, hsetup, ?_⟩⟩, rfl⟩⟩
    let sampled : VtuIn := ⟨(c.vtu 0).rayOriginIn, (c.vtu 0).rayDirectionIn, false⟩
    exact cast.assign (show _ = (c.vtu 0).assign (c.vtu 0).currentPixel sampled from rfl)
  · obtain rfl : k = 0 := Subsingleton.elim _ _
    have outcome := cast.finished (by simpa using List.find?_some hk)
    have hindex : (⟨(c.vtu 0).currentPixel, inFrame⟩ : Fin cfg.NUM_PIXELS) = ⟨n, hn⟩ :=
      Fin.ext pixel.currentPixel
    rw [r.latched] at hdirection
    rw [pixel.origin] at hsetup
    refine ⟨rfl, .inr ⟨colour, congrArg (FrameEvent.pixel · colour) hindex,
      ⟨_, setup, _, _, pixel.direction, hsetup, outcome, hcolour⟩,
      ⟨rfl, r.latched, valid, ⟨rfl, congrArg Camera.cameraPos r.latched, hdirection⟩, .inl rfl⟩, ?_⟩⟩
    dsimp only
    rw [hindex]

/-! ## The record of a run -/

/-- What was written to the frame buffer since an edge that began a frame. -/
structure FrameRecord (cfg : FrameConfig) where
  inputs : CameraIn
  writes : List (Fin cfg.NUM_PIXELS × Rgb565)

def FrameEvent.record : FrameEvent cfg → List (FrameRecord cfg) → List (FrameRecord cfg)
  | .none, records => records
  | .begin i, records => ⟨i, []⟩ :: records
  | .pixel _ _, [] => []
  | .pixel index colour, current :: done =>
    ⟨current.inputs, current.writes ++ [(index, colour)]⟩ :: done

def Orchestrator.watch [NeZero S] (ram : MockCache) (profile : Profile) (i : CameraIn)
    (s : Orchestrator cfg P S × List (FrameRecord cfg)) :
    Option (Orchestrator cfg P S × List (FrameRecord cfg)) := do
  let (o, event) ← s.1.risingClkEdge ram profile false i
  pure (o, event.record s.2)

theorem Orchestrator.watch_eq_some [NeZero S] {i : CameraIn}
    {s s' : Orchestrator cfg P S × List (FrameRecord cfg)} :
    watch ram profile i s = some s' ↔ ∃ o e, s.1.risingClkEdge ram profile false i = some (o, e) ∧
      s' = (o, e.record s.2) :=
  bind_pair_eq_some (f := fun (o : Orchestrator cfg P S) (e : FrameEvent cfg) => (o, e.record s.2))

/-- The first `n` pixels were written once each, in order, in the colours of the camera. -/
structure Drawn (ram : MockCache) (profile : Profile) (camera : Camera) (n : Nat)
    (record : FrameRecord cfg) : Prop where
  order : record.writes.map (·.1.val) = List.range n
  colours : ∀ w ∈ record.writes, PixelColour cfg ram profile camera w.1 w.2

/-- Every pixel was written once, in order, in the colours of the camera latched from the
inputs at the edge that began the frame. -/
def FrameRecord.Complete (ram : MockCache) (profile : Profile) (record : FrameRecord cfg) : Prop :=
  record.writes.map (·.1) = List.finRange cfg.NUM_PIXELS ∧
    ∃ camera, Camera.init cfg record.inputs = some camera ∧
      ∀ w ∈ record.writes, PixelColour cfg ram profile camera w.1 w.2

theorem Drawn.concat {camera : Camera} {n : Nat} {record : FrameRecord cfg} {colour : Rgb565}
    (h : Drawn ram profile camera n record) (hn : n < cfg.NUM_PIXELS)
    (hcolour : PixelColour cfg ram profile camera n colour) :
    Drawn ram profile camera (n + 1) ⟨record.inputs, record.writes ++ [(⟨n, hn⟩, colour)]⟩ := by
  refine ⟨?_, fun w hw => ?_⟩
  · simp only [List.map_append, List.map_cons, List.map_nil, h.order, List.range_succ]
  · rcases List.mem_append.mp hw with hw | hw
    · exact h.colours w hw
    · rw [List.mem_singleton.mp hw]
      exact hcolour

theorem Drawn.complete {camera : Camera} {record : FrameRecord cfg}
    (h : Drawn ram profile camera cfg.NUM_PIXELS record)
    (hcamera : Camera.init cfg record.inputs = some camera) : record.Complete ram profile := by
  refine ⟨?_, camera, hcamera, h.colours⟩
  apply (List.map_injective_iff.mpr Fin.val_injective)
  rw [List.map_map, List.map_coe_finRange_eq_range]
  exact h.order

def Recorded (ram : MockCache) (profile : Profile)
    (s : Orchestrator cfg 1 S × List (FrameRecord cfg)) : Prop :=
  (s.2 = [] ∧ s.1.cluster.memory.Valid ram profile ∧ s.1.nextPixel = cfg.NUM_PIXELS) ∨
    ∃ current done camera n, s.2 = current :: done ∧ n ≤ cfg.NUM_PIXELS ∧
      Camera.init cfg current.inputs = some camera ∧ Rendering ram profile camera n s.1 ∧
      Drawn ram profile camera n current ∧ ∀ record ∈ done, record.Complete ram profile

theorem Recorded.watch [NeZero S] {s s' : Orchestrator cfg 1 S × List (FrameRecord cfg)}
    {i : CameraIn} (h : Recorded ram profile s)
    (hstep : Orchestrator.watch ram profile i s = some s') : Recorded ram profile s' := by
  obtain ⟨o', e, hedge, rfl⟩ := Orchestrator.watch_eq_some.mp hstep
  rcases h with ⟨hnil, valid, hnext⟩ | ⟨current, done, camera, n, hs, hn, hcamera, r, drawn, complete⟩
  · obtain ⟨rfl, ⟨camera, hcamera, r⟩, -⟩ := Orchestrator.begin_spec valid hnext hedge
    exact .inr ⟨⟨i, []⟩, [], camera, 0, congrArg _ hnil, Nat.zero_le _, hcamera, r,
      ⟨rfl, fun w hw => (List.not_mem_nil hw).elim⟩, fun _ hr => (List.not_mem_nil hr).elim⟩
  · rcases Nat.lt_or_eq_of_le hn with hlt | rfl
    · obtain ⟨-, ⟨rfl, r', -⟩ | ⟨colour, rfl, hcolour, r', -⟩⟩ := r.edge hlt hedge
      · exact .inr ⟨current, done, camera, n, hs, hn, hcamera, r', drawn, complete⟩
      · refine .inr ⟨⟨current.inputs, current.writes ++ [(⟨n, hlt⟩, colour)]⟩, done, camera, n + 1, ?_,
          hlt, hcamera, r', drawn.concat hlt hcolour, complete⟩
        rw [hs]
        rfl
    · obtain ⟨rfl, ⟨camera', hcamera', r'⟩, -⟩ := Orchestrator.begin_spec r.valid r.nextPixel hedge
      refine .inr ⟨⟨i, []⟩, current :: done, camera', 0, congrArg _ hs, Nat.zero_le _, hcamera', r',
        ⟨rfl, fun w hw => (List.not_mem_nil hw).elim⟩, fun record hrecord => ?_⟩
      rcases List.mem_cons.mp hrecord with rfl | hmem
      · exact drawn.complete hcamera
      · exact complete record hmem

/-! ## The update loop -/

def Shows (ram : MockCache) (profile : Profile) (i : CameraIn) (o : Orchestrator cfg P S) : Prop :=
  ∃ camera, Camera.init cfg i = some camera ∧
    ∀ k : Fin cfg.NUM_PIXELS, PixelColour cfg ram profile camera k (o.frameBufferOut k)

/-- A frame of one of the cameras is under way; the last pixel is next when it is said to
be done. -/
def Underway (ram : MockCache) (profile : Profile) (cameras : List CameraIn)
    (o : Orchestrator cfg 1 S) : Prop :=
  (o.frameDoneOut = false ∧ o.cluster.memory.Valid ram profile ∧ o.nextPixel = cfg.NUM_PIXELS) ∨
    ∃ i ∈ cameras, ∃ camera n, Camera.init cfg i = some camera ∧ n ≤ cfg.NUM_PIXELS ∧
      Rendering ram profile camera n o ∧ (o.frameDoneOut = true → cfg.NUM_PIXELS ≤ n + 1) ∧
      ∀ k : Fin cfg.NUM_PIXELS, k.val < n → PixelColour cfg ram profile camera k (o.frameBufferOut k)

theorem Underway.tick [NeZero S] {cameras : List CameraIn} {o o' : Orchestrator cfg 1 S}
    {i : CameraIn} (h : Underway ram profile cameras o) (hi : i ∈ cameras)
    (hstep : o.tick ram profile i = some o') :
    Underway ram profile cameras o' ∧
      (o.frameDoneOut = true → o'.frameDoneOut = false →
        ∃ j ∈ cameras, Shows ram profile j o') := by
  obtain ⟨e, hedge⟩ := Orchestrator.tick_eq_some.mp hstep
  rcases h with ⟨hdone, valid, hnext⟩ | ⟨j, hj, camera, n, hcamera, hn, r, hlast, painted⟩
  · obtain ⟨-, ⟨camera, hcamera, r⟩, -, hdone'⟩ := Orchestrator.begin_spec valid hnext hedge
    refine ⟨.inr ⟨i, hi, camera, 0, hcamera, Nat.zero_le _, r, ?_, ?_⟩, ?_⟩
    · exact fun h => (Bool.false_ne_true (hdone'.symm.trans h)).elim
    · exact fun k hk => (Nat.not_lt_zero _ hk).elim
    · exact fun h => (Bool.false_ne_true (hdone.symm.trans h)).elim
  · rcases Nat.lt_or_eq_of_le hn with hlt | rfl
    · obtain ⟨hdone', hrest⟩ := r.edge hlt hedge
      have hlast' : o'.frameDoneOut = true → cfg.NUM_PIXELS ≤ n + 1 := fun h => by
        have := beq_iff_eq.mp (hdone'.symm.trans h)
        omega
      refine ⟨.inr ⟨j, hj, camera, ?_⟩, fun h h' => ?_⟩
      · rcases hrest with ⟨-, r', hbuffer⟩ | ⟨colour, -, hcolour, r', hbuffer⟩
        · exact ⟨n, hcamera, hn, r', hlast', hbuffer ▸ painted⟩
        · refine ⟨n + 1, hcamera, hlt, r', fun h => Nat.le_succ_of_le (hlast' h), fun k hk => ?_⟩
          rw [hbuffer]
          by_cases hk' : k = ⟨n, hlt⟩
          · rw [hk', Function.update_self]
            exact hcolour
          · rw [Function.update_of_ne hk']
            exact painted k (Nat.lt_of_le_of_ne (Nat.lt_succ_iff.mp hk) fun h => hk' (Fin.ext h))
      · have := beq_eq_false_iff_ne.mp (hdone'.symm.trans h')
        have := hlast h
        omega
    · obtain ⟨-, ⟨camera', hcamera', r'⟩, hbuffer, hdone'⟩ :=
        Orchestrator.begin_spec r.valid r.nextPixel hedge
      refine ⟨.inr ⟨i, hi, camera', 0, hcamera', Nat.zero_le _, r', ?_, ?_⟩, fun _ _ => ?_⟩
      · exact fun h => (Bool.false_ne_true (hdone'.symm.trans h)).elim
      · exact fun k hk => (Nat.not_lt_zero _ hk).elim
      · exact ⟨j, hj, camera, hcamera, fun k => hbuffer ▸ painted k k.isLt⟩

/-- The first loop of an update waits for the last pixel, the second one for the edge that
begins the next frame, so that the buffer shows the frame between. -/
theorem Underway.update [NeZero S] {cameras : List CameraIn} {o o' : Orchestrator cfg 1 S}
    {i : CameraIn} {fuel : Nat} (h : Underway ram profile cameras o) (hi : i ∈ cameras)
    (hupdate : o.update ram profile fuel i = some o') :
    Underway ram profile cameras o' ∧ ∃ j ∈ cameras, Shows ram profile j o' := by
  obtain ⟨done, hfirst, hsecond⟩ := Option.bind_eq_some_iff.mp hupdate
  have hunderway : Underway ram profile cameras done :=
    loop_preserves (fun _ _ _ h hstep => (h.tick hi hstep).1) h hfirst
  have hdone : done.frameDoneOut = true := by simpa using loop_exit hfirst
  have hshows : Underway ram profile cameras o' ∧
      (o'.frameDoneOut = false → ∃ j ∈ cameras, Shows ram profile j o') := by
    refine @loop_preserves _ _ _ (fun s => Underway ram profile cameras s ∧
      (s.frameDoneOut = false → ∃ j ∈ cameras, Shows ram profile j s))
      (fun s s' hguard h hstep => ?_) _ _ _ ⟨hunderway, fun h => ?_⟩ hsecond
    · obtain ⟨h', hshows⟩ := h.1.tick hi hstep
      exact ⟨h', hshows hguard⟩
    · exact (Bool.false_ne_true (h.symm.trans hdone)).elim
  exact ⟨hshows.1, hshows.2 (loop_exit hsecond)⟩

/-- From any reset on, whatever the camera inputs do: between two edges that begin a frame
every pixel is written once, in order, for the camera latched at the first of them; and
after every update the frame buffer shows one camera. -/
theorem one_camera_per_frame [NeZero S] (cfg : FrameConfig) (ram : MockCache) (profile : Profile)
    (o o₀ : Orchestrator cfg 1 S) (i : CameraIn) (event : FrameEvent cfg)
    (hreset : o.risingClkEdge ram profile true i = some (o₀, event)) :
    (∀ inputs o' records,
      run (Orchestrator.watch ram profile) inputs (o₀, []) = some (o', records) →
        ∀ record ∈ records.tail, record.Complete ram profile) ∧
      ∀ fuel updates o', updates ≠ [] →
        run (Orchestrator.update ram profile fuel) updates o₀ = some o' →
          ∃ j ∈ updates, Shows ram profile j o' := by
  obtain ⟨valid, hnext, hdone⟩ := Orchestrator.reset_spec hreset
  refine ⟨fun inputs o' records hrun => ?_, fun fuel updates o' hne hrun => ?_⟩
  · have h : Recorded ram profile (o', records) :=
      run_preserves (fun _ _ _ (_ : True) h hstep => h.watch hstep) (fun _ _ => trivial)
        (.inl ⟨rfl, valid, hnext⟩) hrun
    rcases h with ⟨rfl, -⟩ | ⟨current, done, camera, n, rfl, -, -, -, -, complete⟩
    · exact fun record hrecord => (List.not_mem_nil hrecord).elim
    · exact complete
  · obtain rfl | ⟨before, last, rfl⟩ := List.eq_nil_or_concat updates
    · exact (hne rfl).elim
    · rw [List.concat_eq_append] at hrun ⊢
      obtain ⟨m, hbefore, hlast⟩ := (run_concat_eq_some _).mp hrun
      have h : Underway ram profile (before ++ [last]) m :=
        run_preserves (fun i _ _ hi h hstep => (h.update hi hstep).1)
          (fun i hi => List.mem_append_left [last] hi) (.inl ⟨hdone, valid, hnext⟩) hbefore
      exact (h.update (List.mem_append_right before (List.mem_singleton_self last)) hlast).2

theorem one_camera_per_frame_stone :
    let cfg : FrameConfig :=
      ⟨2, 1, Fixed.one, Fixed.one, ⟨128, by decide, by decide⟩, Fixed.one, by decide, by decide⟩
    let ram : MockCache := ⟨fun _ => .stone⟩
    let i : CameraIn := ⟨0, Vec3.FORWARD⟩
    ∃ (o₀ o₁ o₂ : Orchestrator cfg 1 1) (event : FrameEvent cfg) (records : List (FrameRecord cfg)),
      Orchestrator.init.risingClkEdge ram .debug true i = some (o₀, event) ∧
        run (Orchestrator.watch ram .debug) (List.replicate 7 i) (o₀, []) = some (o₁, records) ∧
        records.length = 2 ∧ (∀ record ∈ records.tail, record.Complete ram .debug) ∧
        run (Orchestrator.update ram .debug 5) [i] o₀ = some o₂ ∧
        ∃ j ∈ [i], Shows ram .debug j o₂ := by
  intro cfg ram i
  have hwatch : ((Orchestrator.init.risingClkEdge ram .debug true i).bind fun (s : Orchestrator cfg 1 1 × _) =>
      (run (Orchestrator.watch ram .debug) (List.replicate 7 i) (s.1, [])).map fun t =>
        t.2.length) = some 2 := by decide +kernel
  have hupdate : ((Orchestrator.init.risingClkEdge ram .debug true i).bind fun (s : Orchestrator cfg 1 1 × _) =>
      run (Orchestrator.update ram .debug 5) [i] s.1).isSome := by decide +kernel
  obtain ⟨⟨o₀, event⟩, hreset, hrest⟩ := Option.bind_eq_some_iff.mp hwatch
  obtain ⟨⟨o₁, records⟩, hrun, hlength⟩ := Option.map_eq_some_iff.mp hrest
  rw [hreset, Option.bind_some] at hupdate
  obtain ⟨o₂, hupdate⟩ := Option.isSome_iff_exists.mp hupdate
  obtain ⟨hrecords, hshows⟩ := one_camera_per_frame cfg ram .debug Orchestrator.init o₀ i event hreset
  exact ⟨o₀, o₁, o₂, event, records, hreset, hrun, hlength, hrecords _ o₁ records hrun, hupdate,
    hshows 5 [i] o₂ (List.cons_ne_nil i []) hupdate⟩

end FpgaCraft.Software
