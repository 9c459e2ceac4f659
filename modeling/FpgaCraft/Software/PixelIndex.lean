import FpgaCraft.Software.Termination

/-! ## The index into the frame buffer

The unit that draws the last pixel is handed a pixel that does not exist. The next edge begins
a frame: no pixel is drawn in it, and every unit starts over with pixel 0. -/
namespace FpgaCraft.Software
open Library

variable {cfg : FrameConfig} {P S : Nat} [NeZero S] {ram : MockCache} {profile : Profile}

theorem Cluster.busy_of_init {c c' : Cluster P S} {k : Fin P}
    (h : c.risingClkEdge ram profile false = some c') (valid : c.memory.Valid ram profile)
    (hinit : (c.vtu k).rayInitIn = true) : (c'.vtu k).validOut = false := by
  obtain ⟨-, -, -, busy⟩ := Cluster.inCast_of_init valid hinit h
  exact busy

namespace Orchestrator
variable [NeZero P] {o o' : Orchestrator cfg P S} {k : Fin P}

theorem Alive.inFrame (alive : o.Alive ram profile) (hnext : o.nextPixel ≠ cfg.NUM_PIXELS)
    {c : Cluster P S} (hcluster : o.cluster.risingClkEdge ram profile false = some c) (k : Fin P) :
    (c.vtu k).currentPixel < cfg.NUM_PIXELS := by
  have hlt : o.nextPixel < cfg.NUM_PIXELS := lt_of_le_of_ne alive.bound hnext
  obtain ⟨_, _, _, hunit, -⟩ := Cluster.unit_step alive.valid hcluster k
  rw [(VoxelTraversalUnit.edge_inputs hunit).1]
  exact lt_of_le_of_lt (alive.handedOut hlt k) hlt

omit [NeZero S] in
theorem Alive.nextPixel_of_beyond (alive : o.Alive ram profile)
    (beyond : cfg.NUM_PIXELS ≤ (o.cluster.vtu k).currentPixel) : o.nextPixel = cfg.NUM_PIXELS := by
  by_contra hnext
  have hlt : o.nextPixel < cfg.NUM_PIXELS := lt_of_le_of_ne alive.bound hnext
  have := alive.handedOut hlt k
  omega

/-- The unit is given pixel 0, and its result is gone when a pixel may be drawn again. -/
structure Restarted (ram : MockCache) (profile : Profile) (k : Fin P) (o : Orchestrator cfg P S) :
    Prop where
  currentPixel : (o.cluster.vtu k).currentPixel = 0
  rayInitIn : (o.cluster.vtu k).rayInitIn = true
  sampled : ∀ c, o.cluster.risingClkEdge ram profile false = some c → (c.vtu k).validOut = false

omit [NeZero P] in
theorem restarted_of_begin {i : CameraIn} {e : FrameEvent cfg}
    (valid : o.cluster.memory.Valid ram profile) (hnext : o.nextPixel = cfg.NUM_PIXELS)
    (h : o.risingClkEdge ram profile false i = some (o', e)) :
    e = .begin i ∧ o'.frameBufferOut = o.frameBufferOut ∧ o'.Restarted ram profile k := by
  obtain ⟨c, camera, direction, hcluster, -, -, rfl, rfl⟩ := risingClkEdge_begin hnext h
  have valid' : c.memory.Valid ram profile := Cluster.valid_risingClkEdge (fun _ => valid) hcluster
  exact ⟨rfl, rfl, rfl, rfl, fun c' hc' => Cluster.busy_of_init hc' valid' rfl⟩

end Orchestrator

/-- In every run from a reset `next_pixel` stays within the frame, every edge that may draw
a pixel finds the units with pixels of the frame, and a unit that was handed a pixel beyond
it is restarted by the next edge, which draws nothing. -/
theorem pixel_index_in_range [NeZero P] (cfg : FrameConfig) (ram : MockCache) (profile : Profile)
    (o o₀ m : Orchestrator cfg P S) (i₀ : CameraIn) (event : FrameEvent cfg)
    (hreset : o.risingClkEdge ram profile true i₀ = some (o₀, event)) (inputs : List CameraIn)
    (hrun : run (Orchestrator.tick ram profile) inputs o₀ = some m) :
    m.nextPixel ≤ cfg.NUM_PIXELS ∧
      (∀ c, m.nextPixel ≠ cfg.NUM_PIXELS → m.cluster.risingClkEdge ram profile false = some c →
        ∀ k, (c.vtu k).currentPixel < cfg.NUM_PIXELS) ∧
      ∀ k, cfg.NUM_PIXELS ≤ (m.cluster.vtu k).currentPixel → ∀ i m' e,
        m.risingClkEdge ram profile false i = some (m', e) →
          e = .begin i ∧ m'.frameBufferOut = m.frameBufferOut ∧ m'.Restarted ram profile k := by
  have alive : m.Alive ram profile :=
    run_preserves (fun _ _ _ (_ : True) alive hstep => Orchestrator.Alive.tick alive hstep)
      (fun _ _ => trivial) (Orchestrator.Alive.of_reset hreset) hrun
  refine ⟨alive.bound, fun c hnext hcluster => alive.inFrame hnext hcluster,
    fun k beyond i m' e hedge => ?_⟩
  exact Orchestrator.restarted_of_begin alive.valid (alive.nextPixel_of_beyond beyond) hedge

/-- Two units share one cache entry and a frame of two pixels; after five edges unit 1 has
drawn the last one and is handed pixel 2. -/
theorem pixel_index_in_range_stone :
    let cfg : FrameConfig :=
      ⟨2, 1, Fixed.one, Fixed.one, ⟨128, by decide, by decide⟩, Fixed.one, by decide, by decide⟩
    let ram : MockCache := ⟨fun _ => .stone⟩
    let i : CameraIn := ⟨0, Vec3.FORWARD⟩
    ∃ (m m' : Orchestrator cfg 2 1) (e : FrameEvent cfg), (m.cluster.vtu 1).currentPixel = 2 ∧
      m.risingClkEdge ram .debug false i = some (m', e) ∧ e = .begin i ∧
        m'.Restarted ram .debug 1 := by
  intro cfg ram i
  have hruns : (do
      let (o₀, _) ← (Orchestrator.init : Orchestrator cfg 2 1).risingClkEdge ram .debug true i
      let m ← run (Orchestrator.tick ram .debug) (List.replicate 5 i) o₀
      let _ ← m.risingClkEdge ram .debug false i
      pure (m.cluster.vtu 1).currentPixel) = some 2 := by decide +kernel
  obtain ⟨⟨o₀, event⟩, hreset, hruns⟩ := Option.bind_eq_some_iff.mp hruns
  obtain ⟨m, hrun, hruns⟩ := Option.bind_eq_some_iff.mp hruns
  obtain ⟨⟨m', e⟩, hedge, hpixel⟩ := Option.bind_eq_some_iff.mp hruns
  have handed := Option.some.inj hpixel
  obtain ⟨-, -, restarts⟩ :=
    pixel_index_in_range cfg ram .debug Orchestrator.init o₀ m i event hreset _ hrun
  obtain ⟨hevent, -, restarted⟩ := restarts 1 handed.ge i m' e hedge
  exact ⟨m, m', e, handed, hedge, hevent, restarted⟩

end FpgaCraft.Software
