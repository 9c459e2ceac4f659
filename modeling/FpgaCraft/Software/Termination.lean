import FpgaCraft.Software.Frame
import FpgaCraft.Software.Service

/-! ## The loops of `update` end

Port 0 of L2 is never starved: a miss of it is sent to L3 at once, and what L3 answers is
looked up in the edge that fills it, before anything can evict it. So unit 0 steps at least
every other edge, whatever the other units do. -/
namespace FpgaCraft.Software
open Library

variable {cfg : FrameConfig} {P S : Nat} {ram : MockCache} {profile : Profile}

theorem find_first [NeZero P] {p : Fin P → Bool} (h : p 0 = true) :
    (List.finRange P).find? p = some 0 := by
  cases P with
  | zero => exact Fin.elim0 0
  | succ P => rw [List.finRange_succ, List.find?_cons_of_pos h]

namespace Memory
variable [NeZero P] {m m' : Memory P S}

def InFlight (m : Memory P S) : Prop :=
  m.l3.validOut = true ∧ m.l3.addrIn = m.l2.addrIn 0

instance (m : Memory P S) : Decidable m.InFlight := by unfold InFlight; infer_instance

theorem answered_of_inFlight [NeZero S] (h : m.InFlight) (hread : m.l2.readEnableIn 0 = true)
    (hedge : m.risingClkEdge ram profile false = some m') : m'.l2.validOut 0 = true := by
  have edge := edge_of_risingClkEdge hedge
  obtain ⟨hentries, -⟩ := edge.filled h.1
  rw [edge.hit 0, edge.readEnableIn, edge.addrIn, hentries]
  refine ⟨hread, fun absent => ?_⟩
  exact absent m.l2.nextReplacement ⟨m.l3.addrIn, m.l3.voxelOut⟩ (Function.update_self ..) h.2

theorem inFlight_of_missed [NeZero S] (hedge : m.risingClkEdge ram profile false = some m')
    (hread : m'.l2.readEnableIn 0 = true) (hmiss : m'.l2.validOut 0 = false) : m'.InFlight := by
  have first : m'.l2.missing = some 0 := find_first (by rw [hread, hmiss]; rfl)
  rcases asked_of_risingClkEdge hedge with ⟨none, -⟩ | ⟨p, hmissing, flight, haddr⟩
  · rw [first] at none
    cases none
  · obtain rfl : 0 = p := Option.some.inj (first.symm.trans hmissing)
    exact ⟨flight, haddr⟩

end Memory

theorem VoxelTraversalUnit.edge_progress {v v' : VoxelTraversalUnit} {ready : Bool} {voxel : Block}
    {w : PortWrite} (hinit : v.rayInitIn = false) (busy : v.validOut = false)
    (limit : v.numSteps ≤ 111) (h : v.edge profile false ready voxel = some (v', w)) :
    v'.validOut = true ∨ v'.validOut = false ∧ v.numSteps ≤ 110 ∧
      (ready = false ∧ v'.numSteps = v.numSteps ∧ w = .hold ∨
        ready = true ∧ v'.numSteps = v.numSteps + 1 ∧ ∃ addr, w = .request addr) := by
  simp only [edge, Bool.false_eq_true, if_false, hinit, busy] at h
  split_ifs at h with hfar hready hhit
  · obtain ⟨rfl, -⟩ := Prod.mk.inj (Option.some.inj h)
    exact .inl rfl
  · obtain ⟨rfl, rfl⟩ := Prod.mk.inj (Option.some.inj h)
    exact .inr ⟨busy, by omega, .inl ⟨by simpa using hready, rfl, rfl⟩⟩
  · obtain ⟨normal, -, heq⟩ := Option.bind_eq_some_iff.mp h
    obtain ⟨rfl, -⟩ := Prod.mk.inj (Option.some.inj heq)
    exact .inl rfl
  · obtain ⟨⟨next, axis⟩, -, heq⟩ := Option.bind_eq_some_iff.mp h
    obtain ⟨rfl, rfl⟩ := Prod.mk.inj (Option.some.inj heq)
    exact .inr ⟨rfl, by omega, .inr ⟨by simpa using hready, rfl, _, rfl⟩⟩

namespace Cluster
variable [NeZero P] {c c' : Cluster P S}

structure Walking (c : Cluster P S) : Prop where
  busy : (c.vtu 0).validOut = false
  limit : (c.vtu 0).numSteps ≤ 111
  reads : c.memory.l2.readEnableIn 0 = true

def walkRank (c : Cluster P S) : Nat :=
  2 * (111 - (c.vtu 0).numSteps) + if c.memory.InFlight then 1 else 2

def castRank (c : Cluster P S) : Nat :=
  if (c.vtu 0).rayInitIn then 225 else c.walkRank

theorem walkRank_pos (c : Cluster P S) : 0 < c.walkRank := by
  unfold walkRank
  split <;> omega

theorem walkRank_le (c : Cluster P S) : c.walkRank ≤ 224 := by
  unfold walkRank
  split <;> omega

theorem castRank_pos (c : Cluster P S) : 0 < c.castRank := by
  have := c.walkRank_pos
  unfold castRank
  split <;> omega

theorem castRank_le (c : Cluster P S) : c.castRank ≤ 225 := by
  have := c.walkRank_le
  unfold castRank
  split <;> omega

theorem castRank_edge [NeZero S] (valid : c.memory.Valid ram profile)
    (h : (c.vtu 0).rayInitIn = true ∨ (c.vtu 0).rayInitIn = false ∧ c.Walking)
    (hedge : c.risingClkEdge ram profile false = some c') :
    (c'.vtu 0).validOut = true ∨ c'.Walking ∧ c'.walkRank < c.castRank := by
  obtain ⟨memory, hmemory, same, hl3, hunits⟩ := risingClkEdge_spec hedge
  obtain ⟨-, haddr, hread, -⟩ := Memory.risingClkEdge_spec valid hmemory
  obtain ⟨w, hunit, hreads', haddr'⟩ := hunits 0
  rcases h with hinit | ⟨hinit, walking⟩
  · have sampled := @VoxelTraversalUnit.edge_init ram profile _ _ _ _ _ hinit hunit
    obtain ⟨setup, -, casting, rfl⟩ := sampled
    refine .inr ⟨⟨casting.busy, by rw [casting.numSteps]; omega, hreads'⟩, ?_⟩
    have := c'.walkRank_le
    rw [castRank, if_pos hinit]
    omega
  · rcases VoxelTraversalUnit.edge_progress hinit walking.busy walking.limit hunit with
      done | ⟨busy, hlimit, ⟨hmiss, hsteps, rfl⟩ | ⟨hready, hsteps, addr, rfl⟩⟩
    · exact .inl done
    · -- the voxel was not in the cache, so it was not in flight either, and now is
      have reads : memory.l2.readEnableIn 0 = true := by rw [hread]; exact walking.reads
      have before : ¬c.memory.InFlight := fun flight => by
        have := Memory.answered_of_inFlight flight walking.reads hmemory
        rw [hmiss] at this
        cases this
      have after : c'.memory.InFlight := by
        have flight := Memory.inFlight_of_missed hmemory reads hmiss
        unfold Memory.InFlight
        rw [hl3, haddr']
        exact flight
      refine .inr ⟨⟨busy, by omega, by rw [hreads']; exact reads⟩, ?_⟩
      rw [castRank, hinit, walkRank, walkRank, if_pos after, if_neg before, hsteps]
      simp only [Bool.false_eq_true, if_false]
      omega
    · refine .inr ⟨⟨busy, by omega, hreads'⟩, ?_⟩
      rw [castRank, hinit, walkRank, walkRank, hsteps]
      simp only [Bool.false_eq_true, if_false]
      split <;> split <;> omega

end Cluster

namespace Orchestrator
variable [NeZero P]

def frameRank (o : Orchestrator cfg P S) : Nat :=
  226 * (cfg.NUM_PIXELS - o.nextPixel) + o.cluster.castRank

def riseRank (o : Orchestrator cfg P S) : Nat :=
  if o.frameDoneOut then 0
  else if o.nextPixel = cfg.NUM_PIXELS then 226 * cfg.NUM_PIXELS + 226
  else o.frameRank

def fallRank (o : Orchestrator cfg P S) : Nat :=
  if o.frameDoneOut then (if o.nextPixel = cfg.NUM_PIXELS then 1 else o.frameRank + 1) else 0

theorem frameRank_le (o : Orchestrator cfg P S) : o.frameRank ≤ 226 * cfg.NUM_PIXELS + 225 := by
  have := o.cluster.castRank_le
  unfold frameRank
  omega

theorem riseRank_le (o : Orchestrator cfg P S) : o.riseRank ≤ 226 * (cfg.NUM_PIXELS + 1) := by
  have := o.frameRank_le
  unfold riseRank
  split_ifs <;> omega

theorem fallRank_le (o : Orchestrator cfg P S) : o.fallRank ≤ 226 * (cfg.NUM_PIXELS + 1) := by
  have := o.frameRank_le
  unfold fallRank
  split_ifs <;> omega

variable [NeZero S] {o o' : Orchestrator cfg P S} {i : CameraIn}

/-- Between two edges of a run: unit 0 has a ray while a frame is under way, and every unit
works on a pixel that was handed out. -/
structure Alive (ram : MockCache) (profile : Profile) (o : Orchestrator cfg P S) : Prop where
  valid : o.cluster.memory.Valid ram profile
  bound : o.nextPixel ≤ cfg.NUM_PIXELS
  casting : o.nextPixel < cfg.NUM_PIXELS → (o.cluster.vtu 0).rayInitIn = true ∨
    (o.cluster.vtu 0).rayInitIn = false ∧ o.cluster.Walking
  handedOut : o.nextPixel < cfg.NUM_PIXELS → ∀ k, (o.cluster.vtu k).currentPixel ≤ o.nextPixel

/-- An edge fails, but neither of the checks outside the arithmetic does: the cache holds no
duplicate, and every unit has a pixel of the frame buffer. -/
structure ArithmeticPanic (ram : MockCache) (profile : Profile) (i : CameraIn)
    (o : Orchestrator cfg P S) : Prop where
  panics : o.tick ram profile i = none
  noDuplicate : (o.cluster.memory.l2.risingClkEdge false o.cluster.memory.l3).isSome = true
  inFrame : o.nextPixel = cfg.NUM_PIXELS ∨ ∀ k, (o.cluster.vtu k).currentPixel < cfg.NUM_PIXELS

theorem Alive.arithmeticPanic (alive : o.Alive ram profile) (h : o.tick ram profile i = none) :
    o.ArithmeticPanic ram profile i where
  panics := h
  noDuplicate := by
    obtain ⟨l2, l3, hedge, -⟩ := L2Cache.risingClkEdge_spec alive.valid
    rw [hedge]
    rfl
  inFrame := by
    rcases Nat.lt_or_eq_of_le alive.bound with hlt | heq
    · exact .inr fun k => lt_of_le_of_lt (alive.handedOut hlt k) hlt
    · exact .inl heq

theorem tick_begin (alive : o.Alive ram profile) (hnext : o.nextPixel = cfg.NUM_PIXELS)
    (h : o.tick ram profile i = some o') :
    o'.Alive ram profile ∧ o'.frameDoneOut = false ∧ o'.nextPixel = 0 := by
  obtain ⟨e, hedge⟩ := tick_eq_some.mp h
  obtain ⟨c, camera, direction, hcluster, -, -, -, rfl⟩ := risingClkEdge_begin hnext hedge
  have hp := cfg.numPixels_pos
  have valid := Cluster.valid_risingClkEdge (fun _ => alive.valid) hcluster
  exact ⟨⟨valid, Nat.zero_le _, fun _ => .inl rfl, fun _ _ => Nat.zero_le _⟩,
    beq_eq_false_iff_ne.mpr (by omega), rfl⟩

/-- While a frame is under way every edge brings it nearer to its end, and stays in it until
the edge that draws the last pixel. -/
theorem tick_render (alive : o.Alive ram profile) (hnext : o.nextPixel < cfg.NUM_PIXELS)
    (h : o.tick ram profile i = some o') :
    o'.Alive ram profile ∧ o'.frameDoneOut = (o.nextPixel == cfg.NUM_PIXELS - 1) ∧
      o'.nextPixel ≤ o.nextPixel + 1 ∧ o'.frameRank < o.frameRank := by
  obtain ⟨e, hedge⟩ := tick_eq_some.mp h
  obtain ⟨c, hcluster, hcases⟩ := risingClkEdge_render hnext.ne hedge
  have valid := Cluster.valid_risingClkEdge (fun _ => alive.valid) hcluster
  have progress := Cluster.castRank_edge alive.valid (alive.casting hnext) hcluster
  have pixel (k : Fin P) : (c.vtu k).currentPixel ≤ o.nextPixel := by
    obtain ⟨_, _, _, hunit, -⟩ := Cluster.unit_step alive.valid hcluster k
    rw [(VoxelTraversalUnit.edge_inputs hunit).1]
    exact alive.handedOut hnext k
  rcases hcases with ⟨busy, -, rfl⟩ | ⟨k, inFrame, colour, direction, hk, -, -, -, rfl⟩
  · obtain ⟨walking, lower⟩ := progress.resolve_left (by rw [busy]; exact Bool.false_ne_true)
    refine ⟨⟨valid, hnext.le, fun _ => .inr ⟨rfl, walking.busy, walking.limit, walking.reads⟩,
      fun _ k => pixel k⟩, rfl, Nat.le_succ _, ?_⟩
    exact Nat.add_lt_add_left lower _
  · refine ⟨⟨valid, hnext, fun _ => ?_, fun _ => ?_⟩, rfl, Nat.le_refl _, ?_⟩
    · dsimp only [assign]
      by_cases hzero : 0 = k
      · rw [← hzero, Function.update_self]
        exact .inl rfl
      · have busy : (c.vtu 0).validOut = false := by
          by_contra hdone
          have hfirst := find_first (p := fun k => (c.vtu k).validOut) (by simpa using hdone)
          exact hzero (Option.some.inj (hfirst.symm.trans hk))
        obtain ⟨walking, -⟩ := progress.resolve_left (by rw [busy]; exact Bool.false_ne_true)
        rw [Function.update_of_ne hzero]
        refine .inr ⟨rfl, ?_, ?_, walking.reads⟩
        · dsimp only
          rw [Function.update_of_ne hzero]
          exact walking.busy
        · dsimp only
          rw [Function.update_of_ne hzero]
          exact walking.limit
    · refine currentPixel_assign_le (Nat.le_refl _) (fun j => ?_) k _
      exact Nat.le_succ_of_le (pixel j)
    · -- another pixel is worth more than any ray takes
      have before := o.cluster.castRank_pos
      unfold frameRank
      refine lt_of_le_of_lt (Nat.add_le_add_left (Cluster.castRank_le _) _) ?_
      dsimp only
      omega

theorem rise_progress (alive : o.Alive ram profile) (hguard : (!o.frameDoneOut) = true)
    (h : o.tick ram profile i = some o') :
    o'.Alive ram profile ∧ o'.riseRank < o.riseRank := by
  have dark : o.frameDoneOut = false := by simpa using hguard
  rcases Nat.lt_or_eq_of_le alive.bound with hlt | heq
  · obtain ⟨alive', hdone, hnext, lower⟩ := tick_render alive hlt h
    refine ⟨alive', ?_⟩
    rw [riseRank, riseRank, dark, if_neg Bool.false_ne_true, if_neg hlt.ne]
    split_ifs with hd hn
    · exact Nat.zero_lt_of_lt lower
    · -- the counter cannot reach the end without the signal
      have := beq_eq_false_iff_ne.mp (hdone.symm.trans (by simpa using hd))
      omega
    · exact lower
  · obtain ⟨alive', hdone, hnext⟩ := tick_begin alive heq h
    have hp := cfg.numPixels_pos
    have := o'.frameRank_le
    refine ⟨alive', ?_⟩
    rw [riseRank, riseRank, dark, hdone, if_neg Bool.false_ne_true, if_neg Bool.false_ne_true,
      if_pos heq, if_neg (by omega)]
    omega

theorem fall_progress (alive : o.Alive ram profile) (hguard : o.frameDoneOut = true)
    (h : o.tick ram profile i = some o') :
    o'.Alive ram profile ∧ o'.fallRank < o.fallRank := by
  rcases Nat.lt_or_eq_of_le alive.bound with hlt | heq
  · obtain ⟨alive', -, -, lower⟩ := tick_render alive hlt h
    refine ⟨alive', ?_⟩
    rw [fallRank, fallRank, if_pos hguard, if_neg hlt.ne]
    split_ifs <;> omega
  · obtain ⟨alive', hdone, -⟩ := tick_begin alive heq h
    refine ⟨alive', ?_⟩
    rw [fallRank, fallRank, if_pos hguard, if_pos heq, hdone, if_neg Bool.false_ne_true]
    exact Nat.zero_lt_one

theorem Alive.tick (alive : o.Alive ram profile) (h : o.tick ram profile i = some o') :
    o'.Alive ram profile := by
  rcases Nat.lt_or_eq_of_le alive.bound with hlt | heq
  · exact (tick_render alive hlt h).1
  · exact (tick_begin alive heq h).1

theorem Alive.of_reset {event : FrameEvent cfg}
    (h : o.risingClkEdge ram profile true i = some (o', event)) : o'.Alive ram profile := by
  obtain ⟨valid, hnext, -⟩ := reset_spec h
  exact ⟨valid, hnext.le, fun hlt => absurd hnext hlt.ne, fun hlt => absurd hnext hlt.ne⟩

end Orchestrator

/-- From every state that is reachable from a reset both loops of an update end, within a
bound that depends on the size of the frame only, unless the arithmetic of an edge on the
way panics. -/
theorem update_terminates [NeZero P] [NeZero S] (cfg : FrameConfig) (ram : MockCache)
    (profile : Profile) (o o₀ m : Orchestrator cfg P S) (i₀ : CameraIn) (event : FrameEvent cfg)
    (hreset : o.risingClkEdge ram profile true i₀ = some (o₀, event)) (inputs : List CameraIn)
    (hrun : run (Orchestrator.tick ram profile) inputs o₀ = some m) (i : CameraIn) :
    (∃ o', m.update ram profile (226 * (cfg.NUM_PIXELS + 1)) i = some o') ∨
      ∃ n p, n ≤ 2 * (226 * (cfg.NUM_PIXELS + 1)) ∧
        orbit (Orchestrator.tick ram profile i) m n = some p ∧ p.ArithmeticPanic ram profile i := by
  have alive : m.Alive ram profile :=
    run_preserves (fun _ _ _ (_ : True) alive hstep => Orchestrator.Alive.tick alive hstep)
      (fun _ _ => trivial) (Orchestrator.Alive.of_reset hreset) hrun
  rcases loop_terminates (fun _ _ => Orchestrator.rise_progress) alive m.riseRank_le with
    ⟨done, hfirst⟩ | ⟨n, p, hn, horbit, alive', hpanic⟩
  · have alive' : done.Alive ram profile :=
      loop_preserves (fun _ _ _ alive hstep => Orchestrator.Alive.tick alive hstep) alive hfirst
    obtain ⟨n, hn, hdone⟩ := loop_orbit hfirst
    rcases loop_terminates (fun _ _ => Orchestrator.fall_progress) alive' done.fallRank_le with
      ⟨o', hsecond⟩ | ⟨k, p, hk, horbit, alive', hpanic⟩
    · exact .inl ⟨o', by rw [Orchestrator.update, hfirst]; exact hsecond⟩
    · refine .inr ⟨n + k, p, by omega, ?_, alive'.arithmeticPanic hpanic⟩
      rw [orbit_add, hdone]
      exact horbit
  · exact .inr ⟨n, p, by omega, horbit, alive'.arithmeticPanic hpanic⟩

/-- Two units share one cache entry; the update starts three edges into a frame. -/
theorem update_terminates_stone :
    let cfg : FrameConfig :=
      ⟨2, 1, Fixed.one, Fixed.one, ⟨128, by decide, by decide⟩, Fixed.one, by decide, by decide⟩
    let ram : MockCache := ⟨fun _ => .stone⟩
    let i : CameraIn := ⟨0, Vec3.FORWARD⟩
    ∃ (o₀ m o' : Orchestrator cfg 2 1) (event : FrameEvent cfg),
      Orchestrator.init.risingClkEdge ram .debug true i = some (o₀, event) ∧
        run (Orchestrator.tick ram .debug) (List.replicate 3 i) o₀ = some m ∧
        m.update ram .debug (226 * (cfg.NUM_PIXELS + 1)) i = some o' := by
  intro cfg ram i
  have hruns : (((Orchestrator.init.risingClkEdge ram .debug true i).bind
      fun (s : Orchestrator cfg 2 1 × _) => run (Orchestrator.tick ram .debug) (List.replicate 3 i) s.1).bind
        fun m => m.update ram .debug (226 * (cfg.NUM_PIXELS + 1)) i).isSome := by decide +kernel
  obtain ⟨done, hdone⟩ := Option.isSome_iff_exists.mp hruns
  obtain ⟨m, hm, hupdate⟩ := Option.bind_eq_some_iff.mp hdone
  obtain ⟨⟨o₀, event⟩, hreset, hrun⟩ := Option.bind_eq_some_iff.mp hm
  rcases update_terminates cfg ram .debug Orchestrator.init o₀ m i event hreset _ hrun i with
    ⟨o', returns⟩ | -
  · exact ⟨o₀, m, o', event, hreset, hrun, returns⟩
  · exact ⟨o₀, m, done, event, hreset, hrun, hupdate⟩

end FpgaCraft.Software
