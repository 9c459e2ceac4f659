import FpgaCraft.Software.Cast

/-! ## The clocked cast

A unit that was initialised with a ray is casting it: it stands at some voxel of the
walk, all voxels before were air, and its port requests the voxel it stands at. Nothing
another unit does to the cache can change what the port answers, only when. -/
namespace FpgaCraft.Software
open Library

variable {P S : Nat} {ram : MockCache} {profile : Profile} {setup : RaySetup}

structure ClusterIn (P : Nat) where
  reset : Bool
  vtu : Fin P → VtuIn

namespace Cluster
variable [NeZero S]

def drive (self : Cluster P S) (i : ClusterIn P) : Cluster P S :=
  { self with vtu := fun k => (self.vtu k).assign (self.vtu k).currentPixel (i.vtu k) }

def tick (ram : MockCache) (profile : Profile) (i : ClusterIn P) (self : Cluster P S) :
    Option (Cluster P S) :=
  (self.drive i).risingClkEdge ram profile i.reset

end Cluster

/-- The axis along which the walk entered its `n`-th voxel. -/
def stepAxis (profile : Profile) (setup : RaySetup) : Nat → Axis
  | 0 => .none
  | n + 1 => ((walkAt profile setup n).map Walk.axis).getD .none

/-- A unit on its way, `n` steps into the walk. Before the first step `last_step` is
whatever the previous ray left. -/
structure Casting (ram : MockCache) (profile : Profile) (setup : RaySetup)
    (v : VoxelTraversalUnit) (n : Nat) : Prop where
  walk : walkAt profile setup n = some ⟨v.rayPosition, v.rayTMax⟩
  step : v.rayStep = setup.rayStep
  tDelta : v.rayTDelta = setup.rayTDelta
  numSteps : v.numSteps = n
  lastStep : 0 < n → v.lastStep = stepAxis profile setup n
  clear : ClearBefore ram profile setup n
  limit : n ≤ 111
  busy : v.validOut = false

/-- What a completed cast shows: the first block of the walk with the normal of the step
that entered it, or air. -/
def Outcome (ram : MockCache) (profile : Profile) (setup : RaySetup) (voxel : Block)
    (normal : Vec3) : Prop :=
  (∃ n ≤ 110, ClearBefore ram profile setup n ∧ voxelAt ram profile setup n = some voxel ∧
      voxel ≠ .air ∧ ∃ axis, hitNormal profile axis setup.rayStep = some normal ∧
        (0 < n → axis = stepAxis profile setup n)) ∨
    (voxel = .air ∧ ClearBefore ram profile setup 111)

structure Finished (ram : MockCache) (profile : Profile) (setup : RaySetup)
    (v : VoxelTraversalUnit) : Prop where
  valid : v.validOut = true
  outcome : Outcome ram profile setup v.voxelOut v.normalOut

theorem axis_ne_none (w : Walk) : w.axis ≠ .none := by
  unfold Walk.axis
  split <;> split <;> exact Axis.noConfusion

theorem advance_axis {step : Vec3i} {tDelta : Vec3} {w w' : Walk} {axis : Axis}
    (h : w.advance profile step tDelta = some (w', axis)) : axis = w.axis := by
  unfold Walk.advance at h
  cases haxis : w.axis with
  | none => exact (axis_ne_none w haxis).elim
  | _ =>
    simp only [haxis] at h
    obtain ⟨p, -, h⟩ := Option.bind_eq_some_iff.mp h
    obtain ⟨t, -, h⟩ := Option.bind_eq_some_iff.mp h
    exact (Prod.mk.inj (Option.some.inj h)).2.symm

namespace VoxelTraversalUnit

theorem edge_init {v v' : VoxelTraversalUnit} {ready : Bool} {voxel : Block} {w : PortWrite}
    (hinit : v.rayInitIn = true) (h : v.edge profile false ready voxel = some (v', w)) :
    ∃ setup, raySetup v.rayOriginIn v.rayDirectionIn = some setup ∧
      Casting ram profile setup v' 0 ∧ w = .request v'.rayPosition := by
  simp only [edge, Bool.false_eq_true, if_false, hinit, if_true] at h
  obtain ⟨setup, hsetup, heq⟩ := Option.bind_eq_some_iff.mp h
  obtain ⟨rfl, rfl⟩ := Prod.mk.inj (Option.some.inj heq)
  exact ⟨setup, hsetup, ⟨rfl, rfl, rfl, rfl, fun h => (Nat.lt_irrefl 0 h).elim,
    fun k hk => (Nat.not_lt_zero k hk).elim, Nat.zero_le _, rfl⟩, rfl⟩

theorem edge_done {v v' : VoxelTraversalUnit} {ready : Bool} {voxel : Block} {w : PortWrite}
    (hinit : v.rayInitIn = false) (hvalid : v.validOut = true)
    (h : v.edge profile false ready voxel = some (v', w)) : v' = v := by
  simp only [edge, Bool.false_eq_true, if_false, hinit, hvalid, if_true, Option.some.injEq,
    Prod.mk.injEq] at h
  exact h.1.symm

end VoxelTraversalUnit

theorem Casting.edge {v v' : VoxelTraversalUnit} {n : Nat} {ready : Bool} {voxel : Block}
    {w : PortWrite} (casting : Casting ram profile setup v n) (hinit : v.rayInitIn = false)
    (answer : ready = true → ram.block profile v.rayPosition = some voxel)
    (h : v.edge profile false ready voxel = some (v', w)) :
    (∃ n', Casting ram profile setup v' n' ∧ w.addr v.rayPosition = v'.rayPosition) ∨
      Finished ram profile setup v' := by
  obtain ⟨walk, hstep, htDelta, hsteps, hlast, clear, limit, busy⟩ := casting
  simp only [VoxelTraversalUnit.edge, Bool.false_eq_true, if_false, hinit, busy] at h
  split at h
  · -- Out of render distance
    rename_i hfar
    obtain ⟨rfl, rfl⟩ := Prod.mk.inj (Option.some.inj h)
    obtain rfl : n = 111 := by omega
    exact .inr ⟨rfl, .inr ⟨rfl, clear⟩⟩
  · rename_i hnear
    split at h
    · -- Stall
      obtain ⟨rfl, rfl⟩ := Prod.mk.inj (Option.some.inj h)
      exact .inl ⟨n, ⟨walk, hstep, htDelta, hsteps, hlast, clear, limit, busy⟩, rfl⟩
    · rename_i hready
      have hvoxel : voxelAt ram profile setup n = some voxel := by
        rw [voxelAt_of_walkAt walk]
        exact answer (by simpa using hready)
      split at h
      · -- Hit a block
        rename_i hne
        obtain ⟨normal, hnormal, heq⟩ := Option.bind_eq_some_iff.mp h
        obtain ⟨rfl, rfl⟩ := Prod.mk.inj (Option.some.inj heq)
        rw [hstep] at hnormal
        exact .inr ⟨rfl, .inl ⟨n, by omega, clear, hvoxel, hne, _, hnormal, hlast⟩⟩
      · -- Advance to the next voxel
        rename_i hair
        rw [not_not.mp hair] at hvoxel
        obtain ⟨⟨next, axis⟩, hadvance, heq⟩ := Option.bind_eq_some_iff.mp h
        obtain ⟨rfl, rfl⟩ := Prod.mk.inj (Option.some.inj heq)
        rw [hstep, htDelta] at hadvance
        have haxis : axis = stepAxis profile setup (n + 1) := by
          rw [advance_axis hadvance, stepAxis, walk]
          rfl
        exact .inl ⟨n + 1, ⟨walkAt_succ walk hadvance, hstep, htDelta, congrArg (· + 1) hsteps,
          fun _ => haxis, clear.succ hvoxel, by omega, rfl⟩, rfl⟩

theorem Casting.assign {v : VoxelTraversalUnit} {n : Nat} (casting : Casting ram profile setup v n)
    (pixel : Nat) (inputs : VtuIn) : Casting ram profile setup (v.assign pixel inputs) n :=
  ⟨casting.walk, casting.step, casting.tDelta, casting.numSteps, casting.lastStep, casting.clear,
    casting.limit, casting.busy⟩

/-- Unit `i` of a cluster casts the ray, or is done with it. -/
structure InCast (ram : MockCache) (profile : Profile) (setup : RaySetup) (i : Fin P)
    (c : Cluster P S) : Prop where
  valid : c.memory.Valid ram profile
  progress : (∃ n, Casting ram profile setup (c.vtu i) n ∧
      c.memory.l2.addrIn i = (c.vtu i).rayPosition) ∨
    Finished ram profile setup (c.vtu i)

namespace Cluster
variable [NeZero S]

theorem valid_tick {c c' : Cluster P S} {i : ClusterIn P} (valid : c.memory.Valid ram profile)
    (h : c.tick ram profile i = some c') : c'.memory.Valid ram profile :=
  valid_risingClkEdge (c := c.drive i) (fun _ => valid) h

theorem valid_run {history : List (ClusterIn P)} {c : Cluster P S}
    (h : run (tick ram profile) history init = some c) : c.memory.Valid ram profile :=
  run_preserves (fun _ _ _ (_ : True) valid hstep => valid_tick valid hstep)
    (fun _ _ => trivial) Memory.valid_init h

theorem inCast_of_init {c c' : Cluster P S} {i : Fin P} (valid : c.memory.Valid ram profile)
    (hinit : (c.vtu i).rayInitIn = true) (h : c.risingClkEdge ram profile false = some c') :
    ∃ setup, raySetup (c.vtu i).rayOriginIn (c.vtu i).rayDirectionIn = some setup ∧
      InCast ram profile setup i c' ∧ (c'.vtu i).validOut = false := by
  obtain ⟨ready, voxel, w, hedge, -, haddr, -⟩ := unit_step valid h i
  obtain ⟨setup, hsetup, casting, rfl⟩ := VoxelTraversalUnit.edge_init hinit hedge
  exact ⟨setup, hsetup, ⟨valid_risingClkEdge (fun _ => valid) h, .inl ⟨0, casting, haddr⟩⟩, casting.busy⟩

end Cluster

theorem InCast.edge [NeZero S] {c c' : Cluster P S} {i : Fin P} (h : InCast ram profile setup i c)
    (hinit : (c.vtu i).rayInitIn = false) (hedge : c.risingClkEdge ram profile false = some c') :
    InCast ram profile setup i c' := by
  obtain ⟨ready, voxel, w, hunit, -, haddr, hanswer⟩ := Cluster.unit_step h.valid hedge i
  refine ⟨Cluster.valid_risingClkEdge (fun _ => h.valid) hedge, ?_⟩
  rcases h.progress with ⟨n, casting, hport⟩ | ⟨hvalid, outcome⟩
  · rw [hport] at hanswer haddr
    rcases casting.edge hinit hanswer hunit with ⟨n', casting', hw⟩ | finished
    · exact .inl ⟨n', casting', by rw [haddr, hw]⟩
    · exact .inr finished
  · rw [VoxelTraversalUnit.edge_done hinit hvalid hunit]
    exact .inr ⟨hvalid, outcome⟩

theorem InCast.assign {c : Cluster P S} {i : Fin P} (h : InCast ram profile setup i c)
    {vtu : Fin P → VoxelTraversalUnit} {pixel : Nat} {inputs : VtuIn}
    (hvtu : vtu i = (c.vtu i).assign pixel inputs) :
    InCast ram profile setup i { c with vtu := vtu } := by
  refine ⟨h.valid, ?_⟩
  dsimp only
  rw [hvtu]
  rcases h.progress with ⟨n, casting, hport⟩ | finished
  · exact .inl ⟨n, casting.assign pixel inputs, hport⟩
  · exact .inr ⟨finished.valid, finished.outcome⟩

/-! ## Both casts agree -/

theorem outcome_agrees {voxel : Block} {normal : Vec3} {exit : MockExit} (unit : UnitStep setup.rayStep)
    (inside : MockCache.InBounds setup.rayPosition) (outcome : Outcome ram profile setup voxel normal)
    (sound : exit.Sound ram profile setup) (limit : exit.voxelOut = .air ∨ exit.numSteps ≤ 110) :
    voxel = exit.voxelOut := by
  obtain ⟨clear, hit | miss⟩ := sound
  · -- The instant cast hit a block within the limit of the clocked one
    obtain ⟨hne, hvoxel⟩ := hit
    have hlimit := limit.resolve_left hne
    rcases outcome with ⟨n, hn, clearN, hvoxelN, hneN, -⟩ | ⟨-, clear111⟩
    · have heq : n = exit.numSteps := by
        rcases Nat.lt_trichotomy n exit.numSteps with hlt | heq | hgt
        · exact (hneN (Option.some.inj (hvoxelN.symm.trans (clear n hlt)))).elim
        · exact heq
        · exact (hne (Option.some.inj (hvoxel.symm.trans (clearN _ hgt)))).elim
      rw [heq] at hvoxelN
      exact Option.some.inj (hvoxelN.symm.trans hvoxel)
    · exact (hne (Option.some.inj (hvoxel.symm.trans (clear111 _ (by omega))))).elim
  · obtain ⟨hair, hexit⟩ := miss
    rw [hair]
    rcases outcome with ⟨n, hn, -, hvoxelN, hneN, -⟩ | ⟨hvoxel, -⟩
    · -- The voxel the clocked cast hit was clear for the instant one, or past its exit
      by_contra
      apply hneN
      by_cases hlt : n < exit.numSteps
      · exact Option.some.inj (hvoxelN.symm.trans (clear n hlt))
      · rcases hexit with hlast | ⟨w, hw, hout⟩
        · omega
        · obtain ⟨w', hw', -⟩ := Option.bind_eq_some_iff.mp hvoxelN
          obtain ⟨k, rfl⟩ := Nat.exists_eq_add_of_le (Nat.le_of_not_lt hlt)
          exact Option.some.inj (hvoxelN.symm.trans
            (air_after_left unit inside hw hout k (by omega) hw').2)
    · exact hvoxel

/-- The clocked cast of a ray shows the voxel of `mock_cast`, from every reachable
state of the units and caches and against all traffic of the other units. -/
theorem cast_refines_mock [NeZero S] (ram : MockCache) (profile : Profile)
    (history : List (ClusterIn P)) (c : Cluster P S)
    (hreach : run (Cluster.tick ram profile) history Cluster.init = some c) (i : Fin P)
    (start : ClusterIn P) (hstart : start.reset = false) (hinit : (start.vtu i).rayInitIn = true)
    (rest : List (ClusterIn P))
    (hrest : ∀ next ∈ rest, next.reset = false ∧ (next.vtu i).rayInitIn = false)
    (c' : Cluster P S) (hrun : run (Cluster.tick ram profile) (start :: rest) c = some c')
    (hvalid : (c'.vtu i).validOut = true)
    (inside : MockCache.InBounds (start.vtu i).rayOriginIn.floor) (mock : VoxelTraversalUnit)
    (horigin : mock.rayOriginIn = (start.vtu i).rayOriginIn)
    (hdirection : mock.rayDirectionIn = (start.vtu i).rayDirectionIn) (exit : MockExit)
    (hmock : VoxelTraversalUnit.mockExit ram profile mock.rayOriginIn mock.rayDirectionIn = some exit)
    (hlimit : exit.voxelOut = .air ∨ exit.numSteps ≤ 110) :
    (mock.mockCast ram profile).map (fun cast => cast.voxelOut) = some (c'.vtu i).voxelOut := by
  have hcast : (mock.mockCast ram profile).map (fun cast => cast.voxelOut) = some exit.voxelOut := by
    simp [VoxelTraversalUnit.mockCast, hmock]
  rw [hcast]
  rw [horigin, hdirection] at hmock
  refine congrArg some (Eq.symm ?_)
  obtain ⟨c₁, hfirst, hfollow⟩ := (run_cons_eq_some _).mp hrun
  rw [Cluster.tick, hstart] at hfirst
  obtain ⟨setup, hsetup, cast, -⟩ :=
    Cluster.inCast_of_init (c := c.drive start) (Cluster.valid_run (c := c) hreach) hinit hfirst
  change raySetup (start.vtu i).rayOriginIn (start.vtu i).rayDirectionIn = some setup at hsetup
  have cast' : InCast ram profile setup i c' := by
    refine run_preserves (fun next c c' hok cast hstep => ?_) hrest cast hfollow
    rw [Cluster.tick, hok.1] at hstep
    have driven : InCast ram profile setup i (c.drive next) := cast.assign rfl
    exact driven.edge hok.2 hstep
  obtain ⟨hposition, unit⟩ := raySetup_spec hsetup
  rw [← hposition] at inside
  have sound : exit.Sound ram profile setup := by
    simp only [VoxelTraversalUnit.mockExit, hsetup, Option.bind_eq_bind, Option.bind_some] at hmock
    exact mockLoop_sound unit inside rfl rfl (fun k hk => (Nat.not_lt_zero k hk).elim) hmock
  rcases cast'.progress with ⟨n, casting, -⟩ | finished
  · rw [casting.busy] at hvalid
    cases hvalid
  · exact outcome_agrees unit inside finished.outcome sound hlimit

/-- A ray along +x from the middle of the only air voxel of a stone chunk. -/
theorem cast_refines_mock_stone :
    let ram : MockCache := ⟨fun cell => if cell.val = 133152 then .air else .stone⟩
    let half : Fixed := ⟨128, by decide, by decide⟩
    let ray : Bool → ClusterIn 1 := fun start => ⟨false, fun _ => ⟨⟨half, half, half⟩, Vec3.RIGHT, start⟩⟩
    let mock : VoxelTraversalUnit := { (Cluster.init : Cluster 1 1).vtu 0 with
      rayOriginIn := ⟨half, half, half⟩
      rayDirectionIn := Vec3.RIGHT }
    ∃ c c' : Cluster 1 1,
      run (Cluster.tick ram .debug) [{ ray false with reset := true }] Cluster.init = some c ∧
        run (Cluster.tick ram .debug) (ray true :: List.replicate 8 (ray false)) c = some c' ∧
        (mock.mockCast ram .debug).map (fun cast => cast.voxelOut) = some (c'.vtu 0).voxelOut := by
  intro ram half ray mock
  have hrun : ((run (Cluster.tick ram .debug) [{ ray false with reset := true }]
      (Cluster.init : Cluster 1 1)).bind
        (run (Cluster.tick ram .debug) (ray true :: List.replicate 8 (ray false)))).map
          (fun c => (c.vtu 0).validOut) = some true := by decide +kernel
  have hmock : (VoxelTraversalUnit.mockExit ram .debug ⟨half, half, half⟩ Vec3.RIGHT).map
      (fun exit => decide (exit.numSteps ≤ 110)) = some true := by decide +kernel
  obtain ⟨c', hc', hvalid⟩ := Option.map_eq_some_iff.mp hrun
  obtain ⟨c, hc, hcast⟩ := Option.bind_eq_some_iff.mp hc'
  obtain ⟨exit, hexit, hlimit⟩ := Option.map_eq_some_iff.mp hmock
  refine ⟨c, c', hc, hcast, ?_⟩
  exact cast_refines_mock ram .debug _ c hc 0 (ray true) rfl rfl (List.replicate 8 (ray false))
    (fun next hnext => (List.eq_of_mem_replicate hnext) ▸ ⟨rfl, rfl⟩) c' hcast hvalid
    (by decide) mock rfl rfl exit hexit (.inr (of_decide_eq_true hlimit))

end FpgaCraft.Software
