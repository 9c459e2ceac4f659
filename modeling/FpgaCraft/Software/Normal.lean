import FpgaCraft.Software.Refinement

/-! ## The surface normal

The edge that samples a ray keeps `last_step`. A cast that hits the voxel it starts in is
shaded with the last step of an earlier ray; every other cast takes a step first. -/
namespace FpgaCraft.Software
open Library

variable {P S : Nat} {ram : MockCache} {profile : Profile} {setup : RaySetup}

namespace VoxelTraversalUnit
variable {v v' : VoxelTraversalUnit} {ready : Bool} {voxel : Block} {w : PortWrite}

theorem edge_init_lastStep (hinit : v.rayInitIn = true)
    (h : v.edge profile false ready voxel = some (v', w)) : v'.lastStep = v.lastStep := by
  simp only [edge, Bool.false_eq_true, if_false, hinit, if_true] at h
  obtain ⟨setup, -, heq⟩ := Option.bind_eq_some_iff.mp h
  obtain ⟨rfl, -⟩ := Prod.mk.inj (Option.some.inj heq)
  rfl

theorem edge_lastStep (hinit : v.rayInitIn = false)
    (h : v.edge profile false ready voxel = some (v', w)) :
    (v'.lastStep = v.lastStep ∧ v'.numSteps = v.numSteps) ∨ v'.numSteps = v.numSteps + 1 := by
  simp only [edge, Bool.false_eq_true, if_false, hinit] at h
  split_ifs at h
  case neg =>
    obtain ⟨⟨next, axis⟩, -, heq⟩ := Option.bind_eq_some_iff.mp h
    obtain ⟨rfl, -⟩ := Prod.mk.inj (Option.some.inj heq)
    exact .inr rfl
  all_goals
    first
    | obtain ⟨rfl, -⟩ := Prod.mk.inj (Option.some.inj h)
    | obtain ⟨_, -, heq⟩ := Option.bind_eq_some_iff.mp h
      obtain ⟨rfl, -⟩ := Prod.mk.inj (Option.some.inj heq)
    exact .inl ⟨rfl, rfl⟩

theorem edge_hit (hinit : v.rayInitIn = false) (busy : v.validOut = false)
    (h : v.edge profile false ready voxel = some (v', w)) (hvalid : v'.validOut = true)
    (hne : v'.voxelOut ≠ .air) :
    v.numSteps ≤ 110 ∧ ready = true ∧ v'.voxelOut = voxel ∧
      hitNormal profile v.lastStep v.rayStep = some v'.normalOut := by
  simp only [edge, Bool.false_eq_true, if_false, hinit, busy] at h
  split_ifs at h with hfar hready hhit
  · obtain ⟨rfl, -⟩ := Prod.mk.inj (Option.some.inj h)
    exact (hne rfl).elim
  · obtain ⟨rfl, -⟩ := Prod.mk.inj (Option.some.inj h)
    rw [busy] at hvalid
    cases hvalid
  · obtain ⟨normal, hnormal, heq⟩ := Option.bind_eq_some_iff.mp h
    obtain ⟨rfl, -⟩ := Prod.mk.inj (Option.some.inj heq)
    exact ⟨by omega, by simpa using hready, rfl, hnormal⟩
  · obtain ⟨⟨next, axis⟩, -, heq⟩ := Option.bind_eq_some_iff.mp h
    obtain ⟨rfl, -⟩ := Prod.mk.inj (Option.some.inj heq)
    cases hvalid

end VoxelTraversalUnit

/-- The axis a hit after `n` steps is shaded with, when `left` was in the register before. -/
def enteredAlong (profile : Profile) (setup : RaySetup) (left : Axis) (n : Nat) : Axis :=
  if n = 0 then left else stepAxis profile setup n

def HitFrom (ram : MockCache) (profile : Profile) (setup : RaySetup) (left : Axis)
    (voxel : Block) (normal : Vec3) : Prop :=
  ∃ n ≤ 110, ClearBefore ram profile setup n ∧ voxelAt ram profile setup n = some voxel ∧
    voxel ≠ .air ∧ hitNormal profile (enteredAlong profile setup left n) setup.rayStep = some normal

structure CastingFrom (ram : MockCache) (profile : Profile) (setup : RaySetup) (left : Axis)
    (v : VoxelTraversalUnit) (n : Nat) : Prop where
  casting : Casting ram profile setup v n
  leftover : n = 0 → v.lastStep = left

/-- Unit `i` casts the ray, with `left` in its register when it sampled it, or is done. -/
structure InCastFrom (ram : MockCache) (profile : Profile) (setup : RaySetup) (left : Axis)
    (i : Fin P) (c : Cluster P S) : Prop where
  valid : c.memory.Valid ram profile
  progress : (∃ n, CastingFrom ram profile setup left (c.vtu i) n ∧
      c.memory.l2.addrIn i = (c.vtu i).rayPosition) ∨
    Finished ram profile setup (c.vtu i) ∧ ((c.vtu i).voxelOut ≠ .air →
      HitFrom ram profile setup left (c.vtu i).voxelOut (c.vtu i).normalOut)

theorem CastingFrom.lastStep {left : Axis} {v : VoxelTraversalUnit} {n : Nat}
    (h : CastingFrom ram profile setup left v n) :
    v.lastStep = enteredAlong profile setup left n := by
  unfold enteredAlong
  split
  · exact h.leftover ‹_›
  · exact h.casting.lastStep (by omega)

theorem CastingFrom.edge {left : Axis} {v v' : VoxelTraversalUnit} {n : Nat} {ready : Bool}
    {voxel : Block} {w : PortWrite} (h : CastingFrom ram profile setup left v n)
    (hinit : v.rayInitIn = false) (answer : ready = true → ram.block profile v.rayPosition = some voxel)
    (hedge : v.edge profile false ready voxel = some (v', w)) :
    (∃ n', CastingFrom ram profile setup left v' n' ∧ w.addr v.rayPosition = v'.rayPosition) ∨
      Finished ram profile setup v' ∧
        (v'.voxelOut ≠ .air → HitFrom ram profile setup left v'.voxelOut v'.normalOut) := by
  rcases h.casting.edge hinit answer hedge with ⟨n', casting', hw⟩ | finished
  · refine .inl ⟨n', ⟨casting', fun hn' => ?_⟩, hw⟩
    have hsteps : v'.numSteps = 0 := casting'.numSteps.trans hn'
    rcases VoxelTraversalUnit.edge_lastStep hinit hedge with ⟨same, stalled⟩ | stepped
    · exact same.trans (h.leftover (h.casting.numSteps.symm.trans (stalled.symm.trans hsteps)))
    · omega
  · refine .inr ⟨finished, fun hne => ?_⟩
    obtain ⟨hsteps, hready, rfl, hnormal⟩ :=
      VoxelTraversalUnit.edge_hit hinit h.casting.busy hedge finished.valid hne
    rw [h.casting.numSteps] at hsteps
    rw [h.lastStep, h.casting.step] at hnormal
    refine ⟨n, hsteps, h.casting.clear, ?_, hne, hnormal⟩
    rw [voxelAt_of_walkAt h.casting.walk]
    exact answer hready

namespace InCastFrom
variable [NeZero S] {left : Axis} {i : Fin P} {c c' : Cluster P S}

theorem of_init (valid : c.memory.Valid ram profile) (hinit : (c.vtu i).rayInitIn = true)
    (h : c.risingClkEdge ram profile false = some c') :
    ∃ setup, raySetup (c.vtu i).rayOriginIn (c.vtu i).rayDirectionIn = some setup ∧
      InCastFrom ram profile setup (c.vtu i).lastStep i c' := by
  obtain ⟨ready, voxel, w, hedge, -, haddr, -⟩ := Cluster.unit_step valid h i
  obtain ⟨setup, hsetup, casting, rfl⟩ := VoxelTraversalUnit.edge_init hinit hedge
  have same := VoxelTraversalUnit.edge_init_lastStep hinit hedge
  exact ⟨setup, hsetup, Cluster.valid_risingClkEdge (fun _ => valid) h,
    .inl ⟨0, ⟨casting, fun _ => same⟩, haddr⟩⟩

theorem edge (h : InCastFrom ram profile setup left i c) (hinit : (c.vtu i).rayInitIn = false)
    (hedge : c.risingClkEdge ram profile false = some c') :
    InCastFrom ram profile setup left i c' := by
  obtain ⟨ready, voxel, w, hunit, -, haddr, hanswer⟩ := Cluster.unit_step h.valid hedge i
  refine ⟨Cluster.valid_risingClkEdge (fun _ => h.valid) hedge, ?_⟩
  rcases h.progress with ⟨n, casting, hport⟩ | ⟨finished, hit⟩
  · rw [hport] at hanswer haddr
    rcases casting.edge hinit hanswer hunit with ⟨n', casting', hw⟩ | done
    · exact .inl ⟨n', casting', by rw [haddr, hw]⟩
    · exact .inr done
  · rw [VoxelTraversalUnit.edge_done hinit finished.valid hunit]
    exact .inr ⟨finished, hit⟩

omit [NeZero S] in
theorem drive (h : InCastFrom ram profile setup left i c) (inputs : ClusterIn P) :
    InCastFrom ram profile setup left i (c.drive inputs) := by
  refine ⟨h.valid, ?_⟩
  rcases h.progress with ⟨n, ⟨casting, leftover⟩, hport⟩ | ⟨finished, hit⟩
  · exact .inl ⟨n, ⟨⟨casting.walk, casting.step, casting.tDelta, casting.numSteps, casting.lastStep,
      casting.clear, casting.limit, casting.busy⟩, leftover⟩, hport⟩
  · exact .inr ⟨⟨finished.valid, finished.outcome⟩, hit⟩

end InCastFrom

/-- The instant cast shades a block with the axis of the step that entered it, and the voxel
it starts in with none. -/
theorem mockLoop_hit {rounds numSteps : Nat} {w : Walk} {lastStep : Axis} {exit : MockExit}
    (hw : walkAt profile setup numSteps = some w)
    (hlast : lastStep = enteredAlong profile setup .none numSteps)
    (clear : ClearBefore ram profile setup numSteps)
    (h : mockLoop ram profile setup rounds w lastStep numSteps = some exit)
    (hne : exit.voxelOut ≠ .air) :
    ∃ n normal, ClearBefore ram profile setup n ∧
      voxelAt ram profile setup n = some exit.voxelOut ∧ exit.normalOut = some normal ∧
      hitNormal profile (enteredAlong profile setup .none n) setup.rayStep = some normal := by
  induction rounds generalizing w lastStep numSteps with
  | zero =>
    obtain rfl := Option.some.inj h
    exact (hne rfl).elim
  | succ rounds ih =>
    rw [mockLoop] at h
    split at h
    · obtain rfl := Option.some.inj h
      exact (hne rfl).elim
    · obtain ⟨answer, hquery, h⟩ := Option.bind_eq_some_iff.mp h
      cases answer with
      | none =>
        obtain rfl := Option.some.inj h
        exact (hne rfl).elim
      | some block =>
        have hvoxel : voxelAt ram profile setup numSteps = some block := by
          rw [voxelAt_of_walkAt hw]
          simp [MockCache.block, hquery]
        dsimp only at h
        split at h
        · obtain ⟨normal, hnormal, heq⟩ := Option.bind_eq_some_iff.mp h
          obtain rfl := Option.some.inj heq
          exact ⟨numSteps, normal, clear, hvoxel, rfl, hlast ▸ hnormal⟩
        · rename_i hair
          obtain ⟨⟨next, axis⟩, hadvance, hrest⟩ := Option.bind_eq_some_iff.mp h
          refine ih (walkAt_succ hw hadvance) ?_ (clear.succ (by rw [hvoxel, not_not.mp hair])) hrest
          rw [enteredAlong, if_neg (Nat.succ_ne_zero _), advance_axis hadvance, stepAxis, hw]
          rfl

theorem hitNormal_eq_zero_iff {step : Vec3i} (unit : UnitStep step) (axis : Axis) :
    hitNormal profile axis step = some 0 ↔ axis = .none := by
  have pm {s : I16} (h : s.val = 1 ∨ s.val = -1) :
      s = ⟨1, by decide, by decide⟩ ∨ s = ⟨-1, by decide, by decide⟩ :=
    h.imp Signed.ext Signed.ext
  obtain ⟨ux, uy, uz⟩ := unit
  cases axis with
  | none => exact iff_of_true rfl rfl
  | x =>
    refine iff_of_false ?_ Axis.noConfusion
    rw [hitNormal]
    rcases pm ux with h | h <;> rw [h] <;> cases profile <;> decide
  | y =>
    refine iff_of_false ?_ Axis.noConfusion
    rw [hitNormal]
    rcases pm uy with h | h <;> rw [h] <;> cases profile <;> decide
  | z =>
    refine iff_of_false ?_ Axis.noConfusion
    rw [hitNormal]
    rcases pm uz with h | h <;> rw [h] <;> cases profile <;> decide

theorem first_block_unique {m n : Nat} {a b : Block} (clearM : ClearBefore ram profile setup m)
    (hm : voxelAt ram profile setup m = some a) (ha : a ≠ .air)
    (clearN : ClearBefore ram profile setup n) (hn : voxelAt ram profile setup n = some b)
    (hb : b ≠ .air) : m = n := by
  rcases Nat.lt_trichotomy m n with hlt | heq | hgt
  · exact (ha (Option.some.inj (hm.symm.trans (clearN m hlt)))).elim
  · exact heq
  · exact (hb (Option.some.inj (hn.symm.trans (clearM n hgt)))).elim

/-- A run in which a unit samples a ray in a reachable state and completes its cast, neither
reset nor given another ray before. -/
structure CastRun (ram : MockCache) (profile : Profile) (origin direction : Vec3) (P S : Nat)
    [NeZero S] where
  i : Fin P
  history : List (ClusterIn P)
  before : Cluster P S
  start : ClusterIn P
  rest : List (ClusterIn P)
  after : Cluster P S
  reachable : run (Cluster.tick ram profile) history Cluster.init = some before
  sampled : start.reset = false ∧ start.vtu i = ⟨origin, direction, true⟩
  undisturbed : ∀ next ∈ rest, next.reset = false ∧ (next.vtu i).rayInitIn = false
  completes : run (Cluster.tick ram profile) (start :: rest) before = some after
  valid : (after.vtu i).validOut = true

namespace CastRun
variable {origin direction : Vec3} [NeZero S]

def voxel (r : CastRun ram profile origin direction P S) : Block := (r.after.vtu r.i).voxelOut

def normal (r : CastRun ram profile origin direction P S) : Vec3 := (r.after.vtu r.i).normalOut

def leftover (r : CastRun ram profile origin direction P S) : Axis := (r.before.vtu r.i).lastStep

theorem finished (r : CastRun ram profile origin direction P S) :
    ∃ setup, raySetup origin direction = some setup ∧ Outcome ram profile setup r.voxel r.normal ∧
      (r.voxel ≠ .air → HitFrom ram profile setup r.leftover r.voxel r.normal) := by
  obtain ⟨c, hfirst, hfollow⟩ := (run_cons_eq_some _).mp r.completes
  rw [Cluster.tick, r.sampled.1] at hfirst
  have hvtu : (r.before.drive r.start).vtu r.i =
      (r.before.vtu r.i).assign (r.before.vtu r.i).currentPixel ⟨origin, direction, true⟩ := by
    rw [← r.sampled.2]
    rfl
  have hinit : ((r.before.drive r.start).vtu r.i).rayInitIn = true := by rw [hvtu]; rfl
  obtain ⟨setup, hsetup, cast⟩ :=
    InCastFrom.of_init (c := r.before.drive r.start) (Cluster.valid_run (c := r.before) r.reachable)
      hinit hfirst
  rw [hvtu] at hsetup cast
  have done : InCastFrom ram profile setup r.leftover r.i r.after :=
    run_preserves (fun next c c' hok cast hstep => by
      rw [Cluster.tick, hok.1] at hstep
      exact (cast.drive next).edge hok.2 hstep) r.undisturbed cast hfollow
  refine ⟨setup, hsetup, ?_⟩
  rcases done.progress with ⟨n, casting, -⟩ | ⟨finished, hit⟩
  · have busy := casting.casting.busy
    rw [r.valid] at busy
    cases busy
  · exact ⟨finished.outcome, hit⟩

theorem mock_hit {setup : RaySetup} (hsetup : raySetup origin direction = some setup)
    {exit : MockExit}
    (h : VoxelTraversalUnit.mockExit ram profile origin direction = some exit)
    (hne : exit.voxelOut ≠ .air) :
    ∃ n normal, ClearBefore ram profile setup n ∧
      voxelAt ram profile setup n = some exit.voxelOut ∧ exit.normalOut = some normal ∧
      hitNormal profile (enteredAlong profile setup .none n) setup.rayStep = some normal := by
  simp only [VoxelTraversalUnit.mockExit, hsetup, Option.bind_eq_bind, Option.bind_some] at h
  exact mockLoop_hit rfl rfl (fun k hk => (Nat.not_lt_zero k hk).elim) h hne

theorem mock_of_solid {setup : RaySetup} (hsetup : raySetup origin direction = some setup)
    {voxel : Block} (hvoxel : ram.block profile origin.floor = some voxel) (hne : voxel ≠ .air) :
    VoxelTraversalUnit.mockExit ram profile origin direction = some ⟨voxel, some 0, 0⟩ := by
  obtain ⟨answer, hquery, hanswer⟩ := Option.bind_eq_some_iff.mp hvoxel
  have hblock : answer = some voxel := by
    cases answer with
    | none => exact (hne (Option.some.inj hanswer).symm).elim
    | some block => exact congrArg some (Option.some.inj hanswer)
  rw [← (raySetup_spec hsetup).1, hblock] at hquery
  rw [VoxelTraversalUnit.mockExit, hsetup]
  change mockLoop ram profile setup (220 + 1) ⟨setup.rayPosition, setup.rayTMax⟩ .none 0 = _
  rw [mockLoop, if_neg (by decide), hquery]
  simp only [Option.bind_eq_bind, Option.bind_some, if_pos hne, hitNormal]
  rfl

theorem exists_of_run {i : Fin P} {history rest : List (ClusterIn P)} {start : ClusterIn P}
    {voxel : Block} {normal : Vec3}
    (sampled : start.reset = false ∧ start.vtu i = ⟨origin, direction, true⟩)
    (undisturbed : ∀ next ∈ rest, next.reset = false ∧ (next.vtu i).rayInitIn = false)
    (h : ((run (Cluster.tick ram profile) history (Cluster.init : Cluster P S)).bind
      (run (Cluster.tick ram profile) (start :: rest))).map (fun c =>
        ((c.vtu i).validOut, (c.vtu i).voxelOut, (c.vtu i).normalOut)) = some (true, voxel, normal)) :
    ∃ r : CastRun ram profile origin direction P S, r.voxel = voxel ∧ r.normal = normal := by
  obtain ⟨after, hrun, hout⟩ := Option.map_eq_some_iff.mp h
  obtain ⟨before, hbefore, hafter⟩ := Option.bind_eq_some_iff.mp hrun
  simp only [Prod.mk.injEq] at hout
  exact ⟨⟨i, history, before, start, rest, after, hbefore, sampled, undisturbed, hafter, hout.1⟩,
    hout.2⟩

end CastRun

/-- A ray that starts in a block is shaded like the instant cast only by a unit that has not
taken a step since its reset; every other ray is. -/
theorem normal_of_own_ray_iff [NeZero S] {P' S' : Nat} [NeZero S'] {origin direction : Vec3}
    (a : CastRun ram profile origin direction P S) (b : CastRun ram profile origin direction P' S')
    (hit : a.voxel ≠ .air) :
    (a.normal = b.normal ∧ ∀ exit,
      VoxelTraversalUnit.mockExit ram profile origin direction = some exit →
        exit.voxelOut ≠ .air → exit.normalOut = some a.normal) ↔
    ram.block profile origin.floor = some .air ∨ a.leftover = .none ∧ b.leftover = .none := by
  obtain ⟨setup, hsetup, -, hitA⟩ := a.finished
  obtain ⟨setupB, hsetupB, outcomeB, hitB⟩ := b.finished
  obtain rfl : setup = setupB := Option.some.inj (hsetup.symm.trans hsetupB)
  obtain ⟨hposition, unit⟩ := raySetup_spec hsetup
  obtain ⟨n, hn, clear, hvoxel, hne, hnormalA⟩ := hitA hit
  have hneB : b.voxel ≠ .air := by
    rcases outcomeB with ⟨m, -, -, -, hneB, -⟩ | ⟨-, clear111⟩
    · exact hneB
    · exact (hne (Option.some.inj (hvoxel.symm.trans (clear111 n (by omega))))).elim
  obtain ⟨m, -, clearB, hvoxelB, -, hnormalB⟩ := hitB hneB
  obtain rfl : n = m := first_block_unique clear hvoxel hne clearB hvoxelB hneB
  have first : voxelAt ram profile setup 0 = ram.block profile origin.floor := by
    rw [← hposition]
    exact voxelAt_of_walkAt (w := ⟨setup.rayPosition, setup.rayTMax⟩) rfl
  constructor
  · rintro ⟨same, mock⟩
    rcases Nat.eq_zero_or_pos n with rfl | stepped
    · right
      have hzero := mock _ (CastRun.mock_of_solid hsetup (first ▸ hvoxel) hne) hne
      rw [← Option.some.inj hzero] at hnormalA same
      rw [← same] at hnormalB
      exact ⟨(hitNormal_eq_zero_iff unit _).mp hnormalA, (hitNormal_eq_zero_iff unit _).mp hnormalB⟩
    · exact .inl (first ▸ clear 0 stepped)
  · intro condition
    have own {left : Axis} (h : ram.block profile origin.floor = some .air ∨ left = .none) :
        enteredAlong profile setup left n = enteredAlong profile setup .none n := by
      rcases h with hair | rfl
      · have stepped : n ≠ 0 := by
          rintro rfl
          rw [first, hair] at hvoxel
          exact hne (Option.some.inj hvoxel).symm
        simp only [enteredAlong, if_neg stepped]
      · rfl
    rw [own (condition.imp id And.left)] at hnormalA
    rw [own (condition.imp id And.right)] at hnormalB
    refine ⟨Option.some.inj (hnormalA.symm.trans hnormalB), fun exit hexit hneE => ?_⟩
    obtain ⟨k, normal, clearE, hvoxelE, hnormalE, hhit⟩ := CastRun.mock_hit hsetup hexit hneE
    obtain rfl : n = k := first_block_unique clear hvoxel hne clearE hvoxelE hneE
    rw [hnormalE]
    exact hhit.symm.trans hnormalA

def burrow : MockCache := ⟨fun cell => if cell.val = 133152 then .air else .stone⟩

def inAir : Vec3 := ⟨.ofRaw 128, .ofRaw 128, .ofRaw 128⟩

def inStone : Vec3 := ⟨.ofRaw 384, .ofRaw 128, .ofRaw 128⟩

def alongX (origin : Vec3) (init : Bool) : ClusterIn 1 := ⟨false, fun _ => ⟨origin, Vec3.RIGHT, init⟩⟩

theorem exists_run_inStone (history : List (ClusterIn 1)) (normal : Vec3)
    (h : ((run (Cluster.tick burrow .debug) history (Cluster.init : Cluster 1 1)).bind
      (run (Cluster.tick burrow .debug)
        (alongX inStone true :: List.replicate 3 (alongX inStone false)))).map (fun c =>
          ((c.vtu 0).validOut, (c.vtu 0).voxelOut, (c.vtu 0).normalOut)) =
      some (true, .stone, normal)) :
    ∃ r : CastRun burrow .debug inStone Vec3.RIGHT 1 1, r.voxel = .stone ∧ r.normal = normal :=
  CastRun.exists_of_run ⟨rfl, rfl⟩ (fun _ hnext => (List.eq_of_mem_replicate hnext) ▸ ⟨rfl, rfl⟩) h

theorem normal_of_own_ray_iff_burrow :
    ∃ a b : CastRun burrow .debug inStone Vec3.RIGHT 1 1, a.normal ≠ b.normal ∧
      ¬(burrow.block .debug inStone.floor = some .air ∨ a.leftover = .none ∧ b.leftover = .none) := by
  obtain ⟨a, hvoxel, hnormalA⟩ := exists_run_inStone [] 0 (by decide +kernel)
  obtain ⟨b, -, hnormalB⟩ := exists_run_inStone
    (alongX inAir true :: List.replicate 8 (alongX inAir false))
    ⟨⟨-256, by decide, by decide⟩, 0, 0⟩ (by decide +kernel)
  have differ : a.normal ≠ b.normal := by
    rw [hnormalA, hnormalB]
    decide
  refine ⟨a, b, differ, fun own => ?_⟩
  exact differ ((normal_of_own_ray_iff a b (by rw [hvoxel]; exact Block.noConfusion)).mpr own).1

/-- A fresh unit shows no normal there; one that took a step along x before shows its normal. -/
theorem normal_of_previous_ray :
    ∃ a b : CastRun burrow .debug inStone Vec3.RIGHT 1 1,
      a.voxel = .stone ∧ b.voxel = .stone ∧ a.normal = 0 ∧
        b.normal = ⟨⟨-256, by decide, by decide⟩, 0, 0⟩ ∧ a.normal ≠ b.normal := by
  obtain ⟨a, hvoxelA, hnormalA⟩ := exists_run_inStone [] 0 (by decide +kernel)
  obtain ⟨b, hvoxelB, hnormalB⟩ := exists_run_inStone
    (alongX inAir true :: List.replicate 8 (alongX inAir false))
    ⟨⟨-256, by decide, by decide⟩, 0, 0⟩ (by decide +kernel)
  refine ⟨a, b, hvoxelA, hvoxelB, hnormalA, hnormalB, ?_⟩
  rw [hnormalA, hnormalB]
  decide

end FpgaCraft.Software
