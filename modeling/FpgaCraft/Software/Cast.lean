import FpgaCraft.Software.Cluster

/-! The clocked cast of a ray refines the instant one. Both test the voxels of one walk;
the clocked unit stops after 111 of them but does not stop where the walk leaves the
chunk, since from there on L3 answers air. -/
namespace FpgaCraft.Software
open Library

variable {P S : Nat} {ram : MockCache} {profile : Profile} {setup : RaySetup}

def walkAt (profile : Profile) (setup : RaySetup) : Nat → Option Walk :=
  orbit (fun w => (w.advance profile setup.rayStep setup.rayTDelta).map Prod.fst)
    ⟨setup.rayPosition, setup.rayTMax⟩

/-- What L3 answers for the `n`-th voxel of the walk. -/
def voxelAt (ram : MockCache) (profile : Profile) (setup : RaySetup) (n : Nat) : Option Block := do
  let w ← walkAt profile setup n
  ram.block profile w.position

def ClearBefore (ram : MockCache) (profile : Profile) (setup : RaySetup) (n : Nat) : Prop :=
  ∀ k < n, voxelAt ram profile setup k = some .air

theorem ClearBefore.succ {n : Nat} (clear : ClearBefore ram profile setup n)
    (h : voxelAt ram profile setup n = some .air) : ClearBefore ram profile setup (n + 1) := by
  intro k hk
  rcases Nat.lt_succ_iff_lt_or_eq.mp hk with hlt | rfl
  · exact clear k hlt
  · exact h

theorem walkAt_succ {n : Nat} {w w' : Walk} {axis : Axis} (h : walkAt profile setup n = some w)
    (hnext : w.advance profile setup.rayStep setup.rayTDelta = some (w', axis)) :
    walkAt profile setup (n + 1) = some w' :=
  (orbit_succ_eq_some _ _).mpr ⟨w, h, by rw [hnext]; rfl⟩

theorem voxelAt_of_walkAt {n : Nat} {w : Walk} (h : walkAt profile setup n = some w) :
    voxelAt ram profile setup n = ram.block profile w.position := by
  simp [voxelAt, h]

/-! ## The walk against the bounds of the chunk -/

def UnitStep (step : Vec3i) : Prop :=
  (step.x.val = 1 ∨ step.x.val = -1) ∧ (step.y.val = 1 ∨ step.y.val = -1) ∧
    (step.z.val = 1 ∨ step.z.val = -1)

theorem stepOf_unit (d : Fixed) : (RaySetup.stepOf d).val = 1 ∨ (RaySetup.stepOf d).val = -1 := by
  unfold RaySetup.stepOf
  split
  · exact .inl rfl
  · exact .inr rfl

theorem raySetup_spec {origin direction : Vec3} (h : raySetup origin direction = some setup) :
    setup.rayPosition = origin.floor ∧ UnitStep setup.rayStep := by
  unfold raySetup at h
  iterate 13 obtain ⟨_, -, h⟩ := Option.bind_eq_some_iff.mp h
  obtain rfl := Option.some.inj h
  exact ⟨rfl, stepOf_unit _, stepOf_unit _, stepOf_unit _⟩

theorem advance_position {step : Vec3i} {tDelta : Vec3} {w w' : Walk} {axis : Axis}
    (unit : UnitStep step) (h : w.advance profile step tDelta = some (w', axis))
    (bx : |w.position.x.val| < 32000) (bY : |w.position.y.val| < 32000)
    (bz : |w.position.z.val| < 32000) :
    (w'.position.x.val = w.position.x.val + step.x.val ∧ w'.position.y = w.position.y ∧
        w'.position.z = w.position.z) ∨
      (w'.position.x = w.position.x ∧ w'.position.y.val = w.position.y.val + step.y.val ∧
        w'.position.z = w.position.z) ∨
      (w'.position.x = w.position.x ∧ w'.position.y = w.position.y ∧
        w'.position.z.val = w.position.z.val + step.z.val) := by
  obtain ⟨ux, uy, uz⟩ := unit
  rw [abs_lt] at bx bY bz
  unfold Walk.advance at h
  split at h
  all_goals
    obtain ⟨p, hp, h⟩ := Option.bind_eq_some_iff.mp h
    obtain ⟨t, -, h⟩ := Option.bind_eq_some_iff.mp h
    obtain ⟨rfl, -⟩ := Prod.mk.inj (Option.some.inj h)
    have hval := profile.val_of_i16 hp (by omega) (by omega)
  · exact .inl ⟨hval, rfl, rfl⟩
  · exact .inr (.inl ⟨rfl, hval, rfl⟩)
  · exact .inr (.inr ⟨rfl, rfl, hval⟩)

def Beyond (step p : I16) : Prop :=
  (step.val = 1 ∧ 31 < p.val) ∨ (step.val = -1 ∧ p.val < -32)

/-- One coordinate after `n` steps: not far, and inside unless it left for good. -/
structure OnTrack (step p : I16) (n : Nat) : Prop where
  near : |p.val| ≤ 32 + n
  inside : (-32 ≤ p.val ∧ p.val ≤ 31) ∨ Beyond step p

theorem OnTrack.stay {step p : I16} {n : Nat} (h : OnTrack step p n) : OnTrack step p (n + 1) where
  near := h.near.trans (by push_cast; omega)
  inside := h.inside

theorem OnTrack.move {step p p' : I16} {n : Nat} (unit : step.val = 1 ∨ step.val = -1)
    (h : OnTrack step p n) (moved : p'.val = p.val + step.val) : OnTrack step p' (n + 1) := by
  obtain ⟨near, inside⟩ := h
  rw [abs_le] at near
  refine ⟨abs_le.mpr ?_, ?_⟩
  · push_cast
    omega
  · unfold Beyond at *
    omega

theorem Beyond.move {step p p' : I16} (h : Beyond step p) (moved : p'.val = p.val + step.val) :
    Beyond step p' := by
  unfold Beyond at *
  omega

def Left (step p : Vec3i) : Prop :=
  Beyond step.x p.x ∨ Beyond step.y p.y ∨ Beyond step.z p.z

structure Tracked (step p : Vec3i) (n : Nat) : Prop where
  x : OnTrack step.x p.x n
  y : OnTrack step.y p.y n
  z : OnTrack step.z p.z n

theorem Tracked.advance {step : Vec3i} {tDelta : Vec3} {w w' : Walk} {axis : Axis} {n : Nat}
    (unit : UnitStep step) (tracked : Tracked step w.position n) (hn : n < 31000)
    (h : w.advance profile step tDelta = some (w', axis)) :
    Tracked step w'.position (n + 1) ∧ (Left step w.position → Left step w'.position) := by
  obtain ⟨tx, ty, tz⟩ := tracked
  have near {p : I16} {s : I16} (t : OnTrack s p n) : |p.val| < 32000 :=
    lt_of_le_of_lt t.near (by omega)
  rcases advance_position unit h (near tx) (near ty) (near tz) with
    ⟨hx, hy, hz⟩ | ⟨hx, hy, hz⟩ | ⟨hx, hy, hz⟩
  · rw [Left, Left, hy, hz]
    exact ⟨⟨tx.move unit.1 hx, hy ▸ ty.stay, hz ▸ tz.stay⟩, Or.imp (·.move hx) id⟩
  · rw [Left, Left, hx, hz]
    exact ⟨⟨hx ▸ tx.stay, ty.move unit.2.1 hy, hz ▸ tz.stay⟩, Or.imp id (Or.imp (·.move hy) id)⟩
  · rw [Left, Left, hx, hy]
    exact ⟨⟨hx ▸ tx.stay, hy ▸ ty.stay, tz.move unit.2.2 hz⟩, Or.imp id (Or.imp id (·.move hz))⟩

theorem Tracked.left {step p : Vec3i} {n : Nat} (tracked : Tracked step p n)
    (out : ¬MockCache.InBounds p) : Left step p := by
  have hx := tracked.x.inside
  have hy := tracked.y.inside
  have hz := tracked.z.inside
  unfold MockCache.InBounds at out
  unfold Left
  tauto

theorem Left.not_inBounds {step p : Vec3i} (h : Left step p) : ¬MockCache.InBounds p := by
  unfold Left Beyond at h
  unfold MockCache.InBounds
  omega

theorem Tracked.query {step p : Vec3i} {n : Nat} (tracked : Tracked step p n) (hn : n < 31000)
    (ram : MockCache) (profile : Profile) :
    ram.query profile p =
      some (if h : MockCache.InBounds p then some (ram.chunk (MockCache.cellIndex p h)) else none) := by
  have tx := abs_le.mp tracked.x.near
  have ty := abs_le.mp tracked.y.near
  have tz := abs_le.mp tracked.z.near
  exact ram.query_of_range profile p (by omega) (by omega) (by omega)

theorem tracked_initial (inside : MockCache.InBounds setup.rayPosition) :
    Tracked setup.rayStep setup.rayPosition 0 := by
  obtain ⟨hx, hy, hz⟩ := inside
  exact ⟨⟨abs_le.mpr (by omega), .inl hx⟩, ⟨abs_le.mpr (by omega), .inl hy⟩,
    ⟨abs_le.mpr (by omega), .inl hz⟩⟩

theorem tracked_walkAt (unit : UnitStep setup.rayStep)
    (inside : MockCache.InBounds setup.rayPosition) {n : Nat} (hn : n < 31000) {w : Walk}
    (h : walkAt profile setup n = some w) : Tracked setup.rayStep w.position n := by
  refine @orbit_preserves _ _ _ (fun n w => n < 31000 → Tracked setup.rayStep w.position n)
    (fun n m m' ih hnext hlt => ?_) (fun _ => tracked_initial inside) _ _ h hn
  obtain ⟨⟨m₁, axis⟩, hadvance, rfl⟩ := Option.map_eq_some_iff.mp hnext
  exact ((ih (by omega)).advance unit (by omega) hadvance).1

theorem air_after_left (unit : UnitStep setup.rayStep)
    (inside : MockCache.InBounds setup.rayPosition) {m : Nat} {w : Walk}
    (hm : walkAt profile setup m = some w) (left : ¬MockCache.InBounds w.position) (k : Nat)
    (hk : m + k < 31000) {w' : Walk} (hw' : walkAt profile setup (m + k) = some w') :
    Left setup.rayStep w'.position ∧ voxelAt ram profile setup (m + k) = some .air := by
  have hleft : Left setup.rayStep w'.position := by
    induction k generalizing w' with
    | zero =>
      obtain rfl : w = w' := Option.some.inj (hm.symm.trans hw')
      exact (tracked_walkAt unit inside (by omega) hm).left left
    | succ k ih =>
      obtain ⟨v, hv, hnext⟩ := (orbit_succ_eq_some (n := m + k) _ _).mp hw'
      obtain ⟨⟨v', axis⟩, hadvance, rfl⟩ := Option.map_eq_some_iff.mp hnext
      exact ((tracked_walkAt unit inside (by omega) hv).advance unit (by omega) hadvance).2
        (ih (by omega) hv)
  refine ⟨hleft, ?_⟩
  rw [voxelAt_of_walkAt hw']
  have hquery := (tracked_walkAt unit inside hk hw').query hk ram profile
  rw [dif_neg hleft.not_inBounds] at hquery
  simp [MockCache.block, hquery]

/-! ## The instant cast -/

def MockExit.Sound (ram : MockCache) (profile : Profile) (setup : RaySetup) (exit : MockExit) : Prop :=
  ClearBefore ram profile setup exit.numSteps ∧
    ((exit.voxelOut ≠ .air ∧ voxelAt ram profile setup exit.numSteps = some exit.voxelOut) ∨
      (exit.voxelOut = .air ∧ (exit.numSteps = 221 ∨
        ∃ w, walkAt profile setup exit.numSteps = some w ∧ ¬MockCache.InBounds w.position)))

theorem mockLoop_sound (unit : UnitStep setup.rayStep)
    (inside : MockCache.InBounds setup.rayPosition) {rounds numSteps : Nat} {w : Walk}
    {lastStep : Axis} {exit : MockExit} (total : rounds + numSteps = 221)
    (hw : walkAt profile setup numSteps = some w)
    (clear : ClearBefore ram profile setup numSteps)
    (h : mockLoop ram profile setup rounds w lastStep numSteps = some exit) :
    exit.Sound ram profile setup := by
  induction rounds generalizing w lastStep numSteps with
  | zero =>
    obtain rfl := Option.some.inj h
    exact ⟨clear, .inr ⟨rfl, .inl (by simpa using total)⟩⟩
  | succ rounds ih =>
    rw [mockLoop, if_neg (by omega)] at h
    have hquery := (tracked_walkAt unit inside (by omega) hw).query (by omega) ram profile
    by_cases hin : MockCache.InBounds w.position
    · rw [dif_pos hin] at hquery
      have hvoxel : voxelAt ram profile setup numSteps =
          some (ram.chunk (MockCache.cellIndex w.position hin)) := by
        rw [voxelAt_of_walkAt hw]
        simp [MockCache.block, hquery]
      simp only [hquery, Option.bind_eq_bind, Option.bind_some] at h
      split at h
      · -- Found a block
        rename_i hne
        obtain ⟨normal, -, heq⟩ := Option.bind_eq_some_iff.mp h
        obtain rfl := Option.some.inj heq
        exact ⟨clear, .inl ⟨hne, hvoxel⟩⟩
      · -- Advance
        rename_i hair
        obtain ⟨⟨next, axis⟩, hadvance, hrest⟩ := Option.bind_eq_some_iff.mp h
        exact ih (by omega) (walkAt_succ hw hadvance)
          (clear.succ (by rw [hvoxel, not_not.mp hair])) hrest
    · rw [dif_neg hin] at hquery
      simp only [hquery, Option.bind_eq_bind, Option.bind_some] at h
      obtain rfl := Option.some.inj h
      exact ⟨clear, .inr ⟨rfl, .inr ⟨w, hw, hin⟩⟩⟩

end FpgaCraft.Software
