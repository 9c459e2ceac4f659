import FpgaCraft.Software.Frame
import FpgaCraft.Software.March

/-! ## Frames that never panic

With level cameras every value that an edge computes stays in range: the basis and the rays
by the bounds of the camera, the walks by those of the ray they started from, and the
colours because only seven normals occur. -/
namespace FpgaCraft.Software
open Library

variable {P S : Nat} {ram : MockCache} {profile : Profile}

/-! ### Shading -/

def faceNormals : List Vec3 :=
  [0, Vec3.RIGHT, ⟨.ofRaw (-256), 0, 0⟩, Vec3.UP, ⟨0, .ofRaw (-256), 0⟩, Vec3.FORWARD,
    ⟨0, 0, .ofRaw (-256)⟩]

theorem shade_of_faceNormal (voxel : Block) {normal : Vec3} (h : normal ∈ faceNormals) :
    ∃ colour, shade voxel normal = some colour := by
  have table : ∀ normal ∈ faceNormals, (shade voxel normal).isSome = true := by
    cases voxel <;> decide +kernel
  exact Option.isSome_iff_exists.mp (table normal h)

theorem hitNormal_of_step (profile : Profile) (axis : Axis) {step : Vec3i}
    (h : |step.x.val| ≤ 1 ∧ |step.y.val| ≤ 1 ∧ |step.z.val| ≤ 1) :
    ∃ normal ∈ faceNormals, hitNormal profile axis step = some normal := by
  have unit {s : I16} (h : |s.val| ≤ 1) :
      s = 0 ∨ s = ⟨1, by decide, by decide⟩ ∨ s = ⟨-1, by decide, by decide⟩ := by
    obtain ⟨hl, hu⟩ := abs_le.mp h
    simp only [Signed.ext_iff, Signed.val_zero]
    omega
  obtain ⟨hx, hy, hz⟩ := h
  cases axis with
  | none => exact ⟨0, by decide, rfl⟩
  | x =>
    rw [hitNormal]
    rcases unit hx with h | h | h <;> rw [h] <;> cases profile <;> decide
  | y =>
    rw [hitNormal]
    rcases unit hy with h | h | h <;> rw [h] <;> cases profile <;> decide
  | z =>
    rw [hitNormal]
    rcases unit hz with h | h | h <;> rw [h] <;> cases profile <;> decide

/-! ### The units -/

/-- A unit whose registers stay in range, and whose next ray will. -/
structure VoxelTraversalUnit.Tame (v : VoxelTraversalUnit) : Prop where
  ray : v.rayInitIn = true → InWorld v.rayOriginIn ∧ Aimed v.rayDirectionIn
  marching : Marching v.rayStep v.rayTDelta ⟨v.rayPosition, v.rayTMax⟩ v.numSteps
  limit : v.numSteps ≤ 111
  normal : v.normalOut ∈ faceNormals

def Near (p : Vec3i) : Prop := |p.x.val| ≤ 2200 ∧ |p.y.val| ≤ 2200 ∧ |p.z.val| ≤ 2200

theorem Marching.near {step : Vec3i} {tDelta : Vec3} {w : Walk} {n : Nat}
    (h : Marching step tDelta w n) (hn : n ≤ 111) : Near w.position := by
  obtain ⟨hx, hy, hz⟩ := h.position
  exact ⟨by omega, by omega, by omega⟩

theorem marching_zero : Marching 0 0 ⟨0, 0⟩ 0 := by
  have zero : (0 : Vec3i).x.val = 0 ∧ (0 : Vec3i).y.val = 0 ∧ (0 : Vec3i).z.val = 0 :=
    ⟨rfl, rfl, rfl⟩
  have zero' : (0 : Vec3).x.val = 0 ∧ (0 : Vec3).y.val = 0 ∧ (0 : Vec3).z.val = 0 := ⟨rfl, rfl, rfl⟩
  constructor <;> simp [zero, zero']

namespace VoxelTraversalUnit

theorem tame_init : init.Tame :=
  ⟨fun h => Bool.noConfusion h, marching_zero, Nat.zero_le _, by decide⟩

theorem Tame.edge {v : VoxelTraversalUnit} (h : v.Tame) (profile : Profile) (reset ready : Bool)
    (voxel : Block) :
    ∃ v' w, v.edge profile reset ready voxel = some (v', w) ∧ v'.Tame ∧
      ∀ addr, w = .request addr → Near addr := by
  have hold {w : PortWrite} (hw : w = .hold ∨ w = .disable) (addr : Vec3i)
      (heq : w = .request addr) : Near addr := by
    rcases hw with rfl | rfl <;> cases heq
  obtain ⟨ray, marching, limit, normal⟩ := h
  unfold VoxelTraversalUnit.edge
  split_ifs with hreset hinit hvalid hfar hready hhit
  · have forward : Vec3.FORWARD ∈ faceNormals := by decide
    exact ⟨_, _, rfl, ⟨ray, marching_zero, Nat.zero_le _, forward⟩, hold (.inr rfl)⟩
  · obtain ⟨setup, hsetup, first⟩ := raySetup_of_aimed (ray hinit).1 (ray hinit).2
    refine ⟨_, _, bind_some hsetup rfl, ⟨ray, first, Nat.zero_le _, normal⟩, ?_⟩
    rintro addr ⟨⟩
    exact first.near (Nat.zero_le _)
  · exact ⟨_, _, rfl, ⟨ray, marching, limit, normal⟩, hold (.inl rfl)⟩
  · exact ⟨_, _, rfl, ⟨ray, marching, limit, normal⟩, hold (.inr rfl)⟩
  · exact ⟨_, _, rfl, ⟨ray, marching, limit, normal⟩, hold (.inl rfl)⟩
  · obtain ⟨face, hface, hnormal⟩ := hitNormal_of_step profile v.lastStep marching.step
    exact ⟨_, _, bind_some hnormal rfl, ⟨ray, marching, limit, hface⟩, hold (.inr rfl)⟩
  · obtain ⟨next, axis, hadvance, marching'⟩ := marching.advance profile limit
    refine ⟨_, _, bind_some hadvance rfl, ⟨ray, marching', by dsimp only; omega, normal⟩, ?_⟩
    rintro addr ⟨⟩
    exact marching'.near (by omega)

theorem Tame.assign {v : VoxelTraversalUnit} (h : v.Tame) {pixel : Nat} {inputs : VtuIn}
    (ray : inputs.rayInitIn = true → InWorld inputs.rayOriginIn ∧ Aimed inputs.rayDirectionIn) :
    (v.assign pixel inputs).Tame :=
  ⟨ray, h.marching, h.limit, h.normal⟩

end VoxelTraversalUnit

/-! ### The memory -/

theorem MockCache.block_of_near (ram : MockCache) (profile : Profile) {p : Vec3i} (h : Near p) :
    ∃ voxel, ram.block profile p = some voxel := by
  obtain ⟨hx, hy, hz⟩ := h
  have := ram.query_of_range profile p (by have := (abs_le.mp hx).2; omega)
    (by have := (abs_le.mp hy).2; omega) (by have := (abs_le.mp hz).2; omega)
  exact ⟨_, bind_some this rfl⟩

namespace Memory

/-- A memory that is asked for reachable positions only. -/
structure Tame (ram : MockCache) (profile : Profile) (m : Memory P S) : Prop where
  valid : m.Valid ram profile
  ports : ∀ p, Near (m.l2.addrIn p)
  request : Near m.l3.addrIn

theorem Tame.edge [NeZero S] {m : Memory P S} (h : m.Tame ram profile) (reset : Bool) :
    ∃ m', m.risingClkEdge ram profile reset = some m' ∧ m'.Tame ram profile := by
  cases reset with
  | true =>
    exact ⟨_, rfl, Memory.valid_reset rfl, h.ports, h.request⟩
  | false =>
    obtain ⟨l2, l3, hedge, haddr, -⟩ := L2Cache.risingClkEdge_spec h.valid
    have request : Near l3.addrIn := by
      obtain ⟨filled, -, heq⟩ := Option.bind_eq_some_iff.mp hedge
      obtain ⟨rfl, rfl⟩ := Prod.mk.inj (Option.some.inj heq)
      unfold L2Cache.arbitrate
      split
      · rw [haddr]
        exact h.ports _
      · exact h.request
    obtain ⟨l3', hl3, keeps⟩ : ∃ l3', l3.risingClkEdge ram profile false = some l3' ∧
        l3'.addrIn = l3.addrIn := by
      obtain ⟨voxel, hvoxel⟩ := ram.block_of_near profile request
      unfold L3Cache.risingClkEdge
      rw [if_neg Bool.false_ne_true]
      split
      · exact ⟨_, rfl, rfl⟩
      · exact ⟨_, bind_some hvoxel rfl, rfl⟩
    have hm : m.risingClkEdge ram profile false = some ⟨l2, l3'⟩ := bind_some hedge (bind_some hl3 rfl)
    refine ⟨_, hm, (Memory.risingClkEdge_spec h.valid hm).1, fun p => ?_, ?_⟩
    · rw [haddr]
      exact h.ports p
    · rw [keeps]
      exact request

end Memory

namespace Cluster

structure Tame (ram : MockCache) (profile : Profile) (c : Cluster P S) : Prop where
  units : ∀ k, (c.vtu k).Tame
  memory : c.memory.Tame ram profile

theorem clockVtus_of_tame (profile : Profile) (reset : Bool) (units : List (Fin P)) {vtu : Fin P → VoxelTraversalUnit}
    {l2 : L2Cache P S} (tame : ∀ k, (vtu k).Tame) (ports : ∀ p, Near (l2.addrIn p)) :
    ∃ vtu' l2', clockVtus profile reset units vtu l2 = some (vtu', l2') ∧ (∀ k, (vtu' k).Tame) ∧
      ∀ p, Near (l2'.addrIn p) := by
  induction units generalizing vtu l2 with
  | nil => exact ⟨vtu, l2, rfl, tame, ports⟩
  | cons i rest ih =>
    obtain ⟨unit, w, hedge, hunit, hw⟩ := (tame i).edge profile reset (l2.validOut i) (l2.voxelOut i)
    have tame' (k : Fin P) : (Function.update vtu i unit k).Tame := by
      by_cases hk : k = i
      · rw [hk, Function.update_self]
        exact hunit
      · rw [Function.update_of_ne hk]
        exact tame k
    have ports' (p : Fin P) : Near ((l2.write i w).addrIn p) := by
      unfold L2Cache.write
      dsimp only
      by_cases hp : p = i
      · rw [hp, Function.update_self]
        cases w with
        | request addr => exact hw addr rfl
        | hold => exact ports i
        | disable => exact ports i
      · rw [Function.update_of_ne hp]
        exact ports p
    obtain ⟨vtu', l2', hrest, result⟩ := ih tame' ports'
    exact ⟨vtu', l2', bind_some (bind_some hedge rfl) hrest, result⟩

theorem Tame.edge [NeZero S] {c : Cluster P S} (h : c.Tame ram profile) (reset : Bool) :
    ∃ c', c.risingClkEdge ram profile reset = some c' ∧ c'.Tame ram profile := by
  obtain ⟨memory, hmemory, tame⟩ := h.memory.edge reset
  obtain ⟨vtu, l2, hvtus, units, ports⟩ :=
    clockVtus_of_tame profile reset (List.finRange P) h.units tame.ports
  have hc : c.risingClkEdge ram profile reset = some ⟨vtu, { memory with l2 := l2 }⟩ :=
    bind_some hmemory (bind_some hvtus rfl)
  exact ⟨_, hc, units, valid_risingClkEdge (fun _ => h.memory.valid) hc, ports, tame.request⟩

theorem tame_init [NeZero S] : (init : Cluster P S).Tame ram profile := by
  have near : Near 0 := by
    have zero : (0 : Vec3i).x.val = 0 ∧ (0 : Vec3i).y.val = 0 ∧ (0 : Vec3i).z.val = 0 :=
      ⟨rfl, rfl, rfl⟩
    simp [Near, zero]
  exact ⟨fun _ => VoxelTraversalUnit.tame_init, Memory.valid_init, fun _ => near, near⟩

end Cluster

/-! ### The frame -/

namespace Orchestrator

structure Tame (ram : MockCache) (profile : Profile)
    (o : Orchestrator FrameConfig.standard P S) : Prop where
  cluster : o.cluster.Tame ram profile
  bound : o.nextPixel ≤ FrameConfig.standard.NUM_PIXELS
  framed : o.nextPixel < FrameConfig.standard.NUM_PIXELS →
    ∃ cx cy cz a b, Framed o.camera cx cy cz a b
  handedOut : o.nextPixel < FrameConfig.standard.NUM_PIXELS →
    ∀ k, (o.cluster.vtu k).currentPixel ≤ o.nextPixel

variable {o : Orchestrator FrameConfig.standard P S} {i : CameraIn}

theorem Tame.begin (h : o.Tame ram profile) (level : i.Level) :
    ∃ o' e, o.beginFrame i = some (o', e) ∧ o'.Tame ram profile := by
  obtain ⟨camera, hcamera, cx, cy, cz, a, b, framed⟩ := Camera.init_level level
  have hpos := Camera.cameraPos_of_init hcamera
  obtain ⟨direction, hdirection, aimed⟩ := framed.rayDirection (Nat.zero_le 20480)
  rw [Camera.rayDirection_zero, hpos] at hdirection
  have ray : InWorld i.cameraPosIn ∧ Aimed direction := ⟨hpos ▸ framed.inWorld, aimed⟩
  refine ⟨_, _, bind_some hcamera (bind_some hdirection rfl),
    ⟨fun k => (h.cluster.units k).assign fun _ => ray, h.cluster.memory⟩, Nat.zero_le _,
    fun _ => ⟨cx, cy, cz, a, b, framed⟩, fun _ _ => Nat.zero_le _⟩

theorem Tame.draw (h : o.Tame ram profile) (hnext : o.nextPixel < FrameConfig.standard.NUM_PIXELS) :
    ∃ o' e, o.drawPixel = some (o', e) ∧ o'.Tame ram profile := by
  have sampled (k : Fin P) :
      VoxelTraversalUnit.Tame { o.cluster.vtu k with rayInitIn := false } := by
    obtain ⟨-, marching, limit, normal⟩ := h.cluster.units k
    exact ⟨fun h => Bool.noConfusion h, marching, limit, normal⟩
  obtain ⟨cx, cy, cz, a, b, framed⟩ := h.framed hnext
  unfold drawPixel
  dsimp only
  split
  · exact ⟨_, _, rfl, ⟨sampled, h.cluster.memory⟩, h.bound, h.framed, h.handedOut⟩
  · rename_i k hk
    have inFrame := lt_of_le_of_lt (h.handedOut hnext k) hnext
    rw [dif_pos inFrame]
    obtain ⟨colour, hcolour⟩ :=
      shade_of_faceNormal (o.cluster.vtu k).voxelOut (h.cluster.units k).normal
    obtain ⟨direction, hdirection, aimed⟩ := framed.rayDirection (Nat.succ_le_of_lt hnext)
    have ray : InWorld o.camera.cameraPos ∧ Aimed direction := ⟨framed.inWorld, aimed⟩
    refine ⟨_, _, bind_some hcolour (bind_some hdirection rfl), ⟨fun j => ?_, h.cluster.memory⟩,
      hnext, fun _ => ⟨cx, cy, cz, a, b, framed⟩, fun _ => ?_⟩
    · dsimp only [assign]
      by_cases hj : j = k
      · rw [hj, Function.update_self]
        exact (sampled k).assign fun _ => ray
      · rw [Function.update_of_ne hj]
        exact sampled j
    · refine currentPixel_assign_le (Nat.le_refl _) (fun j => ?_) k _
      exact Nat.le_succ_of_le (h.handedOut hnext j)

theorem Tame.edge [NeZero S] (h : o.Tame ram profile) (level : i.Level) (reset : Bool) :
    ∃ o' e, o.risingClkEdge ram profile reset i = some (o', e) ∧ o'.Tame ram profile := by
  obtain ⟨c, hcluster, tame⟩ := h.cluster.edge reset
  have pixel (k : Fin P) : (c.vtu k).currentPixel = (o.cluster.vtu k).currentPixel := by
    obtain ⟨memory, -, -, -, units⟩ := Cluster.risingClkEdge_spec hcluster
    obtain ⟨w, step⟩ := units k
    exact (VoxelTraversalUnit.edge_inputs step.edge).1
  cases reset with
  | true =>
    exact ⟨_, _, bind_some hcluster rfl, tame, Nat.le_refl _, fun hlt => (Nat.lt_irrefl _ hlt).elim,
      fun hlt => (Nat.lt_irrefl _ hlt).elim⟩
  | false =>
    have clocked : Tame ram profile { o with
        cluster := c
        frameDoneOut := o.nextPixel == FrameConfig.standard.NUM_PIXELS - 1 } :=
      ⟨tame, h.bound, h.framed, fun hlt k => (pixel k).trans_le (h.handedOut hlt k)⟩
    rcases Nat.lt_or_eq_of_le h.bound with hlt | heq
    · obtain ⟨o', e, hdraw, tame'⟩ := clocked.draw hlt
      refine ⟨o', e, bind_some hcluster ?_, tame'⟩
      dsimp only
      rw [if_neg Bool.false_ne_true, if_neg hlt.ne]
      exact hdraw
    · obtain ⟨o', e, hbegin, tame'⟩ := clocked.begin level
      refine ⟨o', e, bind_some hcluster ?_, tame'⟩
      dsimp only
      rw [if_neg Bool.false_ne_true, if_pos heq]
      exact hbegin

theorem tame_reset [NeZero S] (ram : MockCache) (profile : Profile) (i : CameraIn) :
    ∃ o e, (init : Orchestrator FrameConfig.standard P S).risingClkEdge ram profile true i =
      some (o, e) ∧ o.Tame ram profile := by
  obtain ⟨c, hcluster, tame⟩ :=
    (Cluster.tame_init : (Cluster.init : Cluster P S).Tame ram profile).edge true
  exact ⟨_, _, bind_some hcluster rfl, tame, Nat.le_refl _, fun hlt => (Nat.lt_irrefl _ hlt).elim,
    fun hlt => (Nat.lt_irrefl _ hlt).elim⟩

def clock [NeZero S] (ram : MockCache) (profile : Profile) (e : Bool × CameraIn)
    (self : Orchestrator FrameConfig.standard P S) :
    Option (Orchestrator FrameConfig.standard P S) := do
  let (next, _) ← self.risingClkEdge ram profile e.1 e.2
  pure next

theorem Tame.run [NeZero S] (h : o.Tame ram profile) (history : List (Bool × CameraIn))
    (level : ∀ e ∈ history, e.2.Level) :
    ∃ o', Library.run (clock ram profile) history o = some o' ∧ o'.Tame ram profile := by
  induction history generalizing o with
  | nil => exact ⟨o, rfl, h⟩
  | cons e history ih =>
    obtain ⟨o₁, event, hedge, tame⟩ := h.edge (level e List.mem_cons_self) e.1
    obtain ⟨o₂, hrun, tame'⟩ := ih tame fun e he => level e (List.mem_cons_of_mem _ he)
    exact ⟨o₂, (run_cons_eq_some _).mpr ⟨o₁, bind_some hedge rfl, hrun⟩, tame'⟩

end Orchestrator

/-- Every edge of every history of level cameras and resets runs without a panic, for every
world and any number of units and cache entries. -/
theorem level_frames_never_panic (P S : Nat) [NeZero S] (ram : MockCache) (profile : Profile)
    (i₀ : CameraIn) (history : List (Bool × CameraIn)) (level : ∀ e ∈ history, e.2.Level) :
    ∃ o : Orchestrator FrameConfig.standard P S,
      run (Orchestrator.clock ram profile) ((true, i₀) :: history) Orchestrator.init = some o := by
  obtain ⟨o, e, hreset, tame⟩ := Orchestrator.tame_reset (P := P) (S := S) ram profile i₀
  obtain ⟨o', hrun, -⟩ := tame.run history level
  exact ⟨o', (run_cons_eq_some _).mpr ⟨o, bind_some hreset rfl, hrun⟩⟩

def northward : CameraIn := ⟨0, Vec3.FORWARD⟩

theorem northward_level : northward.Level := by
  constructor <;> decide

theorem level_frames_never_panic_stone :
    ∃ o : Orchestrator FrameConfig.standard 1 1,
      run (Orchestrator.clock ⟨fun _ => .stone⟩ .debug)
        ((true, northward) :: List.replicate 100000 (false, northward)) Orchestrator.init = some o :=
  level_frames_never_panic 1 1 _ _ _ _ fun _ he => List.eq_of_mem_replicate he ▸ northward_level

end FpgaCraft.Software
