import FpgaCraft.Software.NoPanic
import FpgaCraft.Software.Termination

/-! ## The end of a frame

`frame_done_out` compares the pixel counter before the edge writes and increments it, so it
is high from the edge that samples the last ray to the edge that draws the last pixel. -/
namespace FpgaCraft.Software
open Library

variable {cfg : FrameConfig} {P S : Nat} {ram : MockCache} {profile : Profile}

/-- The pixels written in a frame, and the edges after which `frame_done_out` was high. -/
structure FrameLog (cfg : FrameConfig) where
  writes : List (Fin cfg.NUM_PIXELS)
  dones : Nat

def FrameEvent.log (done : Bool) : FrameEvent cfg → List (FrameLog cfg) → List (FrameLog cfg)
  | .begin _, logs => ⟨[], done.toNat⟩ :: logs
  | _, [] => []
  | .none, current :: past => ⟨current.writes, current.dones + done.toNat⟩ :: past
  | .pixel index _, current :: past =>
    ⟨current.writes ++ [index], current.dones + done.toNat⟩ :: past

def Orchestrator.observe [NeZero S] (ram : MockCache) (profile : Profile) (i : CameraIn)
    (s : Orchestrator cfg P S × List (FrameLog cfg)) :
    Option (Orchestrator cfg P S × List (FrameLog cfg)) := do
  let (o, event) ← s.1.risingClkEdge ram profile false i
  pure (o, event.log o.frameDoneOut s.2)

theorem Orchestrator.observe_eq_some [NeZero S] {i : CameraIn}
    {s s' : Orchestrator cfg P S × List (FrameLog cfg)} :
    observe ram profile i s = some s' ↔ ∃ o e, s.1.risingClkEdge ram profile false i = some (o, e) ∧
      s' = (o, e.log o.frameDoneOut s.2) :=
  bind_pair_eq_some (f := fun (o : Orchestrator cfg P S) (e : FrameEvent cfg) =>
    (o, e.log o.frameDoneOut s.2))

/-- At every point of a run: `frame_done_out` is high only when every pixel of the frame is
written, and every earlier frame had it high after one edge. -/
def OnePulse [NeZero S] (ram : MockCache) (profile : Profile) (inputs : List CameraIn)
    (start : Orchestrator cfg P S × List (FrameLog cfg)) : Prop :=
  ∀ before, before <+: inputs → ∀ o logs,
    run (Orchestrator.observe ram profile) before start = some (o, logs) →
      (o.frameDoneOut = true → ∃ log, logs.head? = some log ∧ ∀ k, k ∈ log.writes) ∧
        ∀ log ∈ logs.tail, log.dones = 1

section OneUnit
variable [NeZero S] {o o' : Orchestrator cfg 1 S} {camera : Camera} {n : Nat} {i : CameraIn}
  {e : FrameEvent cfg}

theorem Rendering.sampling (r : Rendering ram profile camera n o) (hn : n < cfg.NUM_PIXELS)
    (hinit : (o.cluster.vtu 0).rayInitIn = true)
    (h : o.risingClkEdge ram profile false i = some (o', e)) :
    e = .none ∧ (o'.cluster.vtu 0).rayInitIn = false := by
  obtain ⟨c, hcluster, hcases⟩ :=
    Orchestrator.risingClkEdge_render (by rw [r.nextPixel]; exact hn.ne) h
  obtain ⟨setup, -, -, busy⟩ := Cluster.inCast_of_init r.valid hinit hcluster
  rcases hcases with ⟨-, rfl, rfl⟩ | ⟨k, -, -, -, hk, -⟩
  · exact ⟨rfl, rfl⟩
  · obtain rfl : k = 0 := Subsingleton.elim _ _
    have hvalid : (c.vtu 0).validOut = true := by simpa using List.find?_some hk
    rw [busy] at hvalid
    cases hvalid

/-- A pixel is drawn together with the assignment of the next ray; otherwise the ray counts
as sampled. -/
theorem Rendering.rayInitIn (r : Rendering ram profile camera n o) (hn : n < cfg.NUM_PIXELS)
    (h : o.risingClkEdge ram profile false i = some (o', e)) :
    (e = .none ∧ (o'.cluster.vtu 0).rayInitIn = false) ∨
      ∃ index colour, e = .pixel index colour ∧ (o'.cluster.vtu 0).rayInitIn = true := by
  obtain ⟨c, -, hcases⟩ := Orchestrator.risingClkEdge_render (by rw [r.nextPixel]; exact hn.ne) h
  rcases hcases with ⟨-, rfl, rfl⟩ | ⟨k, inFrame, colour, direction, -, -, -, rfl, rfl⟩
  · exact .inl ⟨rfl, rfl⟩
  · obtain rfl : k = 0 := Subsingleton.elim _ _
    exact .inr ⟨_, colour, rfl, rfl⟩

theorem Orchestrator.begin_rayInitIn (hnext : o.nextPixel = cfg.NUM_PIXELS)
    (h : o.risingClkEdge ram profile false i = some (o', e)) :
    (o'.cluster.vtu 0).rayInitIn = true := by
  obtain ⟨c, camera, direction, -, -, -, -, rfl⟩ := risingClkEdge_begin hnext h
  rfl

end OneUnit

inductive Unlit (ram : MockCache) (profile : Profile)
    (s : Orchestrator cfg 1 S × List (FrameLog cfg)) : Prop
  | fresh (logs : s.2 = []) (valid : s.1.cluster.memory.Valid ram profile)
    (next : s.1.nextPixel = cfg.NUM_PIXELS) (dark : s.1.frameDoneOut = false)
  | first (log : FrameLog cfg) (camera : Camera) (n : Nat) (logs : s.2 = [log])
    (before : n < cfg.NUM_PIXELS) (rendering : Rendering ram profile camera n s.1)
    (order : log.writes.map Fin.val = List.range n) (dark : s.1.frameDoneOut = false)
    (sampling : n + 1 = cfg.NUM_PIXELS → (s.1.cluster.vtu 0).rayInitIn = true)

section Runs
variable [NeZero S] {s s' : Orchestrator cfg 1 S × List (FrameLog cfg)} {i : CameraIn}

theorem Unlit.step (h : Unlit ram profile s) (hne : s.1.nextPixel ≠ cfg.NUM_PIXELS - 1)
    (hstep : Orchestrator.observe ram profile i s = some s') : Unlit ram profile s' := by
  obtain ⟨o', e, hedge, rfl⟩ := Orchestrator.observe_eq_some.mp hstep
  have hp := cfg.numPixels_pos
  cases h with
  | fresh logs valid next dark =>
    obtain ⟨rfl, ⟨camera, -, r⟩, -, dark'⟩ := Orchestrator.begin_spec valid next hedge
    exact .first ⟨[], o'.frameDoneOut.toNat⟩ camera 0 (congrArg _ logs) hp r rfl dark'
      fun _ => Orchestrator.begin_rayInitIn next hedge
  | first log camera n logs before r order dark sampling =>
    rw [r.nextPixel] at hne
    obtain ⟨hdone, hrest⟩ := r.edge before hedge
    have dark' : o'.frameDoneOut = false := by
      rw [hdone]
      exact beq_eq_false_iff_ne.mpr hne
    rcases hrest with ⟨rfl, r', -⟩ | ⟨colour, rfl, -, r', -⟩
    · exact .first ⟨log.writes, log.dones + o'.frameDoneOut.toNat⟩ camera n (by rw [logs]; rfl)
        before r' order dark' fun last => absurd (by omega) hne
    · refine .first ⟨log.writes ++ [⟨n, before⟩], log.dones + o'.frameDoneOut.toNat⟩ camera (n + 1)
        (by rw [logs]; rfl) (by omega) r' ?_ dark' fun _ => ?_
      · rw [List.map_append, order, List.range_succ]
        rfl
      · rcases r.rayInitIn before hedge with ⟨he, -⟩ | ⟨_, _, -, hinit⟩
        · cases he
        · exact hinit

/-- The edge that samples the last ray raises `frame_done_out`, one pixel too early. -/
theorem Unlit.lit (h : Unlit ram profile s) (hlast : s.1.nextPixel = cfg.NUM_PIXELS - 1)
    (hstep : Orchestrator.observe ram profile i s = some s') :
    s'.1.frameDoneOut = true ∧ ∃ log, s'.2.head? = some log ∧ ∃ k, k ∉ log.writes := by
  obtain ⟨o', e, hedge, rfl⟩ := Orchestrator.observe_eq_some.mp hstep
  have hp := cfg.numPixels_pos
  cases h with
  | fresh logs valid next dark => omega
  | first log camera n logs before r order dark sampling =>
    rw [r.nextPixel] at hlast
    obtain ⟨rfl, -⟩ := r.sampling before (sampling (by omega)) hedge
    refine ⟨?_, ⟨log.writes, log.dones + o'.frameDoneOut.toNat⟩, ?_, ⟨n, before⟩, fun hmem => ?_⟩
    · rw [(r.edge before hedge).1]
      exact beq_iff_eq.mpr hlast
    · rw [logs]
      rfl
    · have := List.mem_map_of_mem (f := Fin.val) hmem
      rw [order] at this
      exact Nat.lt_irrefl n (List.mem_range.mp this)

/-- How often `frame_done_out` was high at least, by the pixel that is next. -/
def leastDones (cfg : FrameConfig) (n : Nat) (sampling : Bool) : Nat :=
  if n = cfg.NUM_PIXELS then 2 else if n + 1 = cfg.NUM_PIXELS ∧ sampling = false then 1 else 0

def Counted (ram : MockCache) (profile : Profile)
    (s : Orchestrator cfg 1 S × List (FrameLog cfg)) : Prop :=
  (s.2 = [] ∧ s.1.cluster.memory.Valid ram profile ∧ s.1.nextPixel = cfg.NUM_PIXELS) ∨
    ∃ log past camera n, s.2 = log :: past ∧ n ≤ cfg.NUM_PIXELS ∧
      Rendering ram profile camera n s.1 ∧
      leastDones cfg n (s.1.cluster.vtu 0).rayInitIn ≤ log.dones ∧ ∀ log ∈ past, 2 ≤ log.dones

theorem Counted.step (h : Counted ram profile s)
    (hstep : Orchestrator.observe ram profile i s = some s') : Counted ram profile s' := by
  obtain ⟨o', e, hedge, rfl⟩ := Orchestrator.observe_eq_some.mp hstep
  have hp := cfg.numPixels_pos
  have least {sampling : Bool} {d : Nat} (h : sampling = true) : leastDones cfg 0 sampling ≤ d := by
    rw [leastDones, if_neg (by omega), if_neg (by simp [h])]
    exact Nat.zero_le d
  rcases h with ⟨hnil, valid, hnext⟩ | ⟨log, past, camera, n, hs, hn, r, hleast, hpast⟩
  · obtain ⟨rfl, ⟨camera, -, r⟩, -, -⟩ := Orchestrator.begin_spec valid hnext hedge
    exact .inr ⟨_, [], camera, 0, congrArg _ hnil, Nat.zero_le _, r,
      least (Orchestrator.begin_rayInitIn hnext hedge), fun _ hr => (List.not_mem_nil hr).elim⟩
  · rcases Nat.lt_or_eq_of_le hn with hlt | rfl
    · obtain ⟨hdone, hrest⟩ := r.edge hlt hedge
      have hadd : n + 1 = cfg.NUM_PIXELS → o'.frameDoneOut.toNat = 1 := fun last => by
        rw [hdone, beq_iff_eq.mpr (show n = cfg.NUM_PIXELS - 1 by omega)]
        rfl
      rcases hrest with ⟨rfl, r', -⟩ | ⟨colour, rfl, -, r', -⟩
      · refine .inr ⟨⟨log.writes, log.dones + o'.frameDoneOut.toNat⟩, past, camera, n, by rw [hs]; rfl,
          hn, r', ?_, hpast⟩
        rw [leastDones, if_neg hlt.ne]
        split
        · have := hadd (by tauto)
          dsimp only
          omega
        · exact Nat.zero_le _
      · refine .inr ⟨⟨log.writes ++ [⟨n, hlt⟩], log.dones + o'.frameDoneOut.toNat⟩, past, camera, n + 1,
          by rw [hs]; rfl, hlt, r', ?_, hpast⟩
        have sampled : (s.1.cluster.vtu 0).rayInitIn = false := by
          cases hinit : (s.1.cluster.vtu 0).rayInitIn with
          | false => rfl
          | true => cases (r.sampling hlt hinit hedge).1
        have drawn : (o'.cluster.vtu 0).rayInitIn = true := by
          rcases r.rayInitIn hlt hedge with ⟨he, -⟩ | ⟨_, _, -, hinit⟩
          · cases he
          · exact hinit
        rw [leastDones, if_neg hlt.ne, sampled] at hleast
        rw [leastDones, drawn]
        split
        · rename_i last
          have := hadd last
          rw [if_pos ⟨last, rfl⟩] at hleast
          dsimp only
          omega
        · rw [if_neg (by simp)]
          exact Nat.zero_le _
    · obtain ⟨rfl, ⟨camera', -, r'⟩, -, -⟩ := Orchestrator.begin_spec r.valid r.nextPixel hedge
      refine .inr ⟨_, log :: past, camera', 0, congrArg _ hs, Nat.zero_le _, r',
        least (Orchestrator.begin_rayInitIn r.nextPixel hedge), fun log' hmem => ?_⟩
      rcases List.mem_cons.mp hmem with rfl | hmem
      · rw [leastDones, if_pos rfl] at hleast
        exact hleast
      · exact hpast log' hmem

theorem Unlit.run (h : Unlit ram profile s) (inputs : List CameraIn)
    (early : ∀ before j after, inputs = before ++ j :: after → ∀ m,
      run (Orchestrator.observe ram profile) before s = some m → m.1.nextPixel ≠ cfg.NUM_PIXELS - 1)
    (hrun : Library.run (Orchestrator.observe ram profile) inputs s = some s') :
    Unlit ram profile s' := by
  induction inputs using List.reverseRecOn generalizing s' with
  | nil => exact Option.some.inj hrun ▸ h
  | append_singleton inputs i ih =>
    obtain ⟨m, hm, hstep⟩ := (run_concat_eq_some _).mp hrun
    have before : Unlit ram profile m :=
      ih (fun b j a hb => early b j (a ++ [i]) (by rw [hb, List.append_assoc, List.cons_append])) hm
    exact before.step (early inputs i [] rfl m hm) hstep

/-- In a run with one pulse no edge starts at the last pixel: the first one to do so would
raise the signal too early. -/
theorem Unlit.early_of_pulse (unlit : Unlit ram profile s) {inputs : List CameraIn}
    (hrun : Library.run (Orchestrator.observe ram profile) inputs s = some s')
    (pulse : OnePulse ram profile inputs s) (before : List CameraIn) (j : CameraIn)
    (after : List CameraIn) (hinputs : inputs = before ++ j :: after)
    (m : Orchestrator cfg 1 S × List (FrameLog cfg))
    (hm : Library.run (Orchestrator.observe ram profile) before s = some m) :
    m.1.nextPixel ≠ cfg.NUM_PIXELS - 1 := by
  generalize hk : before.length = k
  induction k using Nat.strong_induction_on generalizing before j after m with
  | _ k ih =>
    intro hlast
    have unlit' : Unlit ram profile m := unlit.run before (fun b j' a hb m' hm' =>
      ih b.length (by rw [← hk, hb]; simp) b j' (a ++ j :: after)
        (by rw [hinputs, hb, List.append_assoc, List.cons_append]) m' hm' rfl) hm
    rw [hinputs, run_append, hm, Option.bind_some] at hrun
    obtain ⟨m', hstep, -⟩ := (run_cons_eq_some _).mp hrun
    obtain ⟨high, log, hlog, k, missing⟩ := unlit'.lit hlast hstep
    obtain ⟨log', hlog', written⟩ := (pulse (before ++ [j])
      ⟨after, by rw [hinputs, List.append_assoc, List.singleton_append]⟩ m'.1 m'.2
      ((run_concat_eq_some _).mpr ⟨m, hm, hstep⟩)).1 high
    rw [Option.some.inj (hlog.symm.trans hlog')] at missing
    exact missing (written k)

theorem unlit_of_reset {o o₀ : Orchestrator cfg 1 S} {event : FrameEvent cfg}
    (hreset : o.risingClkEdge ram profile true i = some (o₀, event)) :
    Unlit ram profile (o₀, []) ∧ Counted ram profile (o₀, []) := by
  obtain ⟨valid, hnext, hdone⟩ := Orchestrator.reset_spec hreset
  exact ⟨.fresh rfl valid hnext hdone, .inl ⟨rfl, valid, hnext⟩⟩

end Runs

/-- From any reset on: `frame_done_out` is one pulse after the last pixel exactly in the runs
in which no edge starts at the last pixel; a frame that gets past it had it high after two
edges or more. -/
theorem frame_done_pulse_iff [NeZero S] (cfg : FrameConfig) (ram : MockCache) (profile : Profile)
    (o o₀ : Orchestrator cfg 1 S) (i : CameraIn) (event : FrameEvent cfg)
    (hreset : o.risingClkEdge ram profile true i = some (o₀, event)) (inputs : List CameraIn)
    (s : Orchestrator cfg 1 S × List (FrameLog cfg))
    (hrun : run (Orchestrator.observe ram profile) inputs (o₀, []) = some s) :
    (OnePulse ram profile inputs (o₀, []) ↔
      ∀ before j after, inputs = before ++ j :: after → ∀ m logs,
        run (Orchestrator.observe ram profile) before (o₀, []) = some (m, logs) →
          m.nextPixel ≠ cfg.NUM_PIXELS - 1) ∧
      ∀ log ∈ s.2.tail, 2 ≤ log.dones := by
  obtain ⟨unlit, counted⟩ := unlit_of_reset hreset
  refine ⟨⟨fun pulse before j after hinputs m logs hm => ?_, fun early => ?_⟩, ?_⟩
  · exact unlit.early_of_pulse hrun pulse before j after hinputs (m, logs) hm
  · rintro before ⟨rest, hprefix⟩ m logs hm
    have unlit' : Unlit ram profile (m, logs) := unlit.run before (fun b j a hb m' hm' =>
      early b j (a ++ rest) (by rw [← hprefix, hb, List.append_assoc, List.cons_append]) m'.1 m'.2 hm') hm
    cases unlit' with
    | fresh hlogs _ _ dark =>
      refine ⟨fun high => (Bool.false_ne_true (dark.symm.trans high)).elim, fun log hlog => ?_⟩
      rw [show logs = [] from hlogs] at hlog
      exact (List.not_mem_nil hlog).elim
    | first log _ _ hlogs _ _ _ dark _ =>
      refine ⟨fun high => (Bool.false_ne_true (dark.symm.trans high)).elim, fun log' hlog => ?_⟩
      rw [show logs = [log] from hlogs] at hlog
      exact (List.not_mem_nil hlog).elim
  · have done : Counted ram profile s :=
      run_preserves (fun _ _ _ (_ : True) h hstep => h.step hstep) (fun _ _ => trivial) counted hrun
    rcases done with ⟨hnil, -⟩ | ⟨log, past, -, -, hlogs, -, -, -, hpast⟩
    · rw [hnil]
      exact fun log hlog => (List.not_mem_nil hlog).elim
    · rw [hlogs]
      exact hpast

/-- The first frame of two pixels in a stone chunk, and the edge that begins the second one. -/
theorem frame_done_pulse_iff_stone :
    let cfg : FrameConfig :=
      ⟨2, 1, Fixed.one, Fixed.one, ⟨128, by decide, by decide⟩, Fixed.one, by decide, by decide⟩
    let ram : MockCache := ⟨fun _ => .stone⟩
    let inputs : List CameraIn := List.replicate 7 northward
    ∃ (o₀ : Orchestrator cfg 1 1) (event : FrameEvent cfg) (s : _ × List (FrameLog cfg)),
      Orchestrator.init.risingClkEdge ram .debug true northward = some (o₀, event) ∧
        run (Orchestrator.observe ram .debug) inputs (o₀, []) = some s ∧ s.2.length = 2 ∧
        (OnePulse ram .debug inputs (o₀, []) ↔
          ∀ before j after, inputs = before ++ j :: after → ∀ m logs,
            run (Orchestrator.observe ram .debug) before (o₀, []) = some (m, logs) →
              m.nextPixel ≠ cfg.NUM_PIXELS - 1) ∧
        ∀ log ∈ s.2.tail, 2 ≤ log.dones := by
  intro cfg ram inputs
  have hruns : ((Orchestrator.init.risingClkEdge ram .debug true northward).bind
      fun (s : Orchestrator cfg 1 1 × _) =>
        (run (Orchestrator.observe ram .debug) inputs (s.1, [])).map fun t => t.2.length) = some 2 := by
    decide +kernel
  obtain ⟨⟨o₀, event⟩, hreset, hrest⟩ := Option.bind_eq_some_iff.mp hruns
  obtain ⟨s, hrun, hlength⟩ := Option.map_eq_some_iff.mp hrest
  exact ⟨o₀, event, s, hreset, hrun, hlength,
    frame_done_pulse_iff cfg ram .debug Orchestrator.init o₀ northward event hreset inputs s hrun⟩

/-- With a level camera, edges that lower a rank are followed by one after which they need
not be. -/
theorem Orchestrator.exists_run [NeZero P] [NeZero S] {i : CameraIn} (level : i.Level)
    {o : Orchestrator FrameConfig.standard P S} (alive : o.Alive ram profile)
    (tame : o.Tame ram profile) (guard : Orchestrator FrameConfig.standard P S → Bool)
    (rank : Orchestrator FrameConfig.standard P S → Nat)
    (progress : ∀ m m' : Orchestrator FrameConfig.standard P S, m.Alive ram profile →
      guard m = true → m.tick ram profile i = some m' → rank m' < rank m) :
    ∃ n m, run (tick ram profile) (List.replicate n i) o = some m ∧ guard m = false := by
  have step {m : Orchestrator FrameConfig.standard P S} (h : m.Tame ram profile) :
      ∃ m', m.tick ram profile i = some m' ∧ m'.Tame ram profile := by
    obtain ⟨m', e, hedge, tame'⟩ := h.edge level false
    exact ⟨m', tick_eq_some.mpr ⟨e, hedge⟩, tame'⟩
  rcases @loop_terminates _ guard (tick ram profile i)
      (fun m => m.Alive ram profile ∧ m.Tame ram profile) rank
      (fun m m' inv hguard hstep => by
        obtain ⟨m₁, hm₁, tame'⟩ := step inv.2
        obtain rfl := Option.some.inj (hm₁.symm.trans hstep)
        exact ⟨⟨inv.1.tick hstep, tame'⟩, progress m m₁ inv.1 hguard hstep⟩)
      _ _ ⟨alive, tame⟩ (Nat.le_refl _) with
    ⟨m, hloop⟩ | ⟨n, m, -, -, inv, hpanic⟩
  · obtain ⟨n, -, horbit⟩ := loop_orbit hloop
    rw [orbit_eq_run] at horbit
    exact ⟨n, m, horbit, loop_exit hloop⟩
  · obtain ⟨m', hm', -⟩ := step inv.2
    rw [hpanic] at hm'
    cases hm'

/-- The first frame of a fresh program, in a stone chunk, breaks the pulse. -/
theorem frame_done_before_last_pixel :
    let ram : MockCache := ⟨fun _ => .stone⟩
    ∃ (o₀ : Orchestrator FrameConfig.standard 1 1) (event : _) (n : Nat) (s : _),
      Orchestrator.init.risingClkEdge ram .debug true northward = some (o₀, event) ∧
        run (Orchestrator.observe ram .debug) (List.replicate n northward) (o₀, []) = some s ∧
        ¬OnePulse ram .debug (List.replicate n northward) (o₀, []) := by
  intro ram
  obtain ⟨o₀, event, hreset, tame⟩ :=
    Orchestrator.tame_reset (P := 1) (S := 1) ram .debug northward
  obtain ⟨n, m, hrun, lit⟩ := Orchestrator.exists_run northward_level (.of_reset hreset) tame
    (fun o => !o.frameDoneOut) Orchestrator.riseRank
    fun _ _ alive hguard hstep => (Orchestrator.rise_progress alive hguard hstep).2
  replace lit : m.frameDoneOut = true := by simpa using lit
  obtain ⟨unlit, -⟩ := unlit_of_reset hreset
  obtain ⟨logs, hobserve⟩ := @run_observed _ _ _ _ (Orchestrator.observe ram .debug)
    (fun i o logs o' hstep => by
      obtain ⟨e, hedge⟩ := Orchestrator.tick_eq_some.mp hstep
      exact ⟨_, Orchestrator.observe_eq_some.mpr ⟨o', e, hedge, rfl⟩⟩) _ _ _ hrun []
  refine ⟨o₀, event, n, (m, logs), hreset, hobserve, fun pulse => ?_⟩
  have dark : Unlit ram .debug (m, logs) :=
    unlit.run _ (unlit.early_of_pulse hobserve pulse) hobserve
  cases dark with
  | fresh _ _ _ dark => exact Bool.false_ne_true (dark.symm.trans lit)
  | first _ _ _ _ _ _ _ dark _ => exact Bool.false_ne_true (dark.symm.trans lit)

end FpgaCraft.Software
