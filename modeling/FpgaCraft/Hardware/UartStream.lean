import FpgaCraft.Hardware.UartResync

/-! ## A line of frames

Bytes go out one frame each, with the line high in any gaps between them. The receiver undoes
that: what it delivers is what was sent, however close the frames stand. -/
namespace FpgaCraft.Hardware
open Library
variable {p : UartParams}

/-- The level of a line `n` cycles on, where a frame at the bit period carries each byte after
a gap, and which is high otherwise. -/
def frameLine (period : Nat) : List (Nat × BitVec 8) → Nat → Bool
  | [], _ => true
  | (gap, byte) :: frames, n =>
    if n < gap then true
    else if n < gap + 10 * period then symbol byte ((n - gap) / period)
    else frameLine period frames (n - (gap + 10 * period))

def frameSpan (period : Nat) (frames : List (Nat × BitVec 8)) : Nat :=
  (frames.map fun frame => frame.1 + 10 * period).sum

section Line
variable {period : Nat} {gap : Nat} {byte : BitVec 8} {frames : List (Nat × BitVec 8)}

theorem frameLine_gap {n : Nat} (h : n < gap) : frameLine period ((gap, byte) :: frames) n = true := by
  simp [frameLine, h]

theorem frameLine_frame {n : Nat} (h : n < 10 * period) :
    frameLine period ((gap, byte) :: frames) (gap + n) = symbol byte (n / period) := by
  simp [frameLine, h]

theorem frameLine_rest (n : Nat) :
    frameLine period ((gap, byte) :: frames) (gap + 10 * period + n) = frameLine period frames n := by
  rw [frameLine, if_neg (by omega), if_neg (by omega), Nat.add_sub_cancel_left]

end Line

namespace UartReceiver
variable {r : UartReceiver p} {byte : BitVec 8}

def delivered (wire : Bool) (self : UartReceiver p) : Option (BitVec 8) :=
  (self.risingClkEdge false wire).presented

theorem presented_of_silent (h : r.newDataOut = false) : r.presented = none := by
  simp [presented, h]

section Run
variable (slow : 2 ≤ p.BIT_PERIOD) {wire : Nat → Bool}

theorem Resting.high (h : r.Resting) {n : Nat} (high : ∀ k < n, wire k = true) :
    (trace (risingClkEdge false) wire r n).Resting ∧
      events (risingClkEdge false) delivered wire r n = [] := by
  have resting (k : Nat) (hk : k ≤ n) : (trace (risingClkEdge false) wire r k).Resting := by
    induction k with
    | zero => exact h
    | succ k ih =>
      rw [trace_succ, high k hk]
      exact (ih (Nat.le_of_succ_le hk)).hold.1
  refine ⟨resting n le_rfl, events_of_none fun k hk => ?_⟩
  rw [delivered, high k hk]
  exact presented_of_silent (resting k (Nat.le_of_lt hk)).hold.2

include slow

theorem Resting.hearing (h : r.Resting) {n : Nat}
    (frame : ∀ k < n, wire k = symbol byte (k / p.BIT_PERIOD)) {k : Nat} (hk : k < n) :
    (trace (risingClkEdge false) wire r (k + 1)).Hearing byte (k + 1) := by
  have start : (trace (risingClkEdge false) wire r 1).Hearing byte 1 := by
    rw [trace_succ, frame 0 (by omega), Nat.zero_div]
    exact .start 0 rfl (by omega) h.fall
  have heard := start.run slow (fun j => wire (1 + j)) fun j (hj : j < k) => frame (1 + j) (by omega)
  rwa [← trace_add, Nat.add_comm 1 k] at heard

theorem Resting.frame (h : r.Resting)
    (frame : ∀ k < 10 * p.BIT_PERIOD, wire k = symbol byte (k / p.BIT_PERIOD)) :
    (trace (risingClkEdge false) wire r (10 * p.BIT_PERIOD)).Resting ∧
      events (risingClkEdge false) delivered wire r (10 * p.BIT_PERIOD) = [byte] := by
  have hearing (k : Nat) (hk : k < 10 * p.BIT_PERIOD) := h.hearing slow frame hk
  constructor
  · have last := hearing (10 * p.BIT_PERIOD - 1) (by omega)
    rw [show 10 * p.BIT_PERIOD - 1 + 1 = 10 * p.BIT_PERIOD by omega] at last
    exact last.rest slow (by rw [Nat.mul_div_cancel _ (by omega)])
  · have within : p.BIT_PERIOD / 2 + 9 * p.BIT_PERIOD < 10 * p.BIT_PERIOD := by omega
    refine events_of_once within fun k hk => ?_
    have shown := (hearing k hk).new slow
    rw [trace_succ] at shown
    rw [delivered, presented, shown]
    congr 1
    rw [eq_iff_iff]
    omega

theorem Resting.frames (h : r.Resting) (frames : List (Nat × BitVec 8)) (idle : Nat) :
    events (risingClkEdge false) delivered (frameLine p.BIT_PERIOD frames) r
      (frameSpan p.BIT_PERIOD frames + idle) = frames.map Prod.snd := by
  induction frames generalizing r with
  | nil => exact (h.high fun _ _ => rfl).2
  | cons frame frames ih =>
    obtain ⟨gap, byte⟩ := frame
    let line := frameLine p.BIT_PERIOD ((gap, byte) :: frames)
    have high : ∀ k < gap, line k = true := fun k hk => frameLine_gap hk
    have framed : ∀ k < 10 * p.BIT_PERIOD, line (gap + k) = symbol byte (k / p.BIT_PERIOD) :=
      fun k hk => frameLine_frame hk
    obtain ⟨waiting, quiet⟩ := h.high high
    obtain ⟨resting, once⟩ := @Resting.frame _ _ byte slow (fun k => line (gap + k)) waiting framed
    have rest : (fun k => line (gap + 10 * p.BIT_PERIOD + k)) = frameLine p.BIT_PERIOD frames := by
      funext k
      exact frameLine_rest k
    rw [← trace_add] at resting
    have later := ih resting
    rw [show frameSpan p.BIT_PERIOD ((gap, byte) :: frames) + idle =
      gap + 10 * p.BIT_PERIOD + (frameSpan p.BIT_PERIOD frames + idle) by
        simp only [frameSpan, List.map_cons, List.sum_cons]
        omega, events_add, rest, later, events_add, quiet, once]
    rfl

end Run

variable (p) in
def Delivers (wire : Nat → Bool) (bytes : List (BitVec 8)) : Prop :=
  ∃ n, ∀ m, n ≤ m → events (risingClkEdge false) (fun _ => presented) wire (reset p) m = bytes

theorem delivers_frameLine (slow : 2 ≤ p.BIT_PERIOD) (frames : List (Nat × BitVec 8))
    (bytes : List (BitVec 8)) :
    Delivers p (frameLine p.BIT_PERIOD frames) bytes ↔ bytes = frames.map Prod.snd := by
  have resting : (reset p).Resting := ⟨rfl, rfl, rfl, rfl, rfl, rfl⟩
  have received (m : Nat) (hm : frameSpan p.BIT_PERIOD frames + 1 ≤ m) :
      events (risingClkEdge false) (fun _ => presented) (frameLine p.BIT_PERIOD frames) (reset p) m =
        frames.map Prod.snd := by
    obtain ⟨idle, rfl⟩ := Nat.exists_eq_add_of_le hm
    rw [show frameSpan p.BIT_PERIOD frames + 1 + idle = frameSpan p.BIT_PERIOD frames + idle + 1 by
      omega, events_succ_edges]
    exact resting.frames slow frames idle
  constructor
  · rintro ⟨n, settled⟩
    rw [← received (max n (frameSpan p.BIT_PERIOD frames + 1)) (le_max_right _ _)]
    exact (settled _ (le_max_left _ _)).symm
  · rintro rfl
    exact ⟨_, received⟩

end UartReceiver
end FpgaCraft.Hardware
