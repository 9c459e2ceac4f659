import FpgaCraft.Hardware.UartLoopback

/-! ## The receiver under noise

Whatever is on the wire, the receiver waits, checks a start bit or samples a frame, and every
way back to waiting clears its registers. With the line high it is back within nine bits. -/
namespace FpgaCraft.Hardware
open Library
variable {p : UartParams}

namespace UartReceiver
variable {r : UartReceiver p} {byte : BitVec 8} {j n : Nat}

def presented (r : UartReceiver p) : Option (BitVec 8) :=
  if r.newDataOut then some r.dataByteOut else none

/-! ### The ways the receiver goes on -/

theorem Checking.reject (h : r.Checking j) (last : j + 1 = p.BIT_PERIOD / 2) :
    (r.risingClkEdge false true).Resting ∧ (r.risingClkEdge false true).newDataOut = false := by
  simp only [risingClkEdge, h.idle, h.check, Bool.false_eq_true, if_false, if_true, Bool.not_false]
  rw [if_pos (by rw [h.count]; omega)]
  simp only [checkStart, Bool.not_true, Bool.false_eq_true, if_false]
  exact ⟨⟨rfl, h.busy, h.index, rfl, h.check, h.buffer⟩, h.silent⟩

theorem Sampling.congr {other : BitVec 8} (h : r.Sampling byte j)
    (same : ∀ b, b < j / p.BIT_PERIOD → other.getLsbD b = byte.getLsbD b) : r.Sampling other j := by
  refine ⟨h.idle, h.busy, h.index, h.count, h.check, fun b hb => ?_, h.silent⟩
  rw [h.buffer b hb]
  split
  · rename_i hlow
    rw [same b hlow]
  · rfl

theorem Sampling.dataAny (h : r.Sampling byte j) (positive : 0 < p.BIT_PERIOD)
    (last : j % p.BIT_PERIOD + 1 = p.BIT_PERIOD) (bit : j / p.BIT_PERIOD < 8) (wire : Bool) :
    ∃ other, (r.risingClkEdge false wire).Sampling other (j + 1) := by
  let other : BitVec 8 :=
    ofBits (fun b => if b = j / p.BIT_PERIOD then wire else byte.getLsbD b) 8
  have level : other.getLsbD (j / p.BIT_PERIOD) = wire := by
    rw [getLsbD_ofBits _ bit, if_pos rfl]
  have same (b : Nat) (hb : b < j / p.BIT_PERIOD) : other.getLsbD b = byte.getLsbD b := by
    rw [getLsbD_ofBits _ (by omega), if_neg (by omega)]
  have next := (h.congr same).data positive last bit
  rw [level] at next
  exact ⟨other, next⟩

theorem Sampling.unframed (h : r.Sampling byte j) (last : j % p.BIT_PERIOD + 1 = p.BIT_PERIOD)
    (bit : j / p.BIT_PERIOD = 8) : (r.risingClkEdge false false).Resting := by
  have eight : r.bitIndex = 8 := BitVec.eq_of_toNat_eq (h.index.trans bit)
  simp only [risingClkEdge, h.idle, h.check, Bool.false_eq_true, if_false, Bool.not_true]
  rw [if_pos (by rw [h.count]; omega)]
  simp only [sample, h.busy, if_true, eight, UartReceiver.stop]
  exact ⟨rfl, rfl, rfl, rfl, rfl, rfl⟩

/-! ### Back to waiting -/

/-- The receiver waits, or will after at most `n` more cycles with the line high. -/
inductive Due (n : Nat) (r : UartReceiver p) : Prop
  | rest (resting : r.Resting)
  | check (j : Nat) (within : j + 1 ≤ p.BIT_PERIOD / 2) (left : p.BIT_PERIOD / 2 ≤ n + j)
    (checking : r.Checking j)
  | bits (j : Nat) (byte : BitVec 8) (within : j / p.BIT_PERIOD < 9)
    (left : 9 * p.BIT_PERIOD ≤ n + j) (sampling : r.Sampling byte j)

theorem Due.resting (h : r.Due n) (idle : r.idle = true) : r.Resting := by
  cases h with
  | rest resting => exact resting
  | check j _ _ checking => rw [checking.idle] at idle; cases idle
  | bits j byte _ _ sampling => rw [sampling.idle] at idle; cases idle

theorem Due.now (h : r.Due 0) (positive : 0 < p.BIT_PERIOD) : r.Resting := by
  cases h with
  | rest resting => exact resting
  | check j within left _ => omega
  | bits j byte within left _ =>
    have := (Nat.div_lt_iff_lt_mul positive).mp within
    omega

theorem Due.step (h : r.Due n) (slow : 2 ≤ p.BIT_PERIOD) (bound : n ≤ 9 * p.BIT_PERIOD)
    (wire : Bool) :
    (r.risingClkEdge false wire).Due (9 * p.BIT_PERIOD) ∧
      (wire = true → (r.risingClkEdge false wire).Due (n - 1)) := by
  have positive : 0 < p.BIT_PERIOD := by omega
  cases h with
  | rest resting =>
    cases wire with
    | false => exact ⟨.check 0 (by omega) (by omega) resting.fall, fun h => (Bool.false_ne_true h).elim⟩
    | true => exact ⟨.rest resting.hold.1, fun _ => .rest resting.hold.1⟩
  | check j within left checking =>
    rcases Nat.lt_or_ge (j + 1) (p.BIT_PERIOD / 2) with before | last
    · have next := checking.wait before wire
      exact ⟨.check (j + 1) before (by omega) next, fun _ => .check (j + 1) before (by omega) next⟩
    · cases wire with
      | false =>
        have next : (r.risingClkEdge false false).Sampling 0 0 := checking.confirm (by omega)
        have zero : 0 / p.BIT_PERIOD = 0 := Nat.zero_div _
        exact ⟨.bits 0 0 (by omega) (by omega) next, fun h => (Bool.false_ne_true h).elim⟩
      | true =>
        have next := (checking.reject (by omega)).1
        exact ⟨.rest next, fun _ => .rest next⟩
  | bits j byte within left sampling =>
    have below := Nat.mod_lt j positive
    rcases Nat.lt_or_ge (j % p.BIT_PERIOD + 1) p.BIT_PERIOD with inside | last
    · have next := sampling.wait inside wire
      have same : (j + 1) / p.BIT_PERIOD = j / p.BIT_PERIOD := by rw [div_succ positive, if_pos inside]
      rw [← same] at within
      exact ⟨.bits (j + 1) byte within (by omega) next,
        fun _ => .bits (j + 1) byte within (by omega) next⟩
    · rcases Nat.lt_or_ge (j / p.BIT_PERIOD) 8 with bit | final
      · obtain ⟨other, next⟩ := sampling.dataAny positive (by omega) bit wire
        have later : (j + 1) / p.BIT_PERIOD < 9 := by
          rw [div_succ positive, if_neg (by omega)]
          omega
        exact ⟨.bits (j + 1) other later (by omega) next,
          fun _ => .bits (j + 1) other later (by omega) next⟩
      · have resting : (r.risingClkEdge false wire).Resting := by
          cases wire with
          | false => exact sampling.unframed (by omega) (by omega)
          | true => exact (sampling.stop (by omega) (by omega)).1
        exact ⟨.rest resting, fun _ => .rest resting⟩

/-! ### Runs -/

section Run
variable (slow : 2 ≤ p.BIT_PERIOD) (wire : Nat → Bool)
include slow

theorem due (n : Nat) : (trace (risingClkEdge false) wire (reset p) n).Due (9 * p.BIT_PERIOD) := by
  induction n with
  | zero => exact .rest ⟨rfl, rfl, rfl, rfl, rfl, rfl⟩
  | succ n ih => exact (ih.step slow le_rfl (wire n)).1

theorem resting_of_idle {n : Nat} (idle : (trace (risingClkEdge false) wire (reset p) n).idle = true) :
    (trace (risingClkEdge false) wire (reset p) n).Resting :=
  (due slow wire n).resting idle

theorem silent_of_glitch {n : Nat}
    (idle : (trace (risingClkEdge false) wire (reset p) n).idle = true) (low : wire n = false)
    (high : wire (n + p.BIT_PERIOD / 2) = true) :
    (trace (risingClkEdge false) wire (reset p) (n + p.BIT_PERIOD / 2 + 1)).idle = true ∧
      ∀ k, n < k → k ≤ n + p.BIT_PERIOD / 2 + 1 →
        (trace (risingClkEdge false) wire (reset p) k).presented = none := by
  have checking (j : Nat) (hj : j + 1 ≤ p.BIT_PERIOD / 2) :
      (trace (risingClkEdge false) wire (reset p) (n + 1 + j)).Checking j := by
    induction j with
    | zero =>
      rw [Nat.add_zero, trace_succ, low]
      exact (resting_of_idle slow wire idle).fall
    | succ j ih => exact (ih (by omega)).wait (by omega) _
  obtain ⟨half, hhalf⟩ : ∃ half, p.BIT_PERIOD / 2 = half + 1 :=
    ⟨p.BIT_PERIOD / 2 - 1, by omega⟩
  rw [hhalf] at high ⊢
  obtain ⟨resting, silent⟩ := (checking half (by omega)).reject hhalf.symm
  have last : trace (risingClkEdge false) wire (reset p) (n + (half + 1) + 1) =
      (trace (risingClkEdge false) wire (reset p) (n + 1 + half)).risingClkEdge false true := by
    rw [trace_succ, high, show n + (half + 1) = n + 1 + half by omega]
  rw [← last] at resting silent
  refine ⟨resting.idle, fun k hk hk' => ?_⟩
  rcases Nat.lt_or_ge k (n + (half + 1) + 1) with before | after
  · have quiet := (checking (k - (n + 1)) (by omega)).silent
    rw [show n + 1 + (k - (n + 1)) = k by omega] at quiet
    rw [presented, quiet, if_neg Bool.false_ne_true]
  · rw [show k = n + (half + 1) + 1 by omega, presented, silent, if_neg Bool.false_ne_true]

/-- With the line high, nine bits bring the receiver back, and one more cycle silences it. -/
theorem quiet_of_high {start length : Nat} (high : ∀ k < length, wire (start + k) = true)
    {k : Nat} (hk : 9 * p.BIT_PERIOD < k) (hk' : k ≤ length) :
    (trace (risingClkEdge false) wire (reset p) (start + k)).Resting ∧
      (trace (risingClkEdge false) wire (reset p) (start + k)).newDataOut = false := by
  have due (m : Nat) (hm : m ≤ 9 * p.BIT_PERIOD) :
      (trace (risingClkEdge false) wire (reset p) (start + m)).Due (9 * p.BIT_PERIOD - m) := by
    induction m with
    | zero => exact due slow wire start
    | succ m ih =>
      have next := ((ih (by omega)).step slow (by omega) (wire (start + m))).2 (high m (by omega))
      rw [show 9 * p.BIT_PERIOD - (m + 1) = 9 * p.BIT_PERIOD - m - 1 by omega]
      exact next
  have back := due (9 * p.BIT_PERIOD) le_rfl
  rw [Nat.sub_self] at back
  induction k, hk using Nat.le_induction with
  | base =>
    rw [Nat.succ_eq_add_one, ← Nat.add_assoc, trace_succ, high _ (by omega)]
    exact (back.now (by omega)).hold
  | succ k hk ih =>
    rw [← Nat.add_assoc, trace_succ, high _ (by omega)]
    exact (ih (by omega)).1.hold

theorem Hearing.run {k n : Nat} (h : r.Hearing byte k)
    (frame : ∀ j < n, wire j = symbol byte ((k + j) / p.BIT_PERIOD)) :
    (trace (risingClkEdge false) wire r n).Hearing byte (k + n) := by
  induction n with
  | zero => exact h
  | succ n ih =>
    rw [trace_succ, frame n (Nat.lt_succ_self n)]
    exact (ih fun j hj => frame j (by omega)).step slow

theorem hearing_of_frame {n : Nat} {byte : BitVec 8}
    (resting : (trace (risingClkEdge false) wire (reset p) n).Resting)
    (silent : (trace (risingClkEdge false) wire (reset p) n).newDataOut = false)
    (frame : ∀ k < 10 * p.BIT_PERIOD, wire (n + k) = symbol byte (k / p.BIT_PERIOD)) {k : Nat}
    (hk : k ≤ 10 * p.BIT_PERIOD) :
    (trace (risingClkEdge false) wire (reset p) (n + k)).Hearing byte k := by
  have start : (trace (risingClkEdge false) wire (reset p) n).Hearing byte 0 := .edge rfl resting silent
  have heard := start.run slow (fun j => wire (n + j)) fun j (hj : j < k) => by
    rw [Nat.zero_add, frame j (by omega)]
  rwa [Nat.zero_add, ← trace_add] at heard

end Run
end UartReceiver

/-- For every line: the registers are clear whenever the receiver waits; a glitch that is over
by the check of the start bit shows nothing; and after ten bits of a high line a frame is
shown once, as what it is, whatever came before. -/
theorem receiver_resynchronises (slow : 2 ≤ p.BIT_PERIOD) (wire : Nat → Bool) :
    let s := trace (UartReceiver.risingClkEdge false) wire (UartReceiver.reset p)
    (∀ n, (s n).idle = true → (s n).bitIndex = 0 ∧ (s n).clockCycleCount = 0 ∧
        (s n).checkStartBit = false ∧ (s n).busyIn = false ∧ (s n).dataOutBuffer = 0) ∧
      (∀ n, (s n).idle = true → wire n = false → wire (n + p.BIT_PERIOD / 2) = true →
        (s (n + p.BIT_PERIOD / 2 + 1)).idle = true ∧
          ∀ k, n < k → k ≤ n + p.BIT_PERIOD / 2 + 1 → (s k).presented = none) ∧
      ∀ start length byte, 10 * p.BIT_PERIOD ≤ length → (∀ k < length, wire (start + k) = true) →
        (∀ k < 10 * p.BIT_PERIOD, wire (start + length + k) = symbol byte (k / p.BIT_PERIOD)) →
          ∀ k, start + 9 * p.BIT_PERIOD < k → k ≤ start + length + 10 * p.BIT_PERIOD →
            (s k).presented =
              if k = start + length + (p.BIT_PERIOD / 2 + 1 + 9 * p.BIT_PERIOD) then some byte
              else none := by
  intro s
  refine ⟨fun n idle => ?_, fun n idle low high => ?_, fun start length byte long high frame k hk hk' => ?_⟩
  · have resting := UartReceiver.resting_of_idle slow wire idle
    exact ⟨resting.index, resting.count, resting.check, resting.busy, resting.buffer⟩
  · exact UartReceiver.silent_of_glitch slow wire idle low high
  · rcases Nat.lt_or_ge k (start + length) with before | after
    · have quiet := (UartReceiver.quiet_of_high slow wire high (k := k - start) (by omega) (by omega)).2
      rw [show start + (k - start) = k by omega] at quiet
      rw [UartReceiver.presented, quiet, if_neg Bool.false_ne_true, if_neg (by omega)]
    · obtain ⟨resting, silent⟩ :=
        UartReceiver.quiet_of_high slow wire high (k := length) (by omega) le_rfl
      have hearing := UartReceiver.hearing_of_frame slow wire resting silent frame
        (k := k - (start + length)) (by omega)
      rw [show start + length + (k - (start + length)) = k by omega] at hearing
      rw [UartReceiver.presented, hearing.new slow]
      congr 1
      rw [eq_iff_iff]
      omega

def noiseThenFrame (n : Nat) : Bool :=
  if n < 7 then n % 3 == 0 else if n < 27 then true else symbol 0x55 ((n - 27) / 2)

theorem receiver_resynchronises_noiseThenFrame :
    (trace (UartReceiver.risingClkEdge false) noiseThenFrame (UartReceiver.reset ⟨2, 1⟩)
      47).presented = some 0x55 :=
  (receiver_resynchronises (p := ⟨2, 1⟩) (by decide) noiseThenFrame).2.2 7 20 0x55 (by decide)
    (by decide) (by decide) 47 (by decide) (by decide)

end FpgaCraft.Hardware
