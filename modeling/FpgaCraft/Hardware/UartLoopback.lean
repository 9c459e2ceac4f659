import FpgaCraft.Hardware.Uart
import FpgaCraft.Library.Delay
import FpgaCraft.Library.Machine

/-! The two ends of the serial link stay in phase: a byte accepted in a cycle is presented a
fixed number of cycles later, whatever is asked of the transmitter meanwhile. -/
namespace FpgaCraft.Hardware
open Library
variable {p : UartParams}

/-- The level of the wire during the symbols of a byte: the start bit, the bits of the byte
from the lowest on, and the stop bit. -/
def symbol (byte : BitVec 8) (s : Nat) : Bool :=
  if s = 0 then false else if s ≤ 8 then byte.getLsbD (s - 1) else true

theorem period_fits (p : UartParams) : p.BIT_PERIOD ≤ 2 ^ (Nat.clog 2 p.BIT_PERIOD + 1) := by
  have fits : p.BIT_PERIOD ≤ 2 ^ Nat.clog 2 p.BIT_PERIOD := Nat.le_pow_clog Nat.one_lt_two _
  rw [Nat.pow_succ]
  omega

namespace UartTransmit

structure Sending (byte : BitVec 8) (k : Nat) (t : UartTransmit p) : Prop where
  busy : t.busyOut = true
  wire : t.txWireOut = symbol byte (k / p.BIT_PERIOD)
  count : t.clockCycleCount.toNat = k % p.BIT_PERIOD
  bit : t.bitCount.toNat = k / p.BIT_PERIOD
  buffer : t.dataInBuffer = byte

variable {t : UartTransmit p} {byte : BitVec 8} {k : Nat}

theorem sending_start {i : TransmitIn} (h : i.triggerIn = true) :
    ((reset p).risingClkEdge false i).Sending i.dataByteIn 0 := by
  simp only [risingClkEdge, reset, h, Bool.false_eq_true, if_false, if_true]
  constructor <;> simp [symbol]

theorem Sending.count_succ (h : t.Sending byte k) (inside : k % p.BIT_PERIOD + 1 < p.BIT_PERIOD) :
    (t.clockCycleCount + 1).toNat = k % p.BIT_PERIOD + 1 := by
  rw [counter_succ _ (period_fits p) (h.count ▸ inside), h.count]

theorem Sending.nextBit (h : t.Sending byte k) (inFrame : k / p.BIT_PERIOD + 1 < 10) :
    t.nextBit.clockCycleCount = 0 ∧ t.nextBit.busyOut = true ∧ t.nextBit.dataInBuffer = byte ∧
      t.nextBit.bitCount.toNat = k / p.BIT_PERIOD + 1 ∧
      t.nextBit.txWireOut = symbol byte (k / p.BIT_PERIOD + 1) := by
  have bit : (t.bitCount + 1).toNat = k / p.BIT_PERIOD + 1 := by
    rw [counter_succ 10 (by decide) (h.bit ▸ inFrame), h.bit]
  have notLast : ¬t.bitCount = 9 := by
    intro nine
    have := h.bit
    rw [nine] at this
    change 9 = _ at this
    omega
  unfold UartTransmit.nextBit
  rw [if_neg notLast]
  split
  · rename_i eight
    have value := h.bit
    rw [eight] at value
    change 8 = _ at value
    refine ⟨rfl, h.busy, h.buffer, bit, ?_⟩
    rw [← value]
    rfl
  · rename_i inner
    have value : k / p.BIT_PERIOD ≠ 8 := fun e => inner (BitVec.eq_of_toNat_eq (h.bit.trans e))
    refine ⟨rfl, h.busy, h.buffer, bit, ?_⟩
    change t.dataInBuffer.getLsbD t.bitCount.toNat = _
    rw [h.buffer, h.bit, symbol, if_neg (Nat.succ_ne_zero _), if_pos (by omega), Nat.add_sub_cancel]

theorem Sending.step (h : t.Sending byte k) (slow : 2 ≤ p.BIT_PERIOD)
    (inFrame : (k + 1) / p.BIT_PERIOD < 10) (i : TransmitIn) :
    (t.risingClkEdge false i).Sending byte (k + 1) := by
  have positive : 0 < p.BIT_PERIOD := by omega
  have below := Nat.mod_lt k positive
  simp only [risingClkEdge, h.busy, Bool.false_eq_true, if_false, if_true, h.count]
  rw [div_succ positive] at inFrame
  split
  · rename_i last
    rw [if_neg (by omega)] at inFrame
    obtain ⟨count, busy, buffer, bit, wire⟩ := h.nextBit inFrame
    have next : (k + 1) / p.BIT_PERIOD = k / p.BIT_PERIOD + 1 := by
      rw [div_succ positive, if_neg (by omega)]
    refine ⟨busy, next ▸ wire, ?_, next ▸ bit, buffer⟩
    rw [count, mod_succ positive, if_neg (by omega)]
    rfl
  · rename_i inner
    have inside : k % p.BIT_PERIOD + 1 < p.BIT_PERIOD := by omega
    have same : (k + 1) / p.BIT_PERIOD = k / p.BIT_PERIOD := by
      rw [div_succ positive, if_pos inside]
    refine ⟨rfl, same ▸ h.wire, ?_, same ▸ h.bit, h.buffer⟩
    rw [mod_succ positive, if_pos inside]
    exact h.count_succ inside

theorem Sending.finish (h : t.Sending byte k) (slow : 2 ≤ p.BIT_PERIOD)
    (inFrame : k / p.BIT_PERIOD < 10) (done : (k + 1) / p.BIT_PERIOD = 10) (i : TransmitIn) :
    t.risingClkEdge false i = reset p := by
  have positive : 0 < p.BIT_PERIOD := by omega
  have below := Nat.mod_lt k positive
  rw [div_succ positive] at done
  split at done
  · omega
  · have nine : t.bitCount = 9 := BitVec.eq_of_toNat_eq (h.bit.trans (by omega : k / p.BIT_PERIOD = 9))
    have last : t.clockCycleCount.toNat = p.BIT_PERIOD - 1 := by
      rw [h.count]
      omega
    simp only [risingClkEdge, h.busy, Bool.false_eq_true, if_false, if_true, if_pos last,
      UartTransmit.nextBit, nine, reset]

end UartTransmit

namespace UartReceiver

structure Resting (r : UartReceiver p) : Prop where
  idle : r.idle = true
  busy : r.busyIn = false
  index : r.bitIndex = 0
  count : r.clockCycleCount = 0
  check : r.checkStartBit = false
  buffer : r.dataOutBuffer = 0

/-- `j` cycles into the half bit before the start bit is checked. -/
structure Checking (j : Nat) (r : UartReceiver p) : Prop where
  idle : r.idle = false
  busy : r.busyIn = false
  index : r.bitIndex = 0
  count : r.clockCycleCount.toNat = j
  check : r.checkStartBit = false
  buffer : r.dataOutBuffer = 0
  silent : r.newDataOut = false

/-- `j` cycles after the check of the start bit, with the bits sampled since. -/
structure Sampling (byte : BitVec 8) (j : Nat) (r : UartReceiver p) : Prop where
  idle : r.idle = false
  busy : r.busyIn = true
  index : r.bitIndex.toNat = j / p.BIT_PERIOD
  count : r.clockCycleCount.toNat = j % p.BIT_PERIOD
  check : r.checkStartBit = true
  buffer : ∀ b, b < 8 → r.dataOutBuffer.getLsbD b = if b < j / p.BIT_PERIOD then byte.getLsbD b else false
  silent : r.newDataOut = false

variable {r : UartReceiver p} {byte : BitVec 8} {j : Nat}

theorem Resting.hold (h : r.Resting) :
    (r.risingClkEdge false true).Resting ∧ (r.risingClkEdge false true).newDataOut = false := by
  simp only [risingClkEdge, h.idle, Bool.false_eq_true, if_false, if_true, Bool.not_true]
  exact ⟨⟨rfl, h.busy, h.index, h.count, h.check, h.buffer⟩, trivial⟩

theorem Resting.fall (h : r.Resting) : (r.risingClkEdge false false).Checking 0 := by
  simp only [risingClkEdge, h.idle, Bool.false_eq_true, if_false, if_true, Bool.not_false]
  exact ⟨rfl, h.busy, h.index, by rw [h.count]; rfl, h.check, h.buffer, rfl⟩

theorem Checking.wait (h : r.Checking j) (before : j + 1 < p.BIT_PERIOD / 2) (wire : Bool) :
    (r.risingClkEdge false wire).Checking (j + 1) := by
  have fits := period_fits p
  have count : (r.clockCycleCount + 1).toNat = j + 1 := by
    rw [counter_succ _ fits (by rw [h.count]; omega), h.count]
  simp only [risingClkEdge, h.idle, h.check, Bool.false_eq_true, if_false, if_true, Bool.not_false]
  rw [if_neg (by rw [h.count]; omega)]
  exact ⟨rfl, h.busy, h.index, count, rfl, h.buffer, h.silent⟩

theorem Checking.confirm (h : r.Checking j) (last : j + 1 = p.BIT_PERIOD / 2) :
    (r.risingClkEdge false false).Sampling byte 0 := by
  simp only [risingClkEdge, h.idle, h.check, Bool.false_eq_true, if_false, if_true, Bool.not_false]
  rw [if_pos (by rw [h.count]; omega)]
  simp only [checkStart, Bool.not_false, if_true]
  refine ⟨h.idle, rfl, ?_, ?_, rfl, ?_, h.silent⟩
  · rw [h.index, Nat.zero_div]
    rfl
  · rw [Nat.zero_mod]
    rfl
  · intro b _
    rw [h.buffer, Nat.zero_div, if_neg (Nat.not_lt_zero b)]
    exact BitVec.getLsbD_zero

theorem Sampling.wait (h : r.Sampling byte j) (inside : j % p.BIT_PERIOD + 1 < p.BIT_PERIOD)
    (wire : Bool) : (r.risingClkEdge false wire).Sampling byte (j + 1) := by
  have positive : 0 < p.BIT_PERIOD := by omega
  have same : (j + 1) / p.BIT_PERIOD = j / p.BIT_PERIOD := by rw [div_succ positive, if_pos inside]
  have count : (r.clockCycleCount + 1).toNat = (j + 1) % p.BIT_PERIOD := by
    rw [counter_succ _ (period_fits p) (h.count ▸ inside), h.count, mod_succ positive, if_pos inside]
  simp only [risingClkEdge, h.idle, h.check, Bool.false_eq_true, if_false, Bool.not_true]
  rw [if_neg (by rw [h.count]; omega)]
  exact ⟨rfl, h.busy, same ▸ h.index, count, rfl, same ▸ h.buffer, h.silent⟩

theorem Sampling.data (h : r.Sampling byte j) (positive : 0 < p.BIT_PERIOD)
    (last : j % p.BIT_PERIOD + 1 = p.BIT_PERIOD) (bit : j / p.BIT_PERIOD < 8) :
    (r.risingClkEdge false (byte.getLsbD (j / p.BIT_PERIOD))).Sampling byte (j + 1) := by
  have next : (j + 1) / p.BIT_PERIOD = j / p.BIT_PERIOD + 1 := by
    rw [div_succ positive, if_neg (by omega)]
  have notStop : ¬r.bitIndex = 8 := by
    intro eight
    have := h.index
    rw [eight] at this
    change 8 = _ at this
    omega
  have index : (r.bitIndex + 1).toNat = j / p.BIT_PERIOD + 1 := by
    rw [counter_succ 9 (by decide) (by rw [h.index]; omega), h.index]
  simp only [risingClkEdge, h.idle, h.check, Bool.false_eq_true, if_false, Bool.not_true]
  rw [if_pos (by rw [h.count]; omega)]
  simp only [sample, h.busy, if_true, if_neg notStop, UartReceiver.data]
  refine ⟨h.idle, rfl, next ▸ index, ?_, h.check, ?_, h.silent⟩
  · rw [mod_succ positive, if_neg (by omega)]
    rfl
  · intro b hb
    rw [getLsbD_ofBits _ hb, next, h.index]
    split
    · rename_i here
      rw [here, if_pos (Nat.lt_succ_self _)]
    · rename_i other
      rw [h.buffer b hb]
      split
      · rw [if_pos (by omega)]
      · rw [if_neg (by omega)]

theorem Sampling.stop (h : r.Sampling byte j) (last : j % p.BIT_PERIOD + 1 = p.BIT_PERIOD)
    (bit : j / p.BIT_PERIOD = 8) :
    (r.risingClkEdge false true).Resting ∧ (r.risingClkEdge false true).newDataOut = true ∧
      (r.risingClkEdge false true).dataByteOut = byte := by
  have eight : r.bitIndex = 8 := BitVec.eq_of_toNat_eq (h.index.trans bit)
  have whole : r.dataOutBuffer = byte := by
    apply BitVec.eq_of_getLsbD_eq
    intro b hb
    rw [h.buffer b hb, bit, if_pos hb]
  simp only [risingClkEdge, h.idle, h.check, Bool.false_eq_true, if_false, Bool.not_true]
  rw [if_pos (by rw [h.count]; omega)]
  simp only [sample, h.busy, if_true, eight, UartReceiver.stop, whole]
  exact ⟨⟨rfl, rfl, rfl, rfl, rfl, rfl⟩, trivial, trivial⟩

/-- What the receiver is doing `k` cycles after the transmitter accepted `byte`. -/
inductive Hearing (byte : BitVec 8) (k : Nat) (r : UartReceiver p) : Prop
  | edge (age : k = 0) (rest : r.Resting) (silent : r.newDataOut = false)
  | start (j : Nat) (age : k = j + 1) (within : j + 1 ≤ p.BIT_PERIOD / 2) (check : r.Checking j)
  | bits (j : Nat) (age : k = p.BIT_PERIOD / 2 + 1 + j) (within : j / p.BIT_PERIOD < 9)
    (sampling : r.Sampling byte j)
  | shown (age : k = p.BIT_PERIOD / 2 + 1 + 9 * p.BIT_PERIOD) (rest : r.Resting)
    (new : r.newDataOut = true) (data : r.dataByteOut = byte)
  | passed (age : p.BIT_PERIOD / 2 + 1 + 9 * p.BIT_PERIOD < k) (rest : r.Resting)
    (silent : r.newDataOut = false)

theorem symbol_stop {s : Nat} (h : 9 ≤ s) : symbol byte s = true := by
  rw [symbol, if_neg (by omega), if_neg (by omega)]

theorem Hearing.step {k : Nat} (h : r.Hearing byte k) (slow : 2 ≤ p.BIT_PERIOD) :
    (r.risingClkEdge false (symbol byte (k / p.BIT_PERIOD))).Hearing byte (k + 1) := by
  have positive : 0 < p.BIT_PERIOD := by omega
  have stop {k : Nat} (late : 9 * p.BIT_PERIOD ≤ k) : symbol byte (k / p.BIT_PERIOD) = true :=
    symbol_stop ((Nat.le_div_iff_mul_le positive).mpr late)
  cases h with
  | edge age rest silent =>
    rw [age, Nat.zero_div]
    exact .start 0 rfl (by omega) rest.fall
  | start j age within check =>
    rw [Nat.div_eq_of_lt (by omega)]
    rcases Nat.lt_or_ge (j + 1) (p.BIT_PERIOD / 2) with before | last
    · exact .start (j + 1) (by omega) before (check.wait before _)
    · exact .bits 0 (by omega) (by rw [Nat.zero_div]; omega) (check.confirm (by omega))
  | bits j age within sampling =>
    have below := Nat.mod_lt j positive
    rcases Nat.lt_or_ge (j % p.BIT_PERIOD + 1) p.BIT_PERIOD with inside | last
    · refine .bits (j + 1) (by omega) ?_ (sampling.wait inside _)
      rw [div_succ positive, if_pos inside]
      exact within
    · have full : j + 1 = p.BIT_PERIOD * (j / p.BIT_PERIOD + 1) := by
        have split := Nat.div_add_mod j p.BIT_PERIOD
        rw [Nat.mul_add]
        omega
      have now : k / p.BIT_PERIOD = j / p.BIT_PERIOD + 1 := by
        rw [age, show p.BIT_PERIOD / 2 + 1 + j = p.BIT_PERIOD / 2 + (j + 1) by omega, full,
          Nat.add_mul_div_left _ _ positive, Nat.div_eq_of_lt (by omega), Nat.zero_add]
      rcases Nat.lt_or_ge (j / p.BIT_PERIOD) 8 with bit | final
      · have level : symbol byte (k / p.BIT_PERIOD) = byte.getLsbD (j / p.BIT_PERIOD) := by
          rw [now, symbol, if_neg (Nat.succ_ne_zero _), if_pos (by omega), Nat.add_sub_cancel]
        rw [level]
        refine .bits (j + 1) (by omega) ?_ (sampling.data positive (by omega) bit)
        rw [div_succ positive, if_neg (by omega)]
        omega
      · have eight : j / p.BIT_PERIOD = 8 := by omega
        rw [symbol_stop (by omega)]
        obtain ⟨rest, new, data⟩ := sampling.stop (by omega) eight
        rw [eight] at full
        exact .shown (by omega) rest new data
  | shown age rest new data =>
    rw [stop (by omega)]
    exact .passed (by omega) rest.hold.1 rest.hold.2
  | passed age rest silent =>
    rw [stop (by omega)]
    exact .passed (by omega) rest.hold.1 rest.hold.2

theorem Hearing.rest {k : Nat} (h : r.Hearing byte k) (slow : 2 ≤ p.BIT_PERIOD)
    (late : 10 ≤ k / p.BIT_PERIOD) : r.Resting := by
  have done := (Nat.le_div_iff_mul_le (by omega)).mp late
  cases h with
  | edge age _ _ => omega
  | start _ age within _ => omega
  | bits j age within _ =>
    have := (Nat.div_lt_iff_lt_mul (by omega)).mp within
    omega
  | shown _ rest _ _ => exact rest
  | passed _ rest _ => exact rest

theorem Hearing.new {k : Nat} (h : r.Hearing byte k) (slow : 2 ≤ p.BIT_PERIOD) :
    (if r.newDataOut then some r.dataByteOut else none) =
      if k = p.BIT_PERIOD / 2 + 1 + 9 * p.BIT_PERIOD then some byte else none := by
  cases h with
  | edge age _ silent => rw [silent, if_neg Bool.false_ne_true, if_neg (by omega)]
  | start _ age within check =>
    rw [check.silent, if_neg Bool.false_ne_true, if_neg (by omega)]
  | bits j age within sampling =>
    have bound := (Nat.div_lt_iff_lt_mul (by omega)).mp within
    rw [sampling.silent, if_neg Bool.false_ne_true, if_neg (by omega)]
  | shown age _ new data => rw [new, data, if_pos rfl, if_pos age]
  | passed age _ silent => rw [silent, if_neg Bool.false_ne_true, if_neg (by omega)]

end UartReceiver

namespace UartLoop

structure Quiet (m : UartLoop p) : Prop where
  transmit : m.transmit = .reset p
  rest : m.receiver.Resting
  silent : m.receiver.newDataOut = false

structure Linked (byte : BitVec 8) (k : Nat) (m : UartLoop p) : Prop where
  sending : k / p.BIT_PERIOD < 10 → m.transmit.Sending byte k
  sent : 10 ≤ k / p.BIT_PERIOD → m.transmit = .reset p
  hearing : m.receiver.Hearing byte k

variable {m : UartLoop p} {i : TransmitIn} {byte : BitVec 8} {k : Nat}

theorem Linked.wire (h : m.Linked byte k) :
    m.transmit.txWireOut = symbol byte (k / p.BIT_PERIOD) := by
  rcases Nat.lt_or_ge (k / p.BIT_PERIOD) 10 with during | after
  · exact (h.sending during).wire
  · rw [h.sent after, UartReceiver.symbol_stop (by omega)]
    rfl

theorem Linked.busy (h : m.Linked byte k) (during : k / p.BIT_PERIOD < 10) :
    accepted i m = none := by
  rw [accepted, (h.sending during).busy, Bool.not_true, Bool.and_false, if_neg Bool.false_ne_true]

theorem free_of_accepted (h : accepted i m = some byte) :
    i.triggerIn = true ∧ m.transmit.busyOut = false ∧ i.dataByteIn = byte := by
  rw [accepted, Option.ite_none_right_eq_some, Bool.and_eq_true, Bool.not_eq_true'] at h
  exact ⟨h.1.1, h.1.2, Option.some.inj h.2⟩

theorem linked_of_accepted (transmit : m.transmit = .reset p) (rest : m.receiver.Resting)
    (h : accepted i m = some byte) : (m.tick i).Linked byte 0 := by
  obtain ⟨trigger, -, rfl⟩ := free_of_accepted h
  have high : m.transmit.txWireOut = true := by rw [transmit]; rfl
  refine ⟨fun _ => ?_, fun late => ?_, ?_⟩
  · rw [tick, transmit]
    exact UartTransmit.sending_start trigger
  · rw [Nat.zero_div] at late
    omega
  · simp only [tick, high]
    exact .edge rfl rest.hold.1 rest.hold.2

theorem reset_hold (h : accepted i m = none) (transmit : m.transmit = .reset p) :
    m.transmit.risingClkEdge false i = .reset p := by
  have untriggered : i.triggerIn = false := by
    rw [accepted, transmit] at h
    cases htrigger : i.triggerIn with
    | false => rfl
    | true => simp [htrigger, UartTransmit.reset] at h
  rw [transmit]
  simp [UartTransmit.risingClkEdge, UartTransmit.reset, untriggered]

theorem Quiet.tick (h : m.Quiet) (none : accepted i m = none) : (m.tick i).Quiet := by
  have high : m.transmit.txWireOut = true := by rw [h.transmit]; rfl
  refine ⟨reset_hold none h.transmit, ?_, ?_⟩
  · simp only [UartLoop.tick, high]
    exact h.rest.hold.1
  · simp only [UartLoop.tick, high]
    exact h.rest.hold.2

theorem Linked.tick (h : m.Linked byte k) (slow : 2 ≤ p.BIT_PERIOD) (none : accepted i m = none) :
    (m.tick i).Linked byte (k + 1) := by
  have positive : 0 < p.BIT_PERIOD := by omega
  have hearing : (m.tick i).receiver.Hearing byte (k + 1) := by
    simp only [UartLoop.tick, h.wire]
    exact h.hearing.step slow
  rcases Nat.lt_or_ge (k / p.BIT_PERIOD) 10 with during | after
  · refine ⟨fun inFrame => (h.sending during).step slow inFrame i, fun done => ?_, hearing⟩
    have exact : (k + 1) / p.BIT_PERIOD = 10 := by
      have next := div_succ (n := k) positive
      split at next <;> omega
    exact (h.sending during).finish slow during exact i
  · have still : 10 ≤ (k + 1) / p.BIT_PERIOD :=
      Nat.le_trans after (Nat.div_le_div_right (Nat.le_succ k))
    exact ⟨fun inFrame => absurd still (Nat.not_le.mpr inFrame),
      fun _ => reset_hold none (h.sent after), hearing⟩

variable (p) in
def linkAt (inputs : Nat → TransmitIn) (n : Nat) : UartLoop p := trace tick inputs (reset p) n

/-- Cycles from the one after the acceptance to the one in which the byte is presented. -/
def latency (p : UartParams) : Nat := p.BIT_PERIOD / 2 + 1 + 9 * p.BIT_PERIOD

def Tracks (m : UartLoop p) : Option (BitVec 8 × Nat) → Prop
  | none => m.Quiet
  | some (byte, k) => m.Linked byte k

theorem quiet_reset : (reset p).Quiet := ⟨rfl, ⟨rfl, rfl, rfl, rfl, rfl, rfl⟩, rfl⟩

theorem Linked.idle (h : m.Linked byte k) {b : BitVec 8} (some : accepted i m = some b) :
    10 ≤ k / p.BIT_PERIOD := by
  by_contra during
  rw [h.busy (by omega)] at some
  cases some

theorem Tracks.accept {e : Option (BitVec 8 × Nat)} (h : m.Tracks e) (slow : 2 ≤ p.BIT_PERIOD)
    (some : accepted i m = some byte) : (m.tick i).Linked byte 0 := by
  cases e with
  | none => exact linked_of_accepted (Quiet.transmit h) (Quiet.rest h) some
  | some e =>
    have free := Linked.idle h some
    exact linked_of_accepted (Linked.sent h free) ((Linked.hearing h).rest slow free) some

theorem Tracks.tick {e : Option (BitVec 8 × Nat)} (h : m.Tracks e) (slow : 2 ≤ p.BIT_PERIOD)
    (none : accepted i m = none) : (m.tick i).Tracks (e.map fun e => (e.1, e.2 + 1)) := by
  cases e with
  | none => exact Quiet.tick h none
  | some e => exact Linked.tick h slow none

theorem tracks (slow : 2 ≤ p.BIT_PERIOD) (inputs : Nat → TransmitIn) (n : Nat) :
    (linkAt p inputs n).Tracks
      (lastEvent (fun n => accepted (inputs n) (linkAt p inputs n)) n) := by
  induction n with
  | zero => exact quiet_reset
  | succ n ih =>
    have next : linkAt p inputs (n + 1) = (linkAt p inputs n).tick (inputs n) := rfl
    rw [next]
    cases haccepted : accepted (inputs n) (linkAt p inputs n) with
    | some b =>
      rw [lastEvent_of_some haccepted]
      exact ih.accept slow haccepted
    | none =>
      rw [lastEvent_of_none haccepted]
      exact ih.tick slow haccepted

theorem reports (slow : 2 ≤ p.BIT_PERIOD) (inputs : Nat → TransmitIn) :
    Reports (fun n => accepted (inputs n) (linkAt p inputs n))
      (fun n => presented (inputs n) (linkAt p inputs n)) (latency p) := by
  intro n
  have tracked := tracks slow inputs n
  cases hlast : lastEvent (fun n => accepted (inputs n) (linkAt p inputs n)) n with
  | none =>
    have quiet : (linkAt p inputs n).Quiet := by rw [hlast] at tracked; exact tracked
    simp [presented, quiet.silent]
  | some e =>
    have linked : (linkAt p inputs n).Linked e.1 e.2 := by rw [hlast] at tracked; exact tracked
    exact linked.hearing.new slow

theorem spaced (slow : 2 ≤ p.BIT_PERIOD) (inputs : Nat → TransmitIn) :
    Spaced (fun n => accepted (inputs n) (linkAt p inputs n)) (latency p) := by
  intro a b ha j
  induction j using Nat.strong_induction_on with
  | _ j ih =>
    intro within
    have last := lastEvent_of_event (f := fun n => accepted (inputs n) (linkAt p inputs n)) ha
      fun i hi => ih i hi (Nat.lt_trans hi within)
    have tracked := tracks slow inputs (a + 1 + j)
    have linked : (linkAt p inputs (a + 1 + j)).Linked b j := by rw [last] at tracked; exact tracked
    refine linked.busy ((Nat.div_lt_iff_lt_mul (by omega)).mpr ?_)
    unfold latency at within
    omega

/-- The bytes presented, cycle by cycle, are the bytes accepted, each once and in order. -/
theorem uart_loopback (slow : 2 ≤ p.BIT_PERIOD) (inputs : Nat → TransmitIn) :
    (∀ n, events tick presented inputs (reset p) (n + 1 + latency p) =
      events tick accepted inputs (reset p) n) ∧
    ∀ n, (linkAt p inputs n).receiver.newDataOut = true →
      (linkAt p inputs (n + 1)).receiver.newDataOut = false := by
  refine ⟨(reports slow inputs).filterMap (spaced slow inputs), fun n high => ?_⟩
  have shown : presented (inputs n) (linkAt p inputs n) =
      some (linkAt p inputs n).receiver.dataByteOut := by rw [presented, if_pos high]
  have after := (reports slow inputs).pulse (by unfold latency; omega) shown
  cases low : (linkAt p inputs (n + 1)).receiver.newDataOut with
  | false => rfl
  | true => simp [presented, low] at after

def backToBack (n : Nat) : TransmitIn :=
  ⟨if n < 5 then 0x55 else 0xAA, true⟩

theorem uart_loopback_backToBack :
    events tick presented backToBack (reset ⟨2, 1⟩) (30 + 1 + latency ⟨2, 1⟩) =
      events tick accepted backToBack (reset ⟨2, 1⟩) 30 :=
  (uart_loopback (p := ⟨2, 1⟩) (by decide) backToBack).1 30

end UartLoop
end FpgaCraft.Hardware
