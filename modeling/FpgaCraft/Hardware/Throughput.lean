import FpgaCraft.Hardware.Vec3
import FpgaCraft.Library.Pipeline

/-! ## The pipelined functions take a new operand in every cycle

The vector delay line and the inverse square root of the normaliser are paths of the same
delay, so the two operands of the last multiplication belong to one input. -/
namespace FpgaCraft.Hardware
open Library

namespace InvSqrt

theorem pipelines : Pipelines risingClkEdge (fun s => s.iter11) invSqrt 4 := by
  have input : Pipelines risingClkEdge (fun s => s.inPipe0) id 1 := pipelines_latch fun _ _ => rfl
  have table : Pipelines risingClkEdge (fun s => (s.inPipe1, s.iter00)) (fun m => (m, lut m)) 2 :=
    input.register (fun m => (m, lut m)) fun _ _ => rfl
  have newton : Pipelines risingClkEdge (fun s => (s.iter01, s.iter10))
      (fun m => (lut m, fmul (fmul (lut m) (lut m)) (m >>> 1))) 3 :=
    table.register (fun p => (p.2, fmul (fmul p.2 p.2) (p.1 >>> 1))) fun _ _ => rfl
  exact newton.register (fun p => fmul p.1 (fsub FIXED_1_5 p.2)) fun _ _ => rfl

end InvSqrt

namespace Normalize

def inPipe (self : Normalize) : Fin 4 → Vec3
  | 0 => self.inPipe1
  | 1 => self.inPipe2
  | 2 => self.inPipe3
  | 3 => self.inPipe4

theorem inPipe_risingClkEdge (i : Vec3) (self : Normalize) :
    (self.risingClkEdge i).inPipe = pipeEdge self.inPipe0 self.inPipe := by
  funext k
  match k with
  | 0 => rfl
  | 1 => rfl
  | 2 => rfl
  | 3 => rfl

theorem pipelines_input : Pipelines risingClkEdge (fun s => s.inPipe0) id 1 :=
  pipelines_latch fun _ _ => rfl

theorem pipelines_inPipe4 : Pipelines risingClkEdge (fun s => s.inPipe4) id 5 :=
  pipelines_input.feed (pipelines_pipe (show 0 < 4 by decide)) inPipe inPipe_risingClkEdge

theorem pipelines_invSqrt :
    Pipelines risingClkEdge (fun s => s.invSqrt.iter11) (fun v => Hardware.invSqrt (vdot v v)) 5 := by
  have magnitude : Pipelines risingClkEdge (fun s => vdot s.inPipe0 s.inPipe0) (fun v => vdot v v) 1 :=
    pipelines_input.map fun v => vdot v v
  exact magnitude.feed InvSqrt.pipelines Normalize.invSqrt fun _ _ => rfl

/-- Both operands of the last stage belong to the same input, whatever is in the pipeline
before and behind it. -/
theorem throughput_one (input : Nat → Vec3) (s : Normalize) (n : Nat) :
    (trace risingClkEdge input s (n + 5)).inPipe4 = input n ∧
      (trace risingClkEdge input s (n + 5)).invSqrt.iter11 = Hardware.invSqrt (vdot (input n) (input n)) ∧
      (trace risingClkEdge input s (n + 6)).out =
        vmul (input n) (Hardware.invSqrt (vdot (input n) (input n))) := by
  have joined : Pipelines risingClkEdge (fun s => s.out)
      (fun v => vmul v (Hardware.invSqrt (vdot v v))) 6 :=
    (pipelines_inPipe4.pair pipelines_invSqrt).register (fun p => vmul p.1 p.2) fun _ _ => rfl
  exact ⟨pipelines_inPipe4 input s n, pipelines_invSqrt input s n, joined input s n⟩

end Normalize
end FpgaCraft.Hardware
