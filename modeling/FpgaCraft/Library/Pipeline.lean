import Mathlib.Data.Fin.Basic
import FpgaCraft.Library.Machine

/-! Pipelines: machines whose output is a function of the input a fixed number of cycles
earlier, whatever the inputs in between. A register adds a cycle, stages in a row add their
delays, and paths side by side may be joined where their delays are equal. -/
namespace FpgaCraft.Library

section Composition
variable {σ τ ι α β γ : Type*} {step : ι → σ → σ} {a b delay : Nat}

def Pipelines (step : ι → σ → σ) (out : σ → α) (f : ι → α) (delay : Nat) : Prop :=
  ∀ (input : Nat → ι) (s : σ) (n : Nat), out (trace step input s (n + delay)) = f (input n)

theorem pipelines_latch {out : σ → α} {f : ι → α} (latch : ∀ i s, out (step i s) = f i) :
    Pipelines step out f 1 := by
  intro input s n
  exact latch (input n) (trace step input s n)

theorem Pipelines.map {out : σ → α} {f : ι → α} (h : Pipelines step out f delay) (g : α → β) :
    Pipelines step (fun s => g (out s)) (fun i => g (f i)) delay := by
  intro input s n
  exact congrArg g (h input s n)

theorem Pipelines.pair {out : σ → α} {out' : σ → β} {f : ι → α} {f' : ι → β}
    (h : Pipelines step out f delay) (h' : Pipelines step out' f' delay) :
    Pipelines step (fun s => (out s, out' s)) (fun i => (f i, f' i)) delay := by
  intro input s n
  exact Prod.ext (h input s n) (h' input s n)

theorem Pipelines.register {out : σ → α} {out' : σ → β} {f : ι → α} (h : Pipelines step out f delay)
    (g : α → β) (latch : ∀ i s, out' (step i s) = g (out s)) :
    Pipelines step out' (fun i => g (f i)) (delay + 1) := by
  intro input s n
  rw [← Nat.add_assoc, trace_succ, latch, h]

theorem Pipelines.feed {step' : β → τ → τ} {wire : σ → β} {out : τ → γ} {f : ι → β} {g : β → γ}
    (h : Pipelines step wire f a) (h' : Pipelines step' out g b) (part : σ → τ)
    (commutes : ∀ i s, part (step i s) = step' (wire s) (part s)) :
    Pipelines step (fun s => out (part s)) (fun i => g (f i)) (a + b) := by
  intro input s n
  have runs := trace_component part (fun _ => wire) commutes input s (n + (a + b))
  simp only [runs]
  rw [← Nat.add_assoc, h', h]

end Composition

section Pipe
variable {α : Type*} {delay : Nat}

/-- A shift of `delay` registers, all clocked at once. -/
def pipeEdge (ident : α) (pipe : Fin delay → α) : Fin delay → α := fun i =>
  if first : i.val = 0 then ident else pipe ⟨i.val - 1, by omega⟩

theorem pipelines_tap {i : Nat} (inside : i < delay) :
    Pipelines (pipeEdge (α := α)) (fun pipe : Fin delay → α => pipe ⟨i, inside⟩) id (i + 1) := by
  induction i with
  | zero =>
    apply pipelines_latch
    intro ident pipe
    simp [pipeEdge]
  | succ i ih =>
    apply (ih (Nat.lt_of_succ_lt inside)).register id
    intro ident pipe
    simp [pipeEdge]

theorem pipelines_pipe (positive : 0 < delay) :
    Pipelines (pipeEdge (α := α))
      (fun pipe : Fin delay → α => pipe ⟨delay - 1, Nat.sub_one_lt_of_lt positive⟩) id delay := by
  have last := pipelines_tap (α := α) (Nat.sub_one_lt_of_lt positive)
  rwa [Nat.sub_add_cancel positive] at last

end Pipe
end FpgaCraft.Library
