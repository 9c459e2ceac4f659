import Mathlib.Logic.Function.Basic

/-! A memory that stores on every edge, at a latched address and from a data register that
is one edge late. The word of the last write is stored only if its address stays. -/
namespace FpgaCraft.Library

structure PostedWrite (κ α : Type*) where
  memory : κ → α
  address : κ
  data : α

namespace PostedWrite
variable {κ α : Type*} [DecidableEq κ] (p : PostedWrite κ α) (a : κ) (d : α)

def edge (address : Option κ) (data : Option α) : PostedWrite κ α where
  memory := Function.update p.memory (address.getD p.address) p.data
  address := address.getD p.address
  data := data.getD p.data

def settled : κ → α := Function.update p.memory p.address p.data

@[simp] theorem settled_address : p.settled p.address = p.data := Function.update_self _ _ _

@[simp] theorem memory_edge_idle : (p.edge none none).memory = p.settled := rfl

@[simp] theorem settled_edge_idle : (p.edge none none).settled = p.settled :=
  Function.update_idem _ _ _

theorem settled_edge_write : (p.edge (some a) (some d)).settled = Function.update p.memory a d :=
  Function.update_idem _ _ _

theorem settled_edge_data :
    (p.edge none (some d)).settled = Function.update p.settled p.address d := rfl

theorem settled_edge_write_iff :
    (p.edge (some a) (some d)).settled = Function.update p.settled a d ↔
      p.address = a ∨ p.memory p.address = p.data := by
  rw [settled_edge_write]
  constructor
  · intro h
    by_cases same : p.address = a
    · exact .inl same
    · have here := congrFun h p.address
      rw [Function.update_of_ne same, Function.update_of_ne same, settled_address] at here
      exact .inr here
  · rintro (rfl | stored)
    · exact (Function.update_idem _ _ _).symm
    · rw [settled, ← stored, Function.update_eq_self]

theorem settled_edge_data_iff :
    (p.edge none (some d)).settled = Function.update p.settled a d ↔
      p.address = a ∨ (p.data = d ∧ p.settled a = d) := by
  rw [settled_edge_data]
  constructor
  · intro h
    by_cases same : p.address = a
    · exact .inl same
    · have there := congrFun h p.address
      have here := congrFun h a
      rw [Function.update_self, Function.update_of_ne same, settled_address] at there
      rw [Function.update_self, Function.update_of_ne (Ne.symm same)] at here
      exact .inr ⟨there.symm, here⟩
  · rintro (rfl | ⟨rfl, there⟩)
    · rfl
    · rw [← settled_address, Function.update_eq_self, settled_address, ← there,
        Function.update_eq_self]

theorem stored_edge_idle : (p.edge none none).memory (p.edge none none).address =
    (p.edge none none).data := settled_address p

end PostedWrite
end FpgaCraft.Library
