import FpgaCraft.Library.Bits

/-! Line codes: the edges of a word, and the chain that gives a word few of them. -/
namespace FpgaCraft.Library
variable {w : Nat}

def edges (x : BitVec w) : Nat := (List.range (w - 1)).countP fun i => x.getLsbD i ^^ x.getLsbD (i + 1)

theorem edges_cons (b : Bool) (x : BitVec (w + 1)) :
    edges (BitVec.cons b x) = (x.getLsbD w ^^ b).toNat + edges x := by
  simp only [edges, Nat.add_sub_cancel, List.range_succ, List.countP_append, List.countP_singleton,
    BitVec.getLsbD_cons]
  have tail : (List.range w).countP (fun i => (if i = w + 1 then b else x.getLsbD i) ^^
      (if i + 1 = w + 1 then b else x.getLsbD (i + 1))) =
        (List.range w).countP fun i => x.getLsbD i ^^ x.getLsbD (i + 1) := by
    apply List.countP_congr
    intro i hi
    have below := List.mem_range.mp hi
    rw [if_neg (by omega), if_neg (by omega)]
  rw [tail, Nat.add_comm, if_neg (Nat.ne_of_lt w.lt_succ_self), if_true]
  cases x.getLsbD w ^^ b <;> rfl

theorem edges_not (x : BitVec w) : edges (~~~x) = edges x := by
  apply List.countP_congr
  intro i hi
  have below := List.mem_range.mp hi
  simp [show i < w by omega, show i + 1 < w by omega]

/-- Bit `i` of the chain of a word: every bit tells whether the chain changes there. -/
def chainBit (negate : Bool) (data : BitVec w) : Nat → Bool
  | 0 => data.getLsbD 0
  | i + 1 => data.getLsbD (i + 1) ^^ chainBit negate data i ^^ negate

def chain (negate : Bool) (data : BitVec w) : BitVec w := ofBits (chainBit negate data) w

def unchainBit (negate : Bool) (word : BitVec w) : Nat → Bool
  | 0 => word.getLsbD 0
  | i + 1 => word.getLsbD (i + 1) ^^ word.getLsbD i ^^ negate

def unchain (negate : Bool) (word : BitVec w) : BitVec w := ofBits (unchainBit negate word) w

variable (negate : Bool) (data : BitVec w)

theorem getLsbD_chain {i : Nat} (h : i < w) : (chain negate data).getLsbD i = chainBit negate data i :=
  getLsbD_ofBits _ h

theorem unchain_chain : unchain negate (chain negate data) = data := by
  apply BitVec.eq_of_getLsbD_eq
  intro i hi
  rw [unchain, getLsbD_ofBits _ hi]
  cases i with
  | zero => rw [unchainBit, getLsbD_chain negate data hi, chainBit]
  | succ i =>
    rw [unchainBit, getLsbD_chain negate data hi, getLsbD_chain negate data (by omega), chainBit]
    cases data.getLsbD (i + 1) <;> cases chainBit negate data i <;> cases negate <;> rfl

/-- The chain has an edge for every one after the first bit, the negated chain for every zero. -/
theorem edges_chain (data : BitVec (w + 1)) :
    edges (chain negate data) + (data.getLsbD 0 ^^ negate).toNat =
      if negate then zeros data else ones data := by
  have edge (i : Nat) (h : i < w) :
      ((chain negate data).getLsbD i ^^ (chain negate data).getLsbD (i + 1)) =
        (data.getLsbD (i + 1) ^^ negate) := by
    rw [getLsbD_chain negate data (by omega), getLsbD_chain negate data (by omega), chainBit]
    cases data.getLsbD (i + 1) <;> cases chainBit negate data i <;> cases negate <;> rfl
  have tail : edges (chain negate data) =
      (List.range w).countP fun i => data.getLsbD (i + 1) ^^ negate := by
    apply List.countP_congr
    intro i hi
    rw [edge i (List.mem_range.mp hi)]
  have whole : (List.range (w + 1)).countP (fun i => data.getLsbD i ^^ negate) =
      (data.getLsbD 0 ^^ negate).toNat + (List.range w).countP fun i => data.getLsbD (i + 1) ^^ negate := by
    rw [List.range_succ_eq_map, List.countP_cons, List.countP_map, Nat.add_comm]
    congr 1
    cases data.getLsbD 0 ^^ negate <;> rfl
  rw [tail, Nat.add_comm, ← whole]
  cases negate with
  | true =>
    simp only [Bool.xor_true, if_true]
    rfl
  | false =>
    simp only [Bool.xor_false, Bool.false_eq_true, if_false]
    rfl

end FpgaCraft.Library
