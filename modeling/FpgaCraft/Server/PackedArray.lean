import Mathlib.Data.List.Induction
import FpgaCraft.Library.Machine
import FpgaCraft.Library.Packed

/-! The packed arrays of a chunk (`feather/base/src/chunk/packed_array.rs`): memories of values
narrower than the words they are kept in. A failed assertion is `none`. -/
namespace FpgaCraft.Server
open Library

abbrev U64 := BitVec 64

namespace PackedArray

def valuesPerU64 (bitsPerValue : Nat) : Nat := 64 / bitsPerValue

def neededU64s (length bitsPerValue : Nat) : Nat :=
  (length + valuesPerU64 bitsPerValue - 1) / valuesPerU64 bitsPerValue

end PackedArray

/-- An array of integers of `bitsPerValue` bits each; words cannot be shifted by all of
their 64 bits. -/
@[ext] structure PackedArray where
  length : Nat
  bitsPerValue : Nat
  bits : List U64
  width : 0 < bitsPerValue ∧ bitsPerValue < 64
  filled : bits.length = PackedArray.neededU64s length bitsPerValue

namespace PackedArray

def new (length bitsPerValue : Nat) (width : 0 < bitsPerValue ∧ bitsPerValue < 64) :
    PackedArray where
  length := length
  bitsPerValue := bitsPerValue
  bits := List.replicate (neededU64s length bitsPerValue) 0
  width := width
  filled := List.length_replicate

def mask (self : PackedArray) : U64 := lowMask 64 self.bitsPerValue

def indexes (self : PackedArray) (index : Nat) : Nat × Nat :=
  (index / valuesPerU64 self.bitsPerValue,
    index % valuesPerU64 self.bitsPerValue * self.bitsPerValue)

def get (self : PackedArray) (index : Nat) : Option U64 :=
  if self.length ≤ index then none
  else self.bits[(self.indexes index).1]?.map fun u64 : U64 =>
    u64 >>> (self.indexes index).2 &&& self.mask

def set (self : PackedArray) (index : Nat) (value : U64) : Option PackedArray :=
  if index < self.length ∧ value ≤ self.mask then
    some { self with
      bits := self.bits.modify (self.indexes index).1 fun u64 =>
        u64 &&& ~~~(self.mask <<< (self.indexes index).2) ||| value <<< (self.indexes index).2
      filled := by rw [List.length_modify, self.filled] }
  else none

def fill (self : PackedArray) (value : U64) : Option PackedArray :=
  if value ≤ self.mask then
    some { self with
      bits := List.replicate self.bits.length
        ((List.range (valuesPerU64 self.bitsPerValue)).foldl
          (fun x i => x ||| value <<< (i * self.bitsPerValue)) 0)
      filled := by rw [List.length_replicate, self.filled] }
  else none

def iter (self : PackedArray) : List U64 :=
  (self.bits.flatMap fun u64 : U64 => (List.range (valuesPerU64 self.bitsPerValue)).map fun i =>
    u64 >>> (i * self.bitsPerValue) &&& self.mask).take self.length

structure Collecting where
  bits : List U64
  currentU64 : U64
  currentOffset : Nat
  length : Nat

def collect (bitsPerValue : Nat) (s : Collecting) (value : U64) : Collecting :=
  let current := s.currentU64 ||| value <<< s.currentOffset
  let offset := s.currentOffset + bitsPerValue
  if 64 - bitsPerValue < offset then ⟨s.bits ++ [current], 0, 0, s.length + 1⟩
  else ⟨s.bits, current, offset, s.length + 1⟩

def collected (bitsPerValue : Nat) (values : List U64) : Collecting :=
  values.foldl (collect bitsPerValue) ⟨[], 0, 0, 0⟩

def Collecting.finish (s : Collecting) : List U64 :=
  if s.currentOffset ≠ 0 then s.bits ++ [s.currentU64] else s.bits

section Collect
variable {w : Nat} (width : 0 < w ∧ w < 64)

theorem valuesPerU64_pos (width : 0 < w ∧ w < 64) : 0 < valuesPerU64 w :=
  Nat.div_pos (by omega) width.1

theorem room {i : Nat} (hi : i < valuesPerU64 w) : i * w + w ≤ 64 := by
  rw [← Nat.succ_mul]
  exact (Nat.mul_le_mul_right w hi).trans (Nat.div_mul_le_self 64 w)

theorem neededU64s_eq (pos : 0 < valuesPerU64 w) {k r : Nat} (hr : r < valuesPerU64 w) :
    neededU64s (valuesPerU64 w * k + r) w = if r = 0 then k else k + 1 := by
  rw [neededU64s, Nat.add_assoc, Nat.add_sub_assoc (by omega), Nat.mul_add_div pos]
  split
  · rw [Nat.div_eq_of_lt (by omega), Nat.add_zero]
  · have carry : r + valuesPerU64 w - 1 = r - 1 + valuesPerU64 w := by omega
    rw [carry, Nat.add_div_right _ pos, Nat.div_eq_of_lt (by omega)]

theorem full_iff (width : 0 < w ∧ w < 64) {r : Nat} (hr : r < valuesPerU64 w) :
    64 - w < r * w + w ↔ r + 1 = valuesPerU64 w := by
  have next : r + 1 < valuesPerU64 w ↔ (r + 1 + 1) * w ≤ 64 := Nat.le_div_iff_mul_le width.1
  rw [Nat.succ_mul, Nat.succ_mul] at next
  omega

/-- The loop after the values `vs`, its last word holding `r` of them. -/
structure Collects (w : Nat) (s : Collecting) (vs : List U64) (r : Nat) : Prop where
  begun : r < valuesPerU64 w
  offset : s.currentOffset = r * w
  length : s.length = vs.length
  size : vs.length = valuesPerU64 w * s.bits.length + r
  values : (∀ v ∈ vs, v ≤ lowMask 64 w) →
    ∃ tail, Begun w r s.currentU64 tail ∧ fields w (valuesPerU64 w) s.bits ++ tail = vs

theorem Collects.step {s : Collecting} {vs : List U64} {r : Nat} (width : 0 < w ∧ w < 64)
    (h : Collects w s vs r) (v : U64) : ∃ r', Collects w (collect w s v) (vs ++ [v]) r' := by
  have grown (fits : ∀ u ∈ vs ++ [v], u ≤ lowMask 64 w) : ∃ tail,
      Begun w (r + 1) (s.currentU64 ||| v <<< s.currentOffset) tail ∧
        fields w (valuesPerU64 w) s.bits ++ tail = vs ++ [v] := by
    obtain ⟨tail, begun, values⟩ := h.values fun u hu => fits u (List.mem_append_left _ hu)
    refine ⟨tail ++ [v], ?_, ?_⟩
    · rw [h.offset]
      exact begun.push width.2 (room h.begun) (fits v (by simp))
    · rw [← List.append_assoc, values]
  have full := full_iff width h.begun
  have size := h.size
  rw [← h.offset] at full
  by_cases hfull : r + 1 = valuesPerU64 w
  · refine ⟨0, valuesPerU64_pos width, ?_, ?_, ?_, ?_⟩
    all_goals simp only [collect, if_pos (full.mpr hfull)]
    · simp
    · simp [h.length]
    · simp only [List.length_append, List.length_singleton, Nat.mul_add]
      omega
    · intro fits
      obtain ⟨tail, begun, values⟩ := grown fits
      refine ⟨[], .zero, ?_⟩
      rw [fields_concat, ← hfull, begun.values, hfull, List.append_nil, values]
  · refine ⟨r + 1, ?_, ?_, ?_, ?_, ?_⟩
    all_goals try simp only [collect, if_neg (mt full.mp hfull)]
    · have := h.begun
      omega
    · rw [h.offset, Nat.succ_mul]
    · simp [h.length]
    · simp only [List.length_append, List.length_singleton]
      omega
    · exact grown

theorem exists_collects (width : 0 < w ∧ w < 64) (vs : List U64) :
    ∃ r, Collects w (collected w vs) vs r := by
  induction vs using List.reverseRecOn with
  | nil =>
    refine ⟨0, valuesPerU64_pos width, (Nat.zero_mul w).symm, rfl, rfl, ?_⟩
    intro _
    exact ⟨[], .zero, rfl⟩
  | append_singleton vs v ih =>
    obtain ⟨r, h⟩ := ih
    simp only [collected, List.foldl_append, List.foldl_cons, List.foldl_nil]
    exact h.step width v

theorem length_finish (width : 0 < w ∧ w < 64) (vs : List U64) :
    (collected w vs).finish.length = neededU64s (collected w vs).length w := by
  obtain ⟨r, h⟩ := exists_collects width vs
  rw [h.length, h.size, neededU64s_eq (valuesPerU64_pos width) h.begun, Collecting.finish, h.offset]
  by_cases hr : r = 0
  · simp [hr]
  · have := width.1
    simp [hr, this.ne']

theorem take_fields_finish (width : 0 < w ∧ w < 64) {vs : List U64}
    (fits : ∀ v ∈ vs, v ≤ lowMask 64 w) :
    (fields w (valuesPerU64 w) (collected w vs).finish).take (collected w vs).length = vs := by
  obtain ⟨r, h⟩ := exists_collects width vs
  obtain ⟨tail, begun, values⟩ := h.values fits
  rw [h.length, h.size, Collecting.finish, h.offset]
  by_cases hr : r = 0
  · subst hr
    have empty : tail = [] := by simp [← begun.values]
    rw [empty, List.append_nil] at values
    rw [if_neg (by simp), List.take_of_length_le (by simp)]
    exact values
  · have := width.1
    rw [if_pos (by simp [hr, this.ne']), begun.take_fields h.begun.le, values]

end Collect

def fromIter (iter : List U64) (bitsPerValue : Nat) (width : 0 < bitsPerValue ∧ bitsPerValue < 64) :
    Option PackedArray :=
  -- the assertion on every value is a debug assertion
  if iter.all fun value => decide (value < 1#64 <<< bitsPerValue) then
    some {
      length := (collected bitsPerValue iter).length
      bitsPerValue := bitsPerValue
      bits := (collected bitsPerValue iter).finish
      width := width
      filled := length_finish width iter }
  else none

def resized (self : PackedArray) (newBitsPerValue : Nat)
    (width : 0 < newBitsPerValue ∧ newBitsPerValue < 64) : Option PackedArray :=
  fromIter self.iter newBitsPerValue width

section Laws
variable (self : PackedArray)

theorem iter_eq : self.iter =
    (fields self.bitsPerValue (valuesPerU64 self.bitsPerValue) self.bits).take self.length := rfl

theorem length_le : self.length ≤ valuesPerU64 self.bitsPerValue * self.bits.length := by
  have pos := valuesPerU64_pos self.width
  have below := Nat.lt_div_mul_add (a := self.length + valuesPerU64 self.bitsPerValue - 1) pos
  rw [self.filled, neededU64s, Nat.mul_comm]
  omega

@[simp] theorem length_iter : self.iter.length = self.length := by
  rw [iter_eq, List.length_take, length_fields, Nat.min_eq_left self.length_le]

theorem get_eq (index : Nat) : self.get index = self.iter[index]? := by
  rw [iter_eq, List.getElem?_take, getElem?_fields _ (valuesPerU64_pos self.width)]
  by_cases h : index < self.length
  · rw [get, if_neg (Nat.not_le.mpr h), if_pos h]
    rfl
  · rw [get, if_pos (Nat.le_of_not_lt h), if_neg h]

theorem le_mask_iff (value : U64) : value ≤ self.mask ↔ value.toNat < 2 ^ self.bitsPerValue :=
  le_lowMask_iff_lt self.width.2 value

theorem iter_new (length : Nat) {w : Nat} (width : 0 < w ∧ w < 64) :
    (new length w width).iter = List.replicate length 0 := by
  have enough := (new length w width).length_le
  simp only [new, List.length_replicate] at enough
  simp only [iter_eq, new]
  rw [fields_replicate _ _ 0 0 (fun i _ => field_zero i), List.take_replicate, Nat.min_eq_left enough]

theorem iter_modify (index : Nat) {value : U64} (fits : value ≤ self.mask)
    (filled : (self.bits.modify (self.indexes index).1
      (setField self.bitsPerValue (index % valuesPerU64 self.bitsPerValue) value)).length =
        neededU64s self.length self.bitsPerValue) :
    PackedArray.iter ⟨self.length, self.bitsPerValue, _, self.width, filled⟩ =
      self.iter.set index value := by
  have room : valuesPerU64 self.bitsPerValue * self.bitsPerValue ≤ 64 := Nat.div_mul_le_self _ _
  simp only [iter_eq, indexes]
  rw [fields_set _ self.width.2 (valuesPerU64_pos self.width) room fits, List.take_set]

end Laws

/-- The array as what it is for: a width and a row of values. -/
@[ext] structure Row where
  width : Nat
  values : List U64

def view (self : PackedArray) : Row := ⟨self.bitsPerValue, self.iter⟩

inductive Call where
  | set (index : Nat) (value : U64)
  | fill (value : U64)
  | resized (newBitsPerValue : Nat) (width : 0 < newBitsPerValue ∧ newBitsPerValue < 64)

def call : Call → PackedArray → Option PackedArray
  | .set index value, self => self.set index value
  | .fill value, self => self.fill value
  | .resized newBitsPerValue width, self => self.resized newBitsPerValue width

def Row.call : Call → Row → Option Row
  | .set index value, row =>
    if index < row.values.length ∧ value.toNat < 2 ^ row.width then
      some { row with values := row.values.set index value }
    else none
  | .fill value, row =>
    if value.toNat < 2 ^ row.width then
      some { row with values := List.replicate row.values.length value }
    else none
  | .resized newBitsPerValue _, row =>
    if ∀ value ∈ row.values, value.toNat < 2 ^ newBitsPerValue then
      some { row with width := newBitsPerValue }
    else none

theorem view_set (self : PackedArray) (index : Nat) (value : U64) :
    (self.set index value).map view = Row.call (.set index value) self.view := by
  simp only [set, Row.call, view, length_iter, ← le_mask_iff]
  split
  · rename_i h
    simp only [Option.map_some, Option.some.injEq]
    ext1
    · rfl
    · exact self.iter_modify index h.2 _
  · rfl

theorem begun_fill {w : Nat} (width : 0 < w ∧ w < 64) {value : U64} (fits : value ≤ lowMask 64 w)
    {r : Nat} (hr : r ≤ valuesPerU64 w) :
    Begun w r ((List.range r).foldl (fun x i => x ||| value <<< (i * w)) 0)
      (List.replicate r value) := by
  induction r with
  | zero => exact .zero
  | succ r ih =>
    rw [List.range_succ, List.foldl_append, List.replicate_succ']
    exact (ih (by omega)).push width.2 (room hr) fits

theorem view_fill (self : PackedArray) (value : U64) :
    (self.fill value).map view = Row.call (.fill value) self.view := by
  simp only [fill, Row.call, view, length_iter, ← le_mask_iff]
  split
  · rename_i fits
    have word := (begun_fill self.width fits le_rfl).values
    have enough := self.length_le
    simp only [Option.map_some, Option.some.injEq]
    ext1
    · rfl
    · simp only [view, iter_eq]
      rw [fields_replicate _ _ value, List.take_replicate, Nat.min_eq_left enough]
      intro i hi
      simpa [hi] using congrArg (fun values => values[i]?) word
  · rfl

theorem fits_iff {w : Nat} (width : 0 < w ∧ w < 64) (values : List U64) :
    (values.all fun value => decide (value < 1#64 <<< w)) = true ↔
      ∀ value ∈ values, value.toNat < 2 ^ w := by
  have size : 2 ^ w < 2 ^ 64 := Nat.pow_lt_pow_right (by decide) width.2
  have one : (1#64 <<< w).toNat = 2 ^ w := by
    simpa [BitVec.toNat_shiftLeft, Nat.one_shiftLeft] using size
  simp only [List.all_eq_true, decide_eq_true_eq, BitVec.lt_def, one]

theorem view_fromIter {w : Nat} (width : 0 < w ∧ w < 64) (values : List U64) :
    (fromIter values w width).map view =
      if ∀ value ∈ values, value.toNat < 2 ^ w then some ⟨w, values⟩ else none := by
  simp only [fromIter, fits_iff width]
  split
  · rename_i fits
    simp only [Option.map_some, Option.some.injEq]
    ext1
    · rfl
    · apply take_fields_finish width
      intro value hvalue
      exact (le_lowMask_iff_lt width.2 value).mpr (fits value hvalue)
  · rfl

theorem view_call (c : Call) (self : PackedArray) : (call c self).map view = Row.call c self.view := by
  cases c with
  | set index value => exact self.view_set index value
  | fill value => exact self.view_fill value
  | resized newBitsPerValue width => exact view_fromIter width self.iter

section Exists
variable {self : PackedArray}

theorem exists_set {index : Nat} {value : U64} (bound : index < self.length)
    (fits : value.toNat < 2 ^ self.bitsPerValue) : ∃ self', self.set index value = some self' ∧
      self'.view = ⟨self.bitsPerValue, self.iter.set index value⟩ := by
  have h := self.view_set index value
  rw [Row.call, if_pos (by simpa [view] using ⟨bound, fits⟩), Option.map_eq_some_iff] at h
  exact h

theorem exists_fill {value : U64} (fits : value.toNat < 2 ^ self.bitsPerValue) :
    ∃ self', self.fill value = some self' ∧
      self'.view = ⟨self.bitsPerValue, List.replicate self.length value⟩ := by
  have h := self.view_fill value
  rw [Row.call, if_pos (by simpa [view] using fits), Option.map_eq_some_iff] at h
  simpa [view] using h

theorem toNat_lt_of_mem {value : U64} (h : value ∈ self.iter) :
    value.toNat < 2 ^ self.bitsPerValue := by
  rw [iter_eq] at h
  obtain ⟨x, -, hx⟩ := List.mem_flatMap.mp (List.mem_of_mem_take h)
  obtain ⟨i, -, rfl⟩ := List.mem_map.mp hx
  rw [← le_lowMask_iff_lt self.width.2, le_lowMask_iff self.width.2]
  intro j hj
  simp [getLsbD_field self.width.2, Nat.not_lt.mpr hj]

theorem exists_resized {w : Nat} (width : 0 < w ∧ w < 64) (wider : self.bitsPerValue ≤ w) :
    ∃ self', self.resized w width = some self' ∧ self'.view = ⟨w, self.iter⟩ := by
  have h := view_fromIter width self.iter
  rw [if_pos, Option.map_eq_some_iff] at h
  · exact h
  · intro value hvalue
    exact (toNat_lt_of_mem hvalue).trans_le (Nat.pow_le_pow_right (by decide) wider)

theorem length_of_view {self' : PackedArray} {w : Nat} {values : List U64}
    (h : self'.view = ⟨w, values⟩) : self'.length = values.length := by
  have values : self'.iter = values := congrArg Row.values h
  rw [← length_iter, values]

theorem exists_replaced {f : U64 → Option U64} {g : U64 → U64}
    (hf : ∀ value ∈ self.iter, f value = some (g value) ∧ (g value).toNat < 2 ^ self.bitsPerValue)
    {m : Nat} (hm : m ≤ self.length) :
    ∃ self', (List.range m).foldlM (fun array i =>
        (array.get i).bind fun value => (f value).bind (array.set i)) self = some self' ∧
      self'.view = ⟨self.bitsPerValue, (self.iter.take m).map g ++ self.iter.drop m⟩ := by
  induction m with
  | zero => exact ⟨self, rfl, by simp [view]⟩
  | succ m ih =>
    obtain ⟨before, hbefore, hview⟩ := ih (by omega)
    have bound : m < self.iter.length := by
      rw [length_iter]
      omega
    have width : before.bitsPerValue = self.bitsPerValue := congrArg Row.width hview
    have iter : before.iter = (self.iter.take m).map g ++ self.iter.drop m := congrArg Row.values hview
    obtain ⟨hvalue, fits⟩ := hf self.iter[m] (List.getElem_mem bound)
    have room : m < before.length := by
      rw [length_of_view hview]
      simp
      omega
    rw [← width] at fits
    obtain ⟨after, hset, hafter⟩ := exists_set room fits
    refine ⟨after, ?_, ?_⟩
    · rw [List.range_succ, List.foldlM_append, hbefore]
      have old : before.get m = some self.iter[m] := by
        rw [get_eq, iter, List.getElem?_append_right (by simp), List.length_map, List.length_take,
          Nat.min_eq_left bound.le, Nat.sub_self, List.getElem?_drop, Nat.add_zero,
          List.getElem?_eq_getElem bound]
      simp [old, hvalue, hset]
    · rw [hafter, width, iter]
      congr 1
      rw [List.set_append_right _ _ (by simp), List.length_map, List.length_take,
        Nat.min_eq_left bound.le, Nat.sub_self, List.drop_eq_getElem_cons bound, List.set_cons_zero,
        List.take_succ_eq_append_getElem bound, List.map_append, List.append_assoc]
      rfl

end Exists

def reads (self : PackedArray) : Nat × List U64 × (Nat → Option U64) :=
  (self.bitsPerValue, self.iter, self.get)

/-- In every run a packed array reads as its row of values, and panics where the row does. -/
theorem reads_run (length w : Nat) (width : 0 < w ∧ w < 64) (calls : List Call) :
    (run call calls (new length w width)).map reads =
      (run Row.call calls ⟨w, List.replicate length 0⟩).map fun row =>
        (row.width, row.values, fun index => row.values[index]?) := by
  have start : (new length w width).view = ⟨w, List.replicate length 0⟩ := by
    ext1
    · rfl
    · exact iter_new length width
  rw [← start, ← run_map view_call, Option.map_map]
  congr 1
  funext self
  simp only [reads, Function.comp_apply, view]
  congr 2
  funext index
  exact self.get_eq index

/-- The array of the unit tests, whose values are `0, 10, .., 990`. -/
theorem reads_run_smoke :
    (run call ((List.range 100).map fun i => .set i (BitVec.ofNat 64 (i * 10)))
        (new 100 10 (by decide))).map reads =
      (run Row.call ((List.range 100).map fun i => .set i (BitVec.ofNat 64 (i * 10)))
        ⟨10, List.replicate 100 0⟩).map fun row =>
          (row.width, row.values, fun index => row.values[index]?) :=
  reads_run 100 10 (by decide) _

end PackedArray
end FpgaCraft.Server
