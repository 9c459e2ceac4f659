import Mathlib.Data.List.Basic
import Mathlib.Data.Nat.Bitwise
import Mathlib.Tactic.Ring

/-! Words that hold several values of one width each, from the low bits up, and rows of such
words. Every law is read off the bits. -/
namespace FpgaCraft.Library
variable {n w : Nat}

def lowMask (n w : Nat) : BitVec n := 1#n <<< w - 1#n

def field (w i : Nat) (x : BitVec n) : BitVec n := x >>> (i * w) &&& lowMask n w

def setField (w i : Nat) (v x : BitVec n) : BitVec n :=
  x &&& ~~~(lowMask n w <<< (i * w)) ||| v <<< (i * w)

theorem toNat_lowMask (h : w < n) : (lowMask n w).toNat = 2 ^ w - 1 := by
  have size : 2 ^ w < 2 ^ n := Nat.pow_lt_pow_right (by decide) h
  have one : 1 % 2 ^ n = 1 := Nat.mod_eq_of_lt (Nat.one_lt_two_pow (by omega))
  have pos : 0 < 2 ^ w := Nat.two_pow_pos w
  simp only [lowMask, BitVec.toNat_sub, BitVec.toNat_shiftLeft, BitVec.toNat_ofNat, one,
    Nat.one_shiftLeft]
  rw [Nat.mod_eq_of_lt size]
  have carry : 2 ^ n - 1 + 2 ^ w = 2 ^ n + (2 ^ w - 1) := by omega
  rw [carry, Nat.add_mod_left, Nat.mod_eq_of_lt (by omega)]

theorem getLsbD_lowMask (h : w < n) (j : Nat) : (lowMask n w).getLsbD j = decide (j < w) := by
  rw [BitVec.getLsbD, toNat_lowMask h, Nat.testBit_two_pow_sub_one]

theorem le_lowMask_iff_lt (h : w < n) (v : BitVec n) : v ≤ lowMask n w ↔ v.toNat < 2 ^ w := by
  have pos := Nat.two_pow_pos w
  rw [BitVec.le_def, toNat_lowMask h]
  omega

/-- A value fits a field if the mask bounds it, that is if its higher bits are zero. -/
theorem le_lowMask_iff (h : w < n) (v : BitVec n) :
    v ≤ lowMask n w ↔ ∀ j, w ≤ j → v.getLsbD j = false := by
  rw [le_lowMask_iff_lt h]
  constructor
  · intro bound j hj
    apply Nat.testBit_lt_two_pow
    exact bound.trans_le (Nat.pow_le_pow_right (by decide) hj)
  · exact Nat.lt_pow_two_of_testBit _

theorem getLsbD_field (h : w < n) (i j : Nat) (x : BitVec n) :
    (field w i x).getLsbD j = (x.getLsbD (i * w + j) && decide (j < w)) := by
  simp [field, getLsbD_lowMask h]

theorem getLsbD_setField (h : w < n) (i j : Nat) (v x : BitVec n) :
    (setField w i v x).getLsbD j =
      (x.getLsbD j && !(decide (j < n) && decide (i * w ≤ j) && decide (j - i * w < w)) ||
        decide (j < n) && decide (i * w ≤ j) && v.getLsbD (j - i * w)) := by
  simp only [setField, BitVec.getLsbD_or, BitVec.getLsbD_and, BitVec.getLsbD_not,
    BitVec.getLsbD_shiftLeft, getLsbD_lowMask h]
  by_cases hj : j < n
  · by_cases below : i * w ≤ j
    · simp [hj, below, Nat.not_lt.mpr below]
    · simp [hj, below, Nat.lt_of_not_le below]
  · simp [hj, BitVec.getLsbD_of_ge x j (by omega)]

theorem field_setField_self (h : w < n) {i : Nat} (room : i * w + w ≤ n) {v : BitVec n}
    (fits : v ≤ lowMask n w) (x : BitVec n) : field w i (setField w i v x) = v := by
  apply BitVec.eq_of_getLsbD_eq
  intro j _
  rw [getLsbD_field h, getLsbD_setField h]
  by_cases hj : j < w
  · have inside : i * w + j < n := by omega
    simp [hj, inside]
  · simp [hj, (le_lowMask_iff h v).mp fits j (by omega)]

theorem field_apart {i k j : Nat} (hik : i ≠ k) (hj : j < w) (below : i * w ≤ k * w + j) :
    w ≤ k * w + j - i * w := by
  rcases Nat.lt_or_gt_of_ne hik with hlt | hgt
  · have := Nat.mul_le_mul_right w hlt
    rw [Nat.succ_mul] at this
    omega
  · have := Nat.mul_le_mul_right w hgt
    rw [Nat.succ_mul] at this
    omega

theorem field_setField_ne (h : w < n) {i k : Nat} (hik : i ≠ k) {v : BitVec n}
    (fits : v ≤ lowMask n w) (x : BitVec n) : field w k (setField w i v x) = field w k x := by
  apply BitVec.eq_of_getLsbD_eq
  intro j _
  rw [getLsbD_field h, getLsbD_field h, getLsbD_setField h]
  by_cases hj : j < w
  · by_cases below : i * w ≤ k * w + j
    · have apart := field_apart hik hj below
      simp [(le_lowMask_iff h v).mp fits _ apart, Nat.not_lt.mpr apart]
    · simp [below]
  · simp [hj]

@[simp] theorem field_zero (i : Nat) : field w i 0#n = 0#n := by
  simp [field]

theorem or_shiftLeft_eq_setField (h : w < n) {i : Nat} {x : BitVec n} (v : BitVec n)
    (low : ∀ j, i * w ≤ j → x.getLsbD j = false) : x ||| v <<< (i * w) = setField w i v x := by
  apply BitVec.eq_of_getLsbD_eq
  intro j hj
  rw [getLsbD_setField h, BitVec.getLsbD_or, BitVec.getLsbD_shiftLeft]
  by_cases below : i * w ≤ j
  · simp [low j below, below, Nat.not_lt.mpr below]
  · simp [below]

theorem low_setField (h : w < n) {i : Nat} {v x : BitVec n} (fits : v ≤ lowMask n w)
    (low : ∀ j, i * w ≤ j → x.getLsbD j = false) (j : Nat) (hj : (i + 1) * w ≤ j) :
    (setField w i v x).getLsbD j = false := by
  have above : w ≤ j - i * w := by
    rw [Nat.succ_mul] at hj
    omega
  rw [getLsbD_setField h, low j (by rw [Nat.succ_mul] at hj; omega),
    (le_lowMask_iff h v).mp fits _ above]
  simp

section Rows
variable (w) (k : Nat)

def fields (words : List (BitVec n)) : List (BitVec n) :=
  words.flatMap fun x => (List.range k).map fun i => field w i x

@[simp] theorem length_fields (words : List (BitVec n)) :
    (fields w k words).length = k * words.length := by
  simp [fields, List.length_flatMap, Nat.mul_comm]

variable {k}

theorem getElem?_fields (pos : 0 < k) (words : List (BitVec n)) (i : Nat) :
    (fields w k words)[i]? = words[i / k]?.map (field w (i % k)) := by
  induction words generalizing i with
  | nil => simp [fields]
  | cons x words ih =>
    have split : fields w k (x :: words) =
        ((List.range k).map fun i => field w i x) ++ fields w k words := by
      simp [fields]
    rw [split, List.getElem?_append]
    by_cases hi : i < k
    · simp [hi, Nat.div_eq_of_lt hi, Nat.mod_eq_of_lt hi]
    · have next : i / k = (i - k) / k + 1 := by
        rw [← Nat.add_div_right _ pos, Nat.sub_add_cancel (by omega)]
      have same : i % k = (i - k) % k := (Nat.mod_eq_sub_mod (by omega))
      simp only [List.length_map, List.length_range, hi, if_false, ih, next, same,
        List.getElem?_cons_succ]

theorem fields_set (h : w < n) (pos : 0 < k) (room : k * w ≤ n) {v : BitVec n}
    (fits : v ≤ lowMask n w) (words : List (BitVec n)) (i : Nat) :
    fields w k (words.modify (i / k) (setField w (i % k) v)) = (fields w k words).set i v := by
  apply List.ext_getElem?
  intro j
  have inside : i % k * w + w ≤ n := by
    have := Nat.mul_le_mul_right w (Nat.mod_lt i pos)
    rw [Nat.succ_mul] at this
    omega
  rw [getElem?_fields w pos, List.getElem?_set, List.getElem?_modify, getElem?_fields w pos]
  by_cases hij : i = j
  · subst hij
    have bound : i < k * words.length ↔ i / k < words.length := by
      rw [Nat.div_lt_iff_lt_mul pos, Nat.mul_comm]
    by_cases hi : i / k < words.length
    · simp [hi, bound.mpr hi, field_setField_self h inside fits]
    · simp [hi, mt bound.mp hi]
  · by_cases word : i / k = j / k
    · have other : i % k ≠ j % k := by
        intro same
        apply hij
        rw [← Nat.div_add_mod i k, ← Nat.div_add_mod j k, word, same]
      simp only [if_neg hij, word, if_true, Option.map_eq_map, Option.map_map]
      congr 1
      funext x
      exact field_setField_ne h other fits x
    · simp [hij, word]

@[simp] theorem fields_concat (words : List (BitVec n)) (x : BitVec n) :
    fields w k (words ++ [x]) = fields w k words ++ (List.range k).map fun i => field w i x := by
  simp [fields]

theorem fields_replicate (m : Nat) (v x : BitVec n) (hx : ∀ i < k, field w i x = v) :
    fields w k (List.replicate m x) = List.replicate (k * m) v := by
  have word : ((List.range k).map fun i => field w i x) = List.replicate k v := by
    apply List.eq_replicate_iff.mpr
    simpa using hx
  simp [fields, List.flatMap_replicate, word, Nat.mul_comm]

end Rows

section Begun
variable {r : Nat} {x : BitVec n} {vs : List (BitVec n)}

/-- A word that is being filled: its first `r` values, and no bit above them. -/
structure Begun (w r : Nat) (x : BitVec n) (vs : List (BitVec n)) : Prop where
  values : ((List.range r).map fun i => field w i x) = vs
  rest : ∀ j, r * w ≤ j → x.getLsbD j = false

theorem Begun.zero : Begun w 0 0#n [] := ⟨rfl, by simp⟩

theorem Begun.push (begun : Begun w r x vs) (h : w < n) (room : r * w + w ≤ n) {v : BitVec n}
    (fits : v ≤ lowMask n w) : Begun w (r + 1) (x ||| v <<< (r * w)) (vs ++ [v]) := by
  rw [or_shiftLeft_eq_setField h v begun.rest]
  constructor
  · rw [List.range_succ, List.map_append, ← begun.values]
    congr 1
    · apply List.map_congr_left
      intro i hi
      exact field_setField_ne h (List.mem_range.mp hi).ne' fits x
    · simp [field_setField_self h room fits]
  · exact low_setField h fits begun.rest

theorem Begun.take_fields (begun : Begun w r x vs) {k : Nat} (hr : r ≤ k) (words : List (BitVec n)) :
    (fields w k (words ++ [x])).take (k * words.length + r) = fields w k words ++ vs := by
  rw [fields_concat, List.take_append, length_fields, List.take_of_length_le (by simp),
    Nat.add_sub_cancel_left, ← List.map_take, List.take_range, Nat.min_eq_left hr, begun.values]

end Begun
end FpgaCraft.Library
