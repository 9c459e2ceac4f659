import Mathlib.Data.List.Perm.Subperm
import Mathlib.Data.List.Range

/-! First fit: a row of cells that are in use or free, marked by ranges, and the search for the
first free ones in a row. -/
namespace FpgaCraft.Library

/-- `for i in cells: used[i] = b`. An index out of bounds panics. -/
def mark (b : Bool) : List Nat → List Bool → Option (List Bool)
  | [], used => some used
  | i :: cells, used => if i < used.length then mark b cells (used.set i b) else none

/-- Looks for `size` free cells in a row from cell `index` on, the last `length` of those before
it being free from `start` on. -/
def search (size : Nat) : List Bool → Nat → Nat → Nat → Option (Nat × Nat)
  | [], _, _, _ => none
  | true :: used, index, _, _ => search size used (index + 1) 0 0
  | false :: used, index, start, length =>
    let start := if start = 0 then index else start
    if size ≤ length + 1 then some (start, length + 1)
    else search size used (index + 1) start (length + 1)

def FreeAt (used : List Bool) (start length : Nat) : Prop :=
  ∀ i, start ≤ i → i < start + length → used[i]? = some false

theorem exists_mark {b : Bool} {cells : List Nat} {used : List Bool}
    (inside : ∀ i ∈ cells, i < used.length) :
    ∃ used', mark b cells used = some used' ∧ used'.length = used.length ∧
      ∀ i, used'[i]? = if i ∈ cells then some b else used[i]? := by
  induction cells generalizing used with
  | nil => exact ⟨used, rfl, rfl, fun i => by simp⟩
  | cons j cells ih =>
    have hj := inside j List.mem_cons_self
    obtain ⟨used', hmark, length, cell⟩ := @ih (used.set j b) fun i hi => by
      rw [List.length_set]
      exact inside i (List.mem_cons_of_mem _ hi)
    refine ⟨used', by rw [mark, if_pos hj, hmark], by rw [length, List.length_set], fun i => ?_⟩
    rw [cell, List.getElem?_set]
    by_cases same : j = i
    · subst same
      simp [hj]
    · simp [same, Ne.symm same]

/-- The search state: the free cells counted end before the next one. -/
structure Counted (full : List Bool) (index start length : Nat) : Prop where
  free : FreeAt full start length
  ends : 0 < length → start + length = index
  positive : 0 < length → start ≠ 0
  none : length = 0 → start = 0

theorem counted_zero (full : List Bool) (index : Nat) : Counted full index 0 0 :=
  ⟨fun i _ below => absurd below (Nat.not_lt_zero i), fun h => absurd h (Nat.lt_irrefl 0),
    fun h => absurd h (Nat.lt_irrefl 0), fun _ => rfl⟩

theorem Counted.free_cell {full : List Bool} {index start length : Nat}
    (h : Counted full index start length) (cell : full[index]? = some false) (first : index ≠ 0) :
    Counted full (index + 1) (if start = 0 then index else start) (length + 1) := by
  rcases Nat.eq_zero_or_pos length with rfl | some
  · rw [if_pos (h.none rfl)]
    refine ⟨fun i above below => ?_, fun _ => rfl, fun _ => first, fun h => absurd h (Nat.succ_ne_zero 0)⟩
    obtain rfl : i = index := by omega
    exact cell
  · have ends := h.ends some
    rw [if_neg (h.positive some)]
    refine ⟨fun i above below => ?_, fun _ => by omega, fun _ => h.positive some,
      fun h => absurd h (Nat.succ_ne_zero length)⟩
    by_cases last : i = index
    · rw [last, cell]
    · exact h.free i above (by omega)

/-- What is found are `size` free cells. Cell 0 is in use, so that a start of 0 means none. -/
theorem search_sound {size : Nat} {full rest : List Bool} {index start length first found : Nat}
    (suffix : ∀ i, rest[i]? = full[index + i]?) (used : full[0]? = some true)
    (h : Counted full index start length) (short : length < size)
    (hsearch : search size rest index start length = some (first, found)) :
    found = size ∧ FreeAt full first size ∧ first ≠ 0 := by
  induction rest generalizing index start length with
  | nil => cases hsearch
  | cons cell rest ih =>
    have suffix' (i : Nat) : rest[i]? = full[index + 1 + i]? := by
      rw [Nat.add_assoc, Nat.add_comm 1 i, ← suffix (i + 1), List.getElem?_cons_succ]
    have here : full[index]? = some cell := (suffix 0).symm
    cases cell with
    | true => exact ih suffix' (counted_zero full (index + 1)) (by omega) hsearch
    | false =>
      have later : index ≠ 0 := by
        rintro rfl
        rw [used] at here
        cases here
      have next := h.free_cell here later
      rw [search] at hsearch
      split at hsearch
      · simp only [Option.some.injEq, Prod.mk.injEq] at hsearch
        obtain ⟨rfl, rfl⟩ := hsearch
        obtain rfl : size = length + 1 := by omega
        exact ⟨rfl, next.free, next.positive (Nat.succ_pos length)⟩
      · exact ih suffix' next (by omega) hsearch

/-- Where enough free cells lie behind the index or among those counted, the search ends there at
the latest. -/
theorem exists_search {size : Nat} {full rest : List Bool} {index start length first : Nat}
    (suffix : ∀ i, rest[i]? = full[index + i]?) (used : full[0]? = some true)
    (h : Counted full index start length) (free : FreeAt full first size) (positive : 0 < size)
    (before : index < first + size) (reach : index ≤ first ∨ 0 < length ∧ start ≤ first) :
    ∃ found, search size rest index start length = some found ∧ found.1 ≤ first := by
  induction rest generalizing index start length with
  | nil =>
    have last := free (first + size - 1) (by omega) (by omega)
    have beyond := suffix (first + size - 1 - index)
    rw [Nat.add_sub_cancel' (by omega), last] at beyond
    cases beyond
  | cons cell rest ih =>
    have suffix' (i : Nat) : rest[i]? = full[index + 1 + i]? := by
      rw [Nat.add_assoc, Nat.add_comm 1 i, ← suffix (i + 1), List.getElem?_cons_succ]
    have here : full[index]? = some cell := (suffix 0).symm
    cases cell with
    | true =>
      have early : index < first := by
        by_contra late
        have clash := free index (by omega) before
        rw [here] at clash
        cases clash
      exact ih suffix' (counted_zero full (index + 1)) (by omega) (.inl early)
    | false =>
      have later : index ≠ 0 := by
        rintro rfl
        rw [used] at here
        cases here
      have next := h.free_cell here later
      have ends := next.ends (Nat.succ_pos length)
      have reach' : index + 1 ≤ first ∨ (if start = 0 then index else start) ≤ first := by
        rcases reach with early | ⟨counted, below⟩
        · by_cases same : index = first
          · right
            rcases Nat.eq_zero_or_pos length with rfl | counted
            · rw [if_pos (h.none rfl)]
              exact early
            · rw [if_neg (h.positive counted)]
              have := h.ends counted
              omega
          · left
            omega
        · right
          rw [if_neg (h.positive counted)]
          exact below
      rw [search]
      split
      · refine ⟨_, rfl, ?_⟩
        dsimp only
        omega
      · apply ih suffix' next
        · omega
        · exact reach'.imp id fun below => ⟨Nat.succ_pos length, below⟩

theorem not_freeAt_of_search {size : Nat} {used : List Bool} (first : used[0]? = some true)
    (positive : 0 < size) (start : Nat)
    (h : ∀ found, search size used 0 0 0 = some found → start < found.1) : ¬FreeAt used start size := by
  intro free
  obtain ⟨found, hfound, early⟩ := exists_search (fun i => by rw [Nat.zero_add]) first
    (counted_zero used 0) free positive (by omega) (.inl (Nat.zero_le start))
  exact absurd early (Nat.not_le.mpr (h found hfound))

theorem FreeAt.inside {used : List Bool} {start length : Nat} (h : FreeAt used start length)
    (positive : 0 < length) : start + length ≤ used.length := by
  have last := h (start + length - 1) (by omega) (by omega)
  have := (List.getElem?_eq_some_iff.mp last).1
  omega

theorem exists_used_before {used : List Bool} (first : used[0]? = some true) {i : Nat}
    (h : used[i]? = some false) :
    ∃ j, j < i ∧ used[j]? = some true ∧ FreeAt used (j + 1) (i - j) := by
  induction i with
  | zero =>
    rw [first] at h
    cases h
  | succ i ih =>
    have inside := (List.getElem?_eq_some_iff.mp h).1
    have last (k : Nat) (above : i + 1 ≤ k) (below : k < i + 1 + 1) : used[k]? = some false := by
      obtain rfl : k = i + 1 := by omega
      exact h
    cases hi : used[i]? with
    | none =>
      have := List.getElem?_eq_none_iff.mp hi
      omega
    | some cell =>
      cases cell with
      | true =>
        refine ⟨i, i.lt_succ_self, hi, fun k above below => last k above (by omega)⟩
      | false =>
        obtain ⟨j, before, hj, free⟩ := ih hi
        refine ⟨j, by omega, hj, fun k above below => ?_⟩
        by_cases same : k = i + 1
        · exact last k (by omega) (by omega)
        · exact free k above (by omega)

theorem length_flatMap_le {α β : Type*} {f : α → List β} {most : Nat} {as : List α}
    (few : ∀ a ∈ as, (f a).length ≤ most) : (as.flatMap f).length ≤ as.length * most := by
  induction as with
  | nil => exact Nat.zero_le _
  | cons a as ih =>
    have head := few a List.mem_cons_self
    have tail := ih fun b hb => few b (List.mem_cons_of_mem a hb)
    rw [List.flatMap_cons, List.length_append, List.length_cons, Nat.add_one_mul]
    omega

/-- Where no `size` free cells in a row end before a cell, the blocks in use bound it. -/
theorem le_of_not_freeAt {size last most : Nat} {used : List Bool} (blocks : List (Nat × Nat))
    (first : used[0]? = some true)
    (covered : ∀ i, used[i]? = some true → ∃ block ∈ blocks, block.1 ≤ i ∧ i < block.1 + block.2)
    (few : ∀ block ∈ blocks, block.2 + size ≤ most) (inside : last ≤ used.length)
    (packed : ∀ start, start + size ≤ last → ¬FreeAt used start size) : last ≤ blocks.length * most := by
  have near (i : Nat) (h : i < last) :
      ∃ block ∈ blocks, i ∈ List.range' block.1 (block.2 + size) := by
    simp only [List.mem_range'_1]
    obtain ⟨cell, hcell⟩ : ∃ cell, used[i]? = some cell :=
      ⟨_, List.getElem?_eq_getElem (h.trans_le inside)⟩
    cases cell with
    | true =>
      obtain ⟨block, mem, above, below⟩ := covered i hcell
      exact ⟨block, mem, above, by omega⟩
    | false =>
      obtain ⟨j, before, hj, free⟩ := exists_used_before first hcell
      obtain ⟨block, mem, above, below⟩ := covered j hj
      have short : i - j ≤ size := by
        by_contra long
        exact packed (j + 1) (by omega) fun k hk hk' => free k hk (by omega)
      exact ⟨block, mem, by omega, by omega⟩
  have inside : List.range last ⊆ blocks.flatMap fun block => List.range' block.1 (block.2 + size) := by
    intro i hi
    rw [List.mem_flatMap]
    exact near i (List.mem_range.mp hi)
  calc last = (List.range last).length := List.length_range.symm
    _ ≤ (blocks.flatMap fun block => List.range' block.1 (block.2 + size)).length :=
      (List.subperm_of_subset List.nodup_range inside).length_le
    _ ≤ blocks.length * most := length_flatMap_le fun block hb => by
      rw [List.length_range']
      exact few block hb

end FpgaCraft.Library
