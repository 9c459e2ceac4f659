import Mathlib.Data.Int.ConditionallyCompleteOrder
import FpgaCraft.Library.GridWalk
import FpgaCraft.Software.Setup

/-! ## How far a walk drifts off its ray

An axis that steps every `delta` instead of every `65536 / |c|` gets ahead of the ray or falls
behind it. All is in raw units here: a voxel is 256 wide. -/
namespace FpgaCraft.Software
open Library

/-- The time of the next step along an axis, after `k` of them. -/
def axisClock (first delta : Fin 3 → Int) (i : Fin 3) (k : Nat) : Int := first i + k * delta i

/-- The axes of a new ray: its direction `c`, the distance `u` to the first boundary, the time
`delta` from one to the next, and the time of the first. -/
structure Lanes (c u delta first : Fin 3 → Int) : Prop where
  dist : ∀ i, 0 ≤ u i ∧ u i ≤ 256
  short : ∀ i, |c i| ≤ 256
  paced : ∀ i, Paced (c i) (delta i)
  moving : ∀ i, c i ≠ 0 → first i = delta i * u i / 256
  still : ∀ i, c i = 0 → first i = 524287
  long : 226 ≤ |c 0| + |c 1| + |c 2|
  main : ∃ i, 131 ≤ |c i|

/-- The walk is at most a voxel past the point that the ray has to reach for the step. -/
def bandLower (u : Fin 3 → Int) (k : Fin 3 → Nat) (i : Fin 3) : Int := 256 * k i + u i - 512

def bandUpper (u : Fin 3 → Int) (k : Fin 3 → Nat) (i : Fin 3) : Int := 256 * k i + u i + 256

def Roomy (c u : Fin 3 → Int) (k : Fin 3 → Nat) : Prop :=
  ∀ i j, bandLower u k i * |c j| ≤ bandUpper u k j * |c i|

/-! ### Two axes -/

theorem room_of_times {ci cj di dj a b : Int} (hi : 1 ≤ ci) (hi' : ci ≤ 256) (hj : 0 ≤ cj)
    (hj' : cj ≤ 256) (ha : 0 ≤ a) (hb : 0 ≤ b) (hb' : b ≤ 28416) (slow : 65536 ≤ di * (ci + 2))
    (fast : dj * cj ≤ 66024) (order : di * a ≤ dj * b + 255) (early : di * a ≤ 8388863) :
    (a - 256) * cj ≤ (b + 256) * ci := by
  have product : 65536 * (a * cj) ≤ 66024 * (ci * b) + 255 * (ci * cj) + 16777726 * cj :=
    calc 65536 * (a * cj) ≤ di * (ci + 2) * (a * cj) :=
          mul_le_mul_of_nonneg_right slow (mul_nonneg ha hj)
      _ = ci * cj * (di * a) + 2 * cj * (di * a) := by ring
      _ ≤ ci * cj * (dj * b + 255) + 2 * cj * 8388863 :=
          add_le_add (mul_le_mul_of_nonneg_left order (mul_nonneg (by omega) hj))
            (mul_le_mul_of_nonneg_left early (by omega))
      _ = dj * cj * (ci * b) + 255 * (ci * cj) + 16777726 * cj := by ring
      _ ≤ 66024 * (ci * b) + 255 * (ci * cj) + 16777726 * cj := by
          have := mul_le_mul_of_nonneg_right fast (mul_nonneg (show 0 ≤ ci by omega) hb)
          omega
  have reach : ci * b ≤ ci * 28416 := mul_le_mul_of_nonneg_left hb' (by omega)
  have width : ci * cj ≤ ci * 256 := mul_le_mul_of_nonneg_left hj' (by omega)
  rw [sub_mul, add_mul, mul_comm b]
  omega

theorem no_room_of_times {cb cm db dm ub a : Int} (hu : 0 ≤ ub) (hb : 0 ≤ cb) (hb' : cb ≤ 7)
    (hasty : db * cb ≤ 28672) (positive : 0 < dm) (main : 28672 ≤ dm * cm)
    (apart : 28672 * 512 + 1785 + 3584 * dm < 256 * (dm * cm))
    (order : dm * a ≤ db * (ub + 512) + 255) : (a + 512) * cb < (256 + ub) * cm := by
  have product : dm * ((a + 512) * cb) < dm * ((256 + ub) * cm) :=
    calc dm * ((a + 512) * cb) = dm * a * cb + 512 * (dm * cb) := by ring
      _ ≤ (db * (ub + 512) + 255) * cb + 512 * (dm * cb) :=
          add_le_add_left (mul_le_mul_of_nonneg_right order hb) _
      _ = db * cb * (ub + 512) + 255 * cb + 512 * (dm * cb) := by ring
      _ ≤ 28672 * (ub + 512) + 255 * 7 + 512 * (dm * 7) := by
          have := mul_le_mul_of_nonneg_right hasty (show 0 ≤ ub + 512 by omega)
          have := mul_le_mul_of_nonneg_left hb' positive.le
          omega
      _ < 256 * (dm * cm) + dm * cm * ub := by
          have := mul_le_mul_of_nonneg_right main hu
          omega
      _ = dm * ((256 + ub) * cm) := by ring
  exact lt_of_mul_lt_mul_left product positive.le

/-! ### The clocks -/

namespace Lanes
variable {c u delta first : Fin 3 → Int} {n : Nat} {k : Fin 3 → Nat} {i j : Fin 3}

theorem delta_nonneg (h : Lanes c u delta first) (i : Fin 3) : 0 ≤ delta i := by
  by_cases still : c i = 0
  · exact ((h.paced i).still still).ge
  · exact le_trans (by norm_num) ((h.paced i).range still).1

theorem mono (h : Lanes c u delta first) (i : Fin 3) : Monotone (axisClock first delta i) := by
  intro k l hkl
  have := mul_le_mul_of_nonneg_right (Int.ofNat_le.mpr hkl) (h.delta_nonneg i)
  unfold axisClock
  omega

theorem clock_bounds (h : Lanes c u delta first) (moves : c i ≠ 0) (k : Nat) :
    delta i * (256 * k + u i) ≤ 256 * axisClock first delta i k + 255 ∧
      256 * axisClock first delta i k ≤ delta i * (256 * k + u i) := by
  have hfirst := h.moving i moves
  have hsplit : delta i * (256 * k + u i) = 256 * (k * delta i) + delta i * u i := by ring
  unfold axisClock
  omega

theorem first_le (h : Lanes c u delta first) (moves : c i ≠ 0) (k : Nat) :
    axisClock first delta i k ≤ (k + 1) * delta i := by
  have upper := (h.clock_bounds moves k).2
  have := mul_le_mul_of_nonneg_left (h.dist i).2 (h.delta_nonneg i)
  have hsplit : delta i * (256 * k + u i) = 256 * (k * delta i) + delta i * u i := by ring
  rw [add_mul, one_mul]
  omega

/-- The longest component keeps the axes that have none from ever being stepped along. -/
theorem stays (h : Lanes c u delta first) (counts : Counts (axisClock first delta) n k)
    (hn : n ≤ 111) (still : c i = 0) : k i = 0 := by
  by_contra moved
  obtain ⟨m, long⟩ := h.main
  have moves : c m ≠ 0 := fun zero => by rw [zero, abs_zero] at long; omega
  have order := counts.passed h.mono (Nat.pos_of_ne_zero moved) m
  have bound := h.first_le moves (k m)
  have few := counts.le m
  have steps : ((k m : Int) + 1) * delta m ≤ 112 * 600 :=
    mul_le_mul (by omega) ((h.paced m).main long).1 (h.delta_nonneg m) (by norm_num)
  have hfirst := h.still i still
  have hdelta := (h.paced i).still still
  unfold axisClock at order bound
  rw [hfirst, hdelta, mul_zero] at order
  omega

/-- Within 110 steps the time does not pass 32768: by then the axes together would have been
stepped along more often. -/
theorem early (h : Lanes c u delta first) (good : ∀ i, ¬Hasty (c i))
    (counts : Counts (axisClock first delta) n k) (hn : n ≤ 110) (moved : 0 < k i) :
    axisClock first delta i (k i - 1) ≤ 32768 := by
  by_contra late
  have often (j : Fin 3) (l : Nat) (after : 32768 < axisClock first delta j l) :
      32768 * |c j| ≤ (l + 1) * 66024 := by
    by_cases still : c j = 0
    · rw [still, abs_zero, mul_zero]
      positivity
    · have bound := h.first_le still l
      calc 32768 * |c j| ≤ (l + 1) * delta j * |c j| :=
            mul_le_mul_of_nonneg_right (by omega) (abs_nonneg _)
        _ = (l + 1) * (delta j * |c j|) := by ring
        _ ≤ (l + 1) * 66024 :=
            mul_le_mul_of_nonneg_left ((h.paced j).exact still (good j)).1 (by positivity)
  have after (j : Fin 3) :
      32768 < axisClock first delta j (Function.update k i (k i - 1) j) := by
    by_cases hij : j = i
    · rw [hij, Function.update_self]
      exact not_le.mp late
    · rw [Function.update_of_ne hij]
      exact lt_of_lt_of_le (not_le.mp late) (counts.passed h.mono moved j)
  have total := sum_update k i (k i - 1)
  rw [counts.sum_eq, Fin.sum_univ_three] at total
  have := often 0 _ (after 0)
  have := often 1 _ (after 1)
  have := often 2 _ (after 2)
  have := h.long
  omega

theorem roomy (h : Lanes c u delta first) (good : ∀ i, ¬Hasty (c i))
    (counts : Counts (axisClock first delta) n k) (hn : n ≤ 110) : Roomy c u k := by
  intro i j
  unfold bandLower bandUpper
  have hui := h.dist i
  have huj := h.dist j
  have upper : 0 ≤ 256 * (k j : Int) + u j + 256 := by omega
  rcases Nat.eq_zero_or_pos (k i) with unmoved | moved
  · have below : (256 * (k i : Int) + u i - 512) * |c j| ≤ 0 :=
      mul_nonpos_of_nonpos_of_nonneg (by omega) (abs_nonneg _)
    exact below.trans (mul_nonneg upper (abs_nonneg _))
  · by_cases still : c j = 0
    · rw [still, abs_zero, mul_zero]
      exact mul_nonneg upper (abs_nonneg _)
    · have moves : c i ≠ 0 := fun zero => moved.ne' (h.stays counts (by omega) zero)
      have order := counts.passed h.mono moved j
      have early := h.early good counts hn moved
      have before := (h.clock_bounds moves (k i - 1)).1
      have after := (h.clock_bounds still (k j)).2
      have few := counts.le j
      have hi : 256 * ((k i - 1 : Nat) : Int) + u i = 256 * k i + u i - 256 := by omega
      rw [hi] at before
      have apart := room_of_times (a := 256 * k i + u i - 256) (b := 256 * k j + u j)
        (Int.one_le_abs moves) (h.short i) (abs_nonneg (c j)) (h.short j) (by omega) (by omega)
        (by omega) ((h.paced i).exact moves (good i)).2 ((h.paced j).exact still (good j)).1
        (by omega) (by omega)
      rwa [show 256 * (k i : Int) + u i - 256 - 256 = 256 * k i + u i - 512 by ring] at apart

theorem not_roomy (h : Lanes c u delta first) (hasty : Hasty (c i))
    (counts : Counts (axisClock first delta) n k) (two : k i = 2) :
    ¬Roomy c u (Function.update k i 3) := by
  intro roomy
  obtain ⟨m, long⟩ := h.main
  have tiny : |c i| ≤ 7 := by unfold Hasty at hasty; omega
  have moves : c i ≠ 0 := fun zero => by unfold Hasty at hasty; rw [zero, abs_zero] at hasty; omega
  have apart : m ≠ i := fun same => by rw [same] at long; omega
  have movesM : c m ≠ 0 := fun zero => by rw [zero, abs_zero] at long; omega
  obtain ⟨-, main, far⟩ := (h.paced m).main long
  have positive : 0 < delta m := lt_of_lt_of_le (by norm_num) ((h.paced m).range movesM).1
  have room := roomy i m
  unfold bandLower bandUpper at room
  rw [Function.update_self, Function.update_of_ne apart] at room
  have hui := h.dist i
  have hum := h.dist m
  have second := (h.clock_bounds moves 2).2
  have order : delta m * (256 * k m + u m - 256) ≤ delta i * (u i + 512) + 255 := by
    rcases Nat.eq_zero_or_pos (k m) with unmoved | moved
    · have below : delta m * (256 * k m + u m - 256) ≤ 0 :=
        mul_nonpos_of_nonneg_of_nonpos positive.le (by omega)
      have above : 0 ≤ delta i * (u i + 512) := mul_nonneg (h.delta_nonneg i) (by omega)
      omega
    · have passed := counts.passed h.mono moved i
      rw [two] at passed
      have before := (h.clock_bounds movesM (k m - 1)).1
      rw [show 256 * ((k m - 1 : Nat) : Int) + u m = 256 * k m + u m - 256 by omega] at before
      have hsplit : delta i * (256 * (2 : Nat) + u i) = delta i * (u i + 512) := by push_cast; ring
      omega
  have clash := no_room_of_times hui.1 (abs_nonneg (c i)) tiny ((h.paced i).hasty hasty).2 positive
    main far order
  push_cast at room
  rw [show 768 + u i - 512 = 256 + u i by ring,
    show 256 * (k m : Int) + u m + 256 = 256 * k m + u m - 256 + 512 by ring] at room
  omega

theorem hasty_moves (h : Lanes c u delta first) (hasty : Hasty (c i))
    (counts : Counts (axisClock first delta) n k) (hn : n ≤ 111) (few : k i ≤ 2) : n ≤ 102 := by
  have moves : c i ≠ 0 := fun zero => by unfold Hasty at hasty; rw [zero, abs_zero] at hasty; omega
  have pending : axisClock first delta i (k i) ≤ 12288 := by
    have bound := h.first_le moves (k i)
    have : ((k i : Int) + 1) * delta i ≤ 3 * 4096 :=
      mul_le_mul (by omega) ((h.paced i).hasty hasty).1 (h.delta_nonneg i) (by norm_num)
    omega
  have slow (j : Fin 3) : k j ≤ 50 := by
    rcases Nat.eq_zero_or_pos (k j) with unmoved | moved
    · omega
    · have movesJ : c j ≠ 0 := fun zero => moved.ne' (h.stays counts hn zero)
      have passed := counts.passed h.mono moved i
      have before := (h.clock_bounds movesJ (k j - 1)).1
      have pace := ((h.paced j).range movesJ).1
      have huj := h.dist j
      by_contra many
      have : (250 : Int) * 12800 ≤ delta j * (256 * ((k j - 1 : Nat) : Int) + u j) :=
        mul_le_mul pace (by omega) (by norm_num) (h.delta_nonneg j)
      omega
  have others : ∑ j ∈ Finset.univ.erase i, k j ≤ (Finset.univ.erase i).card • 50 :=
    Finset.sum_le_card_nsmul _ k 50 fun j _ => slow j
  rw [Finset.card_erase_of_mem (Finset.mem_univ i), Finset.card_univ, Fintype.card_fin] at others
  have total := counts.sum_eq
  rw [← Finset.add_sum_erase _ k (Finset.mem_univ i)] at total
  rw [smul_eq_mul] at others
  omega

end Lanes
end FpgaCraft.Software
