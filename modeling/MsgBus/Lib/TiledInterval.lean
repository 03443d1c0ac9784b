import Mathlib.Algebra.Order.Ring.Int
import Mathlib.Tactic.Linarith

/-!
# Intervals of integers cut into tiles

Tiles of one size are numbered from the origin; a number times the size is
where its tile begins. The quotient that is rounded away from zero numbers the
tile below a negative point and the one above any other.
-/

set_option autoImplicit false

namespace TiledInterval

variable {m : ℤ}

/-- The quotient rounded away from zero. -/
def away (m c : ℤ) : ℤ :=
  if c < 0 then c.tdiv m-(if (-c).tmod m ≠ 0 then 1 else 0)
  else c.tdiv m+(if c.tmod m ≠ 0 then 1 else 0)

/-- How far the rounded quotient is past the point, in points. -/
def gap (m c : ℤ) : ℤ := if c < 0 then -(c%m) else (-c)%m

theorem gap_neg (hm : 0 < m) {c : ℤ} (h : c < 0) : -m < gap m c ∧ gap m c ≤ 0 := by
  have hpos := Int.emod_nonneg c hm.ne'
  have hlt := Int.emod_lt_of_pos c hm
  rw [gap, if_pos h]
  omega

theorem gap_nonneg (hm : 0 < m) {c : ℤ} (h : 0 ≤ c) : 0 ≤ gap m c ∧ gap m c < m := by
  rw [gap, if_neg (by omega)]
  exact ⟨Int.emod_nonneg _ hm.ne',Int.emod_lt_of_pos _ hm⟩

theorem ceil_mul (hm : 0 < m) {c : ℤ} (h : 0 ≤ c) :
    (c.tdiv m+(if c.tmod m ≠ 0 then 1 else 0))*m = c+(-c)%m := by
  have hdiv := Int.mul_ediv_add_emod c m
  rw [Int.tdiv_eq_ediv_of_nonneg h, Int.tmod_eq_emod_of_nonneg h]
  split_ifs with hc
  · rw [Int.neg_emod, if_neg (fun hdvd => hc (Int.emod_eq_zero_of_dvd hdvd)),
      Int.natAbs_of_nonneg hm.le]
    linarith
  · have hzero := not_not.mp hc
    rw [Int.neg_emod, if_pos (Int.dvd_of_emod_eq_zero hzero)]
    linarith

theorem away_mul (hm : 0 < m) (c : ℤ) : away m c*m = c+gap m c := by
  by_cases h : c < 0
  · have hceil := ceil_mul hm (neg_nonneg.mpr h.le)
    rw [Int.neg_tdiv, neg_neg] at hceil
    rw [away, gap, if_pos h, if_pos h]
    linarith
  · rw [away, gap, if_neg h, if_neg h, ceil_mul hm (by omega)]

theorem dvd_iff_gap (c : ℤ) : m ∣ c ↔ gap m c = 0 := by
  rw [gap]
  split_ifs
  · rw [neg_eq_zero, Int.dvd_iff_emod_eq_zero]
  · rw [← Int.dvd_neg, Int.dvd_iff_emod_eq_zero]

/-- The tile of a point is the quotient rounded down. -/
theorem tile_iff (hm : 0 < m) {u x : ℤ} : x*m ≤ u ∧ u < (x+1)*m ↔ u/m = x := by
  rw [← Int.le_ediv_iff_mul_le hm, ← Int.ediv_lt_iff_lt_mul hm]
  omega

theorem ceil_eq (hm : 0 < m) {w k : ℤ} (hw : 0 ≤ w) :
    w.tdiv m+(if w.tmod m ≠ 0 then 1 else 0) = k ↔ w ≤ k*m ∧ (k-1)*m < w := by
  have hceil := ceil_mul hm hw
  have hpos := Int.emod_nonneg (-w) hm.ne'
  have hlt := Int.emod_lt_of_pos (-w) hm
  constructor
  · rintro rfl
    constructor <;> linarith
  · rintro ⟨hle,hlast⟩
    generalize w.tdiv m+(if w.tmod m ≠ 0 then 1 else 0) = n at hceil ⊢
    have hkn : k-1 < n := lt_of_mul_lt_mul_right (by linarith) hm.le
    have hnk : n-1 < k := lt_of_mul_lt_mul_right (by linarith) hm.le
    omega

/-- The tiles from `p` on and below `q` are those of the points from `lo` on and
below `hi`, the last of them perhaps in part. -/
structure Tiled (m lo hi p q : ℤ) : Prop where
  first : p*m = lo
  last : (q-1)*m < hi
  past : hi ≤ q*m

namespace Tiled

variable {lo hi p q : ℤ} (h : Tiled m lo hi p q) (hm : 0 < m)

include h hm

/-- The numbers that begin in the interval are those of its tiles. -/
theorem begins_iff (x : ℤ) : lo ≤ x*m ∧ x*m < hi ↔ p ≤ x ∧ x < q := by
  rw [← h.first, mul_le_mul_iff_of_pos_right hm]
  refine and_congr_right fun _ => ?_
  constructor
  · intro hx
    exact lt_of_mul_lt_mul_right (hx.trans_le h.past) hm.le
  · intro hx
    exact (mul_le_mul_of_nonneg_right (show x ≤ q-1 by omega) hm.le).trans_lt h.last

theorem tile_mem {u : ℤ} (hlo : lo ≤ u) (hhi : u < hi) : p ≤ u/m ∧ u/m < q := by
  rw [Int.le_ediv_iff_mul_le hm, Int.ediv_lt_iff_lt_mul hm, h.first]
  exact ⟨hlo,hhi.trans_le h.past⟩

theorem count_eq (hle : lo ≤ hi) :
    (hi-lo).tdiv m+(if (hi-lo).tmod m ≠ 0 then 1 else 0) = q-p := by
  rw [ceil_eq hm (by omega), ← h.first]
  have hlast := h.last
  have hpast := h.past
  constructor <;> linarith

theorem first_le (hle : lo ≤ hi) : p ≤ q := by
  refine le_of_mul_le_mul_right ?_ hm
  exact h.first.le.trans (hle.trans h.past)

theorem sum_first_parts (hle : lo ≤ hi) {n : ℕ} (hn : (n:ℤ) ≤ q-p) :
    ((List.range n).map fun i : ℕ => min ((p+i+1)*m) hi-max ((p+i)*m) lo).sum =
      min ((p+n)*m) hi-lo := by
  induction n with
  | zero => simp [h.first, hle]
  | succ n ih =>
    have hbegin : lo ≤ (p+n)*m ∧ (p+n)*m < hi :=
      (h.begins_iff hm (p+n)).mpr (by omega)
    rw [List.range_succ, List.map_append, List.sum_append, ih (by omega), min_eq_left hbegin.2.le]
    simp only [List.map_cons, List.map_nil, List.sum_singleton, max_eq_left hbegin.1]
    push_cast
    rw [add_assoc p n 1]
    omega

/-- The parts of the tiles in the interval have its length in sum. -/
theorem sum_parts (hle : lo ≤ hi) :
    ((List.range (q-p).toNat).map fun i : ℕ =>
      min ((p+i+1)*m) hi-max ((p+i)*m) lo).sum = hi-lo := by
  have hpq := h.first_le hm hle
  rw [h.sum_first_parts hm hle (by omega), Int.toNat_of_nonneg (by omega), add_sub_cancel,
    min_eq_right h.past]

end Tiled

/-! ## Tiles between rounded quotients -/

/-- The interval begins with a tile, and ends with one if it is below zero. -/
def Aligned (m lo hi : ℤ) : Prop := m ∣ lo ∧ (hi < 0 → m ∣ hi)

theorem aligned_tiled (hm : 0 < m) {lo hi : ℤ} (h : Aligned m lo hi) :
    Tiled m lo hi (away m lo) (away m hi) := by
  have hlo := away_mul hm lo
  have hhi := away_mul hm hi
  rw [(dvd_iff_gap lo).mp h.1, add_zero] at hlo
  by_cases hneg : hi < 0
  · rw [(dvd_iff_gap hi).mp (h.2 hneg), add_zero] at hhi
    exact ⟨hlo,by linarith,hhi.ge⟩
  · obtain ⟨hpos,hlt⟩ := gap_nonneg hm (not_lt.mp hneg)
    exact ⟨hlo,by linarith,by linarith⟩

/-- The rounded quotients are those of the first tile and of the one past the
last only if the interval is aligned. -/
theorem aligned_of_bounds (hm : 0 < m) {lo hi : ℤ} (hlo : away m lo*m = lo)
    (hhi : hi ≤ away m hi*m) : Aligned m lo hi := by
  have hlo' := away_mul hm lo
  have hhi' := away_mul hm hi
  refine ⟨(dvd_iff_gap lo).mpr (by linarith),fun hneg => (dvd_iff_gap hi).mpr ?_⟩
  have hgap := (gap_neg hm hneg).2
  linarith

/-- The interval takes as many tiles as there are between its rounded quotients. -/
def Counted (m lo hi : ℤ) : Prop := 0 ≤ gap m hi-gap m lo ∧ gap m hi-gap m lo < m

theorem count_eq_iff_counted (hm : 0 < m) {lo hi : ℤ} (hle : lo ≤ hi) :
    (hi-lo).tdiv m+(if (hi-lo).tmod m ≠ 0 then 1 else 0) = away m hi-away m lo ↔
      Counted m lo hi := by
  rw [ceil_eq hm (by omega)]
  have hlo := away_mul hm lo
  have hhi := away_mul hm hi
  constructor
  · rintro ⟨hcount,hlast⟩
    constructor <;> linarith
  · rintro ⟨hcount,hlast⟩
    constructor <;> linarith

end TiledInterval
