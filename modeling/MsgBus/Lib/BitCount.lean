import Mathlib.Data.Finset.Card
import Mathlib.Data.Nat.Bitwise

/-!
# Counting the bits of a word

The loop takes the lowest bit away until the word is zero. Each turn removes
one position from the set of positions with a bit, so the loop counts this set.
-/

set_option autoImplicit false

namespace BitCount

/-- The number of turns that the loop makes, up to the given one. -/
def turns : ℕ → ℕ → ℕ
  | 0, _ => 0
  | fuel+1, n => if n = 0 then 0 else turns fuel (n &&& (n-1))+1

def positions (width n : ℕ) : Finset ℕ := (Finset.range width).filter (fun i => n.testBit i = true)

theorem mem_positions {width n i : ℕ} :
    i ∈ positions width n ↔ i < width ∧ n.testBit i = true := by
  simp [positions]

theorem positions_card_le (width n : ℕ) : (positions width n).card ≤ width :=
  (Finset.card_filter_le _ _).trans_eq (Finset.card_range width)

theorem positions_mono {width m n : ℕ} (h : ∀ i, m.testBit i = true → n.testBit i = true) :
    (positions width m).card ≤ (positions width n).card := by
  apply Finset.card_le_card
  intro i hi
  obtain ⟨hlt,hm⟩ := mem_positions.mp hi
  exact mem_positions.mpr ⟨hlt,h i hm⟩

/-- One turn clears one bit, the lowest one. -/
theorem clears_one (n : ℕ) (h : n ≠ 0) : ∃ low, n.testBit low = true ∧
    ∀ i, (n &&& (n-1)).testBit i = (n.testBit i && decide (i ≠ low)) := by
  induction n using Nat.strong_induction_on with
  | _ n ih =>
    rcases Nat.even_or_odd' n with ⟨m,rfl | rfl⟩
    · obtain ⟨low,hlow,hrest⟩ := ih m (by omega) (by omega)
      refine ⟨low+1,?_,fun i => ?_⟩
      · rw [Nat.testBit_succ, Nat.mul_div_cancel_left m (by decide)]
        exact hlow
      · cases i with
        | zero => simp
        | succ i =>
          have hhalf := hrest i
          rw [Nat.testBit_and] at hhalf ⊢
          rw [Nat.testBit_succ, Nat.testBit_succ, Nat.mul_div_cancel_left m (by decide),
            show (2*m-1)/2 = m-1 by omega, hhalf]
          simp
    · refine ⟨0,by simp,fun i => ?_⟩
      cases i with
      | zero => simp
      | succ i =>
        rw [Nat.testBit_and, Nat.add_sub_cancel, Nat.testBit_succ, Nat.testBit_succ,
          show (2*m+1)/2 = m by omega, Nat.mul_div_cancel_left m (by decide), Bool.and_self]
        simp

/-- With as many turns as there are bits the loop has come to its end. -/
theorem turns_eq {width n : ℕ} (hn : n < 2^width) {fuel : ℕ}
    (hfuel : (positions width n).card ≤ fuel) : turns fuel n = (positions width n).card := by
  induction fuel generalizing n with
  | zero => exact (Nat.le_zero.mp hfuel).symm
  | succ fuel ih =>
    rw [turns]
    split_ifs with h
    · subst h
      simp [positions]
    · obtain ⟨low,hlow,hrest⟩ := clears_one n h
      have hlt : low < width := by
        by_contra hge
        have hlarge := hn.trans_le (Nat.pow_le_pow_right (by decide) (not_lt.mp hge))
        rw [Nat.testBit_lt_two_pow hlarge] at hlow
        cases hlow
      have hmem : low ∈ positions width n := mem_positions.mpr ⟨hlt,hlow⟩
      have herase : positions width (n &&& (n-1)) = (positions width n).erase low := by
        ext i
        rw [Finset.mem_erase, mem_positions, mem_positions, hrest]
        simp only [Bool.and_eq_true, decide_eq_true_eq]
        tauto
      have hcard := Finset.card_erase_add_one hmem
      have hle : n &&& (n-1) ≤ n := Nat.and_le_left
      rw [ih (hle.trans_lt hn) (by rw [herase]; omega), herase]
      exact hcard

end BitCount
