import Mathlib.Data.Nat.Basic
import Mathlib.Tactic.SplitIfs

/-!
# Taking turns

A counter that grows by one with each turn picks the items of a list in turn.
What is left of an item until it is done is its weight in full rounds and the
distance of the counter from it; every turn leaves less.
-/

set_option autoImplicit false

namespace RoundRobin

variable (count turn item : ℕ)

/-- The turns that come before the next turn of the item. -/
def distance : ℕ := (item+(count-turn%count))%count

def left (weight : ℕ) : ℕ := weight*count+distance count turn item

variable {count turn item}

theorem distance_lt (h : item < count) : distance count turn item < count :=
  Nat.mod_lt _ (by omega)

theorem distance_skip (h : item < count) (hskip : turn%count ≠ item) :
    distance count (turn+1) item+1 = distance count turn item := by
  have hmod := Nat.mod_lt turn (by omega : 0 < count)
  have hplace (r : ℕ) (hr : r < count) : (item+(count-r))%count =
      if r ≤ item then item-r else item+(count-r) := by
    split_ifs with hle
    · rw [show item+(count-r) = item-r+count by omega, Nat.add_mod_right,
        Nat.mod_eq_of_lt (by omega)]
    · exact Nat.mod_eq_of_lt (by omega)
  have hnext : (turn+1)%count = if turn%count+1 = count then 0 else turn%count+1 := by
    rw [← Nat.mod_add_mod]
    split_ifs with hwrap
    · rw [hwrap, Nat.mod_self]
    · exact Nat.mod_eq_of_lt (by omega)
  rw [distance, distance, hplace _ hmod, hplace _ (Nat.mod_lt _ (by omega)), hnext]
  split_ifs <;> omega

theorem left_skip (h : item < count) (hskip : turn%count ≠ item) (weight : ℕ) :
    left count (turn+1) item weight < left count turn item weight := by
  have hstep := distance_skip h hskip
  rw [left, left]
  omega

/-- At the turn of an item a smaller weight makes up for the full round that
it has to wait again. -/
theorem left_visit (h : item < count) {weight weight' : ℕ} (hless : weight' < weight) :
    left count (turn+1) item weight' < left count turn item weight := by
  have hd : distance count (turn+1) item < count := distance_lt h
  have hmul : (weight'+1)*count ≤ weight*count := Nat.mul_le_mul_right count hless
  rw [Nat.add_one_mul] at hmul
  rw [left, left]
  omega

end RoundRobin
