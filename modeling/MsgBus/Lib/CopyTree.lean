import Mathlib.Data.Set.Finite.Basic
import Mathlib.Data.Set.Finite.List

/-!
# Trees of copies

Each place hands copies to a list of next places. The levels are the places a
given number of steps away. A weight that grows by one with each step and is
bounded where a place hands anything on bounds the depth, and with it the tree.
-/

set_option autoImplicit false

namespace CopyTree

variable {κ : Type*} (next : κ → List κ) (root : κ)

def level : ℕ → List κ
  | 0 => [root]
  | k+1 => (level k).flatMap next

def Within : Set κ := {d | ∃ k, d ∈ level next root k}

variable {next root}

theorem mem_level_succ {k : ℕ} {e : κ} :
    e ∈ level next root (k+1) ↔ ∃ d ∈ level next root k, e ∈ next d := List.mem_flatMap

/-- A weight that grows by one with each step counts the steps. -/
theorem weight_level {w : κ → ℤ}
    (h : ∀ k, ∀ d ∈ level next root k, ∀ e ∈ next d, w e = w d+1) {k : ℕ} {d : κ}
    (hd : d ∈ level next root k) : w d = w root+k := by
  induction k generalizing d with
  | zero =>
    obtain rfl := List.mem_singleton.mp hd
    simp
  | succ k ih =>
    obtain ⟨d',hd',hd⟩ := mem_level_succ.mp hd
    rw [h k d' hd' d hd, ih hd']
    omega

/-- A tree of bounded depth is finite. -/
theorem finite_of_depth {n : ℕ} (h : ∀ k, n ≤ k → level next root k = []) :
    (Within next root).Finite := by
  apply Set.Finite.subset (List.finite_toSet ((List.range n).flatMap (level next root)))
  rintro d ⟨k,hd⟩
  apply List.mem_flatMap.mpr
  refine ⟨k,List.mem_range.mpr ?_,hd⟩
  by_contra hk
  rw [h k (not_lt.mp hk)] at hd
  cases hd

end CopyTree
