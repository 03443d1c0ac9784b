import Mathlib.Data.Nat.Basic
import Mathlib.Tactic.SplitIfs

/-!
# Scans of a cyclic range

A scan tries the number it starts at, which may be outside of the range, goes
up to the end of the range and on from its first number. `Before` is the order
in which it tries them; a number is reached if all before it are used.
-/

set_option autoImplicit false

namespace CyclicScan

variable (lo hi start : ℕ) (used : ℕ → Bool)

def Tried (n : ℕ) : Prop := n = start ∨ lo ≤ n ∧ n < hi

def Before (m n : ℕ) : Prop :=
  if start ≤ n then start ≤ m ∧ m < n
  else m = start ∨ lo ≤ m ∧ m < hi ∧ (start ≤ m ∨ m < n)

structure Reached (n : ℕ) : Prop where
  tried : Tried lo hi start n
  before : ∀ m, Before lo hi start m n → used m = true

variable {lo hi start used}

/-- Of two numbers that are tried one comes first. -/
theorem before_total {m n : ℕ} (hm : Tried lo hi start m) (hn : Tried lo hi start n)
    (hne : m ≠ n) : Before lo hi start m n ∨ Before lo hi start n m := by
  unfold Tried at hm hn
  unfold Before
  split_ifs <;> omega

/-- The scan stops at one place only. -/
theorem Reached.unique {m n : ℕ} (hm : Reached lo hi start used m)
    (hn : Reached lo hi start used n) (hum : used m = false) (hun : used n = false) : m = n := by
  by_contra hne
  rcases before_total hm.tried hn.tried hne with hb | hb
  · rw [hn.before m hb] at hum
    cases hum
  · rw [hm.before n hb] at hun
    cases hun

theorem reached_start : Reached lo hi start used start := by
  refine ⟨Or.inl rfl,fun m hm => ?_⟩
  unfold Before at hm
  split_ifs at hm <;> omega

theorem Reached.next {n : ℕ} (h : Reached lo hi start used n) (hu : used n = true)
    (hlo : lo ≤ start) (hlt : n+1 < hi) :
    Reached lo hi start used (n+1) := by
  have ht := h.tried
  unfold Tried at ht
  refine ⟨Or.inr ⟨by omega,hlt⟩,fun m hm => ?_⟩
  by_cases hmn : m = n
  · exact hmn ▸ hu
  · refine h.before m ?_
    unfold Before at hm ⊢
    split_ifs at hm ⊢ <;> omega

theorem Reached.wrap {n : ℕ} (h : Reached lo hi start used n) (hu : used n = true)
    (hlo : lo ≤ start) (hlt : lo < hi) (hle : hi ≤ n+1) :
    Reached lo hi start used lo := by
  have ht := h.tried
  unfold Tried at ht
  refine ⟨Or.inr ⟨le_refl _,hlt⟩,fun m hm => ?_⟩
  by_cases hmn : m = n
  · exact hmn ▸ hu
  · refine h.before m ?_
    unfold Before at hm ⊢
    split_ifs at hm ⊢ <;> omega

/-- The scan comes back to where it started. -/
theorem Reached.around {n : ℕ} (h : Reached lo hi start used n) (hu : used n = true)
    (hback : n+1 = start) (hlt : n+1 < hi) {m : ℕ} (hm : Tried lo hi start m) :
    used m = true := by
  by_cases hmn : m = n
  · exact hmn ▸ hu
  · refine h.before m ?_
    have ht := h.tried
    unfold Tried at hm ht
    unfold Before
    split_ifs <;> omega

end CyclicScan
