import Mathlib.Data.List.Basic

/-!
# Choosing from a list by position

A predicate on positions splits a list into the members it picks and those it
leaves. Both parts keep their order; members behind the last picked position
are left.
-/

set_option autoImplicit false

namespace IndexSelect

variable {α β : Type*}

def pick (p : ℕ → Bool) : List α → List α
  | [] => []
  | a::l => if p 0 then a::pick (fun i => p (i+1)) l else pick (fun i => p (i+1)) l

def leave (p : ℕ → Bool) : List α → List α
  | [] => []
  | a::l => if p 0 then leave (fun i => p (i+1)) l else a::leave (fun i => p (i+1)) l

theorem pick_append (p : ℕ → Bool) (l m : List α) :
    pick p (l ++ m) = pick p l ++ pick (fun i => p (i+l.length)) m := by
  induction l generalizing p with
  | nil => rfl
  | cons a l ih =>
    simp only [List.cons_append, pick, ih, List.length_cons, Nat.add_assoc]
    split_ifs <;> rfl

theorem leave_append (p : ℕ → Bool) (l m : List α) :
    leave p (l ++ m) = leave p l ++ leave (fun i => p (i+l.length)) m := by
  induction l generalizing p with
  | nil => rfl
  | cons a l ih =>
    simp only [List.cons_append, leave, ih, List.length_cons, Nat.add_assoc]
    split_ifs <;> rfl

theorem pick_none {p : ℕ → Bool} (l : List α) (h : ∀ i, p i = false) : pick p l = [] := by
  induction l generalizing p with
  | nil => rfl
  | cons a l ih => simp [pick, h, ih]

theorem leave_none {p : ℕ → Bool} (l : List α) (h : ∀ i, p i = false) : leave p l = l := by
  induction l generalizing p with
  | nil => rfl
  | cons a l ih => simp [leave, h, ih]

theorem pick_map (p : ℕ → Bool) (f : α → β) (l : List α) :
    pick p (l.map f) = (pick p l).map f := by
  induction l generalizing p with
  | nil => rfl
  | cons a l ih =>
    simp only [List.map_cons, pick, ih]
    split_ifs <;> rfl

theorem leave_sublist (p : ℕ → Bool) (l : List α) : (leave p l).Sublist l := by
  induction l generalizing p with
  | nil => exact .slnil
  | cons a l ih =>
    simp only [leave]
    split_ifs
    · exact (ih _).cons a
    · exact (ih _).cons_cons a

/-- The parts make up the list again. -/
theorem pick_leave_perm (p : ℕ → Bool) (l : List α) : (pick p l ++ leave p l).Perm l := by
  induction l generalizing p with
  | nil => exact .nil
  | cons a l ih =>
    simp only [pick, leave]
    split_ifs
    · exact (ih _).cons a
    · exact List.perm_middle.trans ((ih _).cons a)

theorem mem_pick {p : ℕ → Bool} {l : List α} {a : α} :
    a ∈ pick p l ↔ ∃ i, p i = true ∧ l[i]? = some a := by
  induction l generalizing p with
  | nil => simp [pick]
  | cons b l ih =>
    constructor
    · intro h
      simp only [pick] at h
      split_ifs at h with h0
      · rcases List.mem_cons.mp h with rfl | h
        · exact ⟨0,h0,rfl⟩
        · obtain ⟨i,hi,hl⟩ := ih.mp h
          exact ⟨i+1,hi,hl⟩
      · obtain ⟨i,hi,hl⟩ := ih.mp h
        exact ⟨i+1,hi,hl⟩
    · rintro ⟨i,hi,hl⟩
      cases i with
      | zero =>
        cases hl
        simp [pick, hi]
      | succ i =>
        have h : a ∈ pick (fun i => p (i+1)) l := ih.mpr ⟨i,hi,hl⟩
        simp only [pick]
        split_ifs
        · exact List.mem_cons_of_mem _ h
        · exact h

theorem countP_leave (p : ℕ → Bool) (q : α → Bool) (l : List α) :
    (pick p l).countP q+(leave p l).countP q = l.countP q := by
  rw [← List.countP_append]
  exact (pick_leave_perm p l).countP_eq q

end IndexSelect
