import Mathlib.Data.List.Basic
import Mathlib.Data.List.Infix

/-!
# Words behind marks

A list of words is written as one sequence with a mark before each word. If
the mark is in none of the words, a sequence begins with another one either
because the list of words does or because a last word goes on in the other.
-/

set_option autoImplicit false

namespace MarkedWords

variable {α : Type*} (mark : α)

def flat : List (List α) → List α
  | [] => []
  | w::ws => mark::(w ++ flat ws)

/-- The same words up to the last one, which the other list has longer. -/
def Overruns (short long : List (List α)) : Prop :=
  ∃ front r f rest, short = front ++ [r] ∧ long = front ++ f::rest ∧ r <+: f ∧ r ≠ f

variable {mark}

theorem overruns_nil_right (short : List (List α)) : ¬ Overruns short [] := by
  rintro ⟨front,r,f,rest,-,h,-⟩
  simp at h

theorem overruns_cons_same (w : List α) (short long : List (List α)) :
    Overruns (w::short) (w::long) ↔ Overruns short long := by
  constructor
  · rintro ⟨front,r,f,rest,hs,hl,hp,hne⟩
    cases front with
    | nil =>
      simp only [List.nil_append, List.cons.injEq] at hs hl
      exact absurd (hs.1.symm.trans hl.1) hne
    | cons x front =>
      simp only [List.cons_append, List.cons.injEq] at hs hl
      exact ⟨front,r,f,rest,hs.2,hl.2,hp,hne⟩
  · rintro ⟨front,r,f,rest,rfl,rfl,hp,hne⟩
    exact ⟨w::front,r,f,rest,rfl,rfl,hp,hne⟩

theorem overruns_cons_ne {r f : List α} (short long : List (List α)) (h : r ≠ f) :
    Overruns (r::short) (f::long) ↔ short = [] ∧ r <+: f := by
  constructor
  · rintro ⟨front,r',f',rest,hs,hl,hp,-⟩
    cases front with
    | nil =>
      simp only [List.nil_append, List.cons.injEq] at hs hl
      rw [hs.1, hl.1]
      exact ⟨hs.2,hp⟩
    | cons x front =>
      simp only [List.cons_append, List.cons.injEq] at hs hl
      exact absurd (hs.1.trans hl.1.symm) h
  · rintro ⟨rfl,hp⟩
    exact ⟨[],r,f,long,rfl,rfl,hp,h⟩

/-- Without the mark in the words, different first words begin the one the
other only if nothing follows the shorter one. -/
theorem prefix_of_ne {r f : List α} {short long : List (List α)} (hr : mark ∉ r) (hf : mark ∉ f)
    (h : r ≠ f) (hp : r ++ flat mark short <+: f ++ flat mark long) :
    short = [] ∧ r <+: f := by
  have hrp : r <+: f ++ flat mark long := (List.prefix_append _ _).trans hp
  rcases List.prefix_or_prefix_of_prefix hrp (List.prefix_append f _) with hle | hle
  · refine ⟨?_,hle⟩
    obtain ⟨t,rfl⟩ := hle
    rw [List.append_assoc, List.prefix_append_right_inj] at hp
    cases short with
    | nil => rfl
    | cons w ws =>
      cases t with
      | nil => exact absurd (List.append_nil r).symm h
      | cons c t =>
        rw [flat, List.cons_append, List.cons_prefix_cons] at hp
        exact absurd (by simp [hp.1]) hf
  · obtain ⟨t,rfl⟩ := hle
    rw [List.append_assoc, List.prefix_append_right_inj] at hp
    cases t with
    | nil => exact absurd (List.append_nil f) h
    | cons c t =>
      cases long with
      | nil => simp [flat] at hp
      | cons w ws =>
        rw [flat, List.cons_append, List.cons_prefix_cons] at hp
        exact absurd (by simp [hp.1]) hr

theorem flat_prefix_iff {short long : List (List α)} (hs : ∀ w ∈ short, mark ∉ w)
    (hl : ∀ w ∈ long, mark ∉ w) :
    flat mark short <+: flat mark long ↔ short <+: long ∨ Overruns short long := by
  induction short generalizing long with
  | nil => simp [flat]
  | cons r short ih =>
    cases long with
    | nil => simp [flat, overruns_nil_right]
    | cons f long =>
      have hr := hs r List.mem_cons_self
      have hf := hl f List.mem_cons_self
      have ih := ih (fun w hw => hs w (List.mem_cons_of_mem _ hw))
        (fun w hw => hl w (List.mem_cons_of_mem _ hw))
      rw [flat, flat, List.cons_prefix_cons, List.cons_prefix_cons]
      by_cases h : r = f
      · subst h
        rw [List.prefix_append_right_inj, ih, overruns_cons_same]
        simp only [true_and]
      · rw [overruns_cons_ne short long h]
        constructor
        · rintro ⟨-,hp⟩
          exact Or.inr (prefix_of_ne hr hf h hp)
        · rintro (⟨he,-⟩ | ⟨rfl,hp⟩)
          · exact absurd he h
          · exact ⟨rfl,by simpa [flat] using hp.trans (List.prefix_append f _)⟩

/-- The words can be read back from the sequence. -/
theorem flat_injective {ws vs : List (List α)} (hw : ∀ w ∈ ws, mark ∉ w)
    (hv : ∀ w ∈ vs, mark ∉ w) (h : flat mark ws = flat mark vs) : ws = vs := by
  induction ws generalizing vs with
  | nil =>
    cases vs with
    | nil => rfl
    | cons v vs => simp [flat] at h
  | cons w ws ih =>
    cases vs with
    | nil => simp [flat] at h
    | cons v vs =>
      rw [flat, flat, List.cons_inj_right] at h
      have hwv : w = v := by
        by_contra hne
        have hw0 := hw w List.mem_cons_self
        have hv0 := hv v List.mem_cons_self
        have hl := (prefix_of_ne hw0 hv0 hne ⟨[],by rw [List.append_nil, h]⟩).2
        have hr := (prefix_of_ne hv0 hw0 (Ne.symm hne) ⟨[],by rw [List.append_nil, h]⟩).2
        exact hne (hl.eq_of_length_le hr.length_le)
      subst hwv
      rw [ih (fun x hx => hw x (List.mem_cons_of_mem _ hx))
        (fun x hx => hv x (List.mem_cons_of_mem _ hx)) (List.append_cancel_left h)]

end MarkedWords
