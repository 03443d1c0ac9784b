import Mathlib.Data.List.Basic

/-!
# Alternating reports

A status is reported by its changes: the value it now has is appended to what
was reported before. Such reports alternate, and the last one is the status.
-/

set_option autoImplicit false

namespace Alternation

/-- Each entry is the opposite of the one before, the first one of `up`. -/
def Alternates : Bool → List Bool → Prop
  | _, [] => True
  | up, b::bs => b = !up ∧ Alternates b bs

def after : Bool → List Bool → Bool
  | up, [] => up
  | _, b::bs => after b bs

theorem alternates_append {up : Bool} {bs cs : List Bool} :
    Alternates up (bs ++ cs) ↔ Alternates up bs ∧ Alternates (after up bs) cs := by
  induction bs generalizing up with
  | nil => simp [Alternates, after]
  | cons b bs ih => simp [Alternates, after, ih, and_assoc]

theorem after_append {up : Bool} {bs cs : List Bool} :
    after up (bs ++ cs) = after (after up bs) cs := by
  induction bs generalizing up with
  | nil => rfl
  | cons b bs ih => exact ih

/-- What is reported when a status changes, or does not. -/
def edge (was now : Bool) : List Bool := if was = now then [] else [now]

theorem edge_alternates (was now : Bool) : Alternates was (edge was now) := by
  cases was <;> cases now <;> simp [edge, Alternates]

theorem after_edge (was now : Bool) : after was (edge was now) = now := by
  cases was <;> cases now <;> rfl

/-- The reports on a status that has been down at first. -/
structure Reports (up : Bool) (bs : List Bool) : Prop where
  alternates : Alternates false bs
  after : after false bs = up

theorem reports_nil : Reports false [] := ⟨trivial,rfl⟩

theorem Reports.append {up : Bool} {bs cs : List Bool} (h : Reports up bs)
    (hc : Alternates up cs) : Reports (Alternation.after up cs) (bs ++ cs) := by
  obtain ⟨ha,hu⟩ := h
  constructor
  · rw [alternates_append, hu]
    exact ⟨ha,hc⟩
  · rw [after_append, hu]

theorem Reports.edge {up : Bool} {bs : List Bool} (h : Reports up bs) (now : Bool) :
    Reports now (bs ++ edge up now) := by
  have hr := h.append (edge_alternates up now)
  rwa [after_edge] at hr

end Alternation
