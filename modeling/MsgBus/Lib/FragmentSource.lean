import Mathlib.Algebra.Order.Ring.Nat
import Mathlib.Data.List.Basic

/-!
# Sources read in fragments

A source has some content of which a fragment of a given length is fetched at
a given offset; it may change its state when it is read. Fragments fetched one
after the other are the content, wherever it is cut.
-/

set_option autoImplicit false

namespace FragmentSource

variable {α σ : Type*} (fetch : σ → ℕ → ℕ → List α × σ)

/-- The fragments of consecutive calls with these lengths. -/
def fetchSplit : σ → ℕ → List ℕ → List (List α)
  | _, _, [] => []
  | s, offs, len::lens =>
    (fetch s offs len).1::fetchSplit (fetch s offs len).2 (offs+(fetch s offs len).1.length) lens

/-- In the states of an invariant, slices of the content are fetched. -/
structure Serves (inv : σ → Prop) (content : List α) : Prop where
  slice : ∀ s offs len, inv s → offs ≤ content.length →
    (fetch s offs len).1 = (content.drop offs).take len
  kept : ∀ s offs len, inv s → offs ≤ content.length → inv (fetch s offs len).2

namespace Serves

variable {fetch} {inv : σ → Prop} {content : List α} {s : σ} {offs : ℕ}
  (h : Serves fetch inv content)

include h

theorem fetchSplit_flatten (hs : inv s) (hoffs : offs ≤ content.length) (lens : List ℕ) :
    (fetchSplit fetch s offs lens).flatten = (content.drop offs).take lens.sum := by
  induction lens generalizing s offs with
  | nil => simp [fetchSplit]
  | cons len lens ih =>
    have hslice := h.slice s offs len hs hoffs
    have hlength : offs+(fetch s offs len).1.length ≤ content.length := by
      rw [hslice, List.length_take, List.length_drop]
      omega
    rw [fetchSplit, List.flatten_cons, ih (h.kept s offs len hs hoffs) hlength, hslice,
      List.sum_cons, List.take_add, List.drop_drop, List.length_take, List.length_drop]
    by_cases hlen : len ≤ content.length-offs
    · rw [Nat.min_eq_left hlen]
    · -- the fragment is the rest, and nothing is left behind it
      have hcut : content.length ≤ offs+min len (content.length-offs) := by omega
      have hend : content.length ≤ offs+len := by omega
      rw [List.drop_eq_nil_of_le hcut, List.drop_eq_nil_of_le hend]

/-- Calls that reach the end fetch all of the content. -/
theorem fetchSplit_all (hs : inv s) {lens : List ℕ} (hsum : content.length ≤ lens.sum) :
    (fetchSplit fetch s 0 lens).flatten = content := by
  rw [h.fetchSplit_flatten hs (Nat.zero_le _), List.drop_zero, List.take_of_length_le hsum]

theorem fetch_all (hs : inv s) : (fetch s 0 content.length).1 = content := by
  rw [h.slice s 0 _ hs (Nat.zero_le _), List.drop_zero, List.take_length]

theorem fetch_length (hs : inv s) (hoffs : offs ≤ content.length) (len : ℕ) :
    (fetch s offs len).1.length = min len (content.length-offs) := by
  rw [h.slice s offs len hs hoffs, List.length_take, List.length_drop]

end Serves

end FragmentSource
