import Mathlib.Data.List.Basic
import Mathlib.Data.Set.Basic
import Mathlib.Order.Interval.Set.Basic

/-!
# Blocks, slices and writes at an offset

A block is a list of symbols. A slice of a block at an offset is a prefix of
what remains behind the offset. Writing a slice of some content into a buffer
keeps the places where the buffer already agrees with the content and adds
the written ones.
-/

set_option autoImplicit false

namespace ByteBlock

variable {β : Type*}

def Slice (whole : List β) (offs : ℕ) (d : List β) : Prop := d <+: whole.drop offs

def Agree (s : Set ℕ) (buf whole : List β) : Prop := ∀ x ∈ s, buf[x]? = whole[x]?

/-- The buffer after `src` has been copied over the part behind `offs`. -/
def overlay (buf : List β) (offs : ℕ) (src : List β) : List β :=
  buf.take offs ++ src ++ buf.drop (offs+src.length)

theorem overlay_length (buf : List β) (offs : ℕ) (src : List β)
    (h : offs+src.length ≤ buf.length) : (overlay buf offs src).length = buf.length := by
  simp only [overlay, List.length_append, List.length_take, List.length_drop]
  omega

theorem overlay_inside (buf : List β) (offs : ℕ) (src : List β) (x : ℕ)
    (h : offs+src.length ≤ buf.length) (hl : offs ≤ x) (hr : x < offs+src.length) :
    (overlay buf offs src)[x]? = src[x-offs]? := by
  have ht : (buf.take offs).length = offs := by simp; omega
  rw [overlay, List.append_assoc, List.getElem?_append_right (by omega), ht,
    List.getElem?_append_left (by omega)]

theorem overlay_outside (buf : List β) (offs : ℕ) (src : List β) (x : ℕ)
    (h : offs+src.length ≤ buf.length) (hx : x < offs ∨ offs+src.length ≤ x) :
    (overlay buf offs src)[x]? = buf[x]? := by
  have ht : (buf.take offs).length = offs := by simp; omega
  rcases hx with hx | hx
  · rw [overlay, List.append_assoc, List.getElem?_append_left (by omega), List.getElem?_take,
      if_pos hx]
  · rw [overlay, List.getElem?_append_right (by simp; omega), List.getElem?_drop]
    congr 1
    simp only [List.length_append, ht]
    omega

theorem slice_getElem {whole d : List β} {offs : ℕ} (h : Slice whole offs d) {x : ℕ}
    (hl : offs ≤ x) (hr : x < offs+d.length) : d[x-offs]? = whole[x]? := by
  have hd : x-offs < d.length := by omega
  obtain ⟨t,ht⟩ := h
  have hg := congrArg (fun l => l[x-offs]?) ht
  simp only [List.getElem?_append_left hd, List.getElem?_drop] at hg
  rw [hg]
  congr 1
  omega

theorem slice_bound {whole d : List β} {offs : ℕ} (h : Slice whole offs d) (hd : d ≠ []) :
    offs+d.length ≤ whole.length := by
  have hl := List.IsPrefix.length_le h
  have hp := List.length_pos_of_ne_nil hd
  rw [List.length_drop] at hl
  omega

theorem slice_take (whole d : List β) (offs n : ℕ) (h : Slice whole offs d) :
    Slice whole offs (d.take n) := (List.take_prefix n d).trans h

theorem slice_drop (whole d : List β) (offs n : ℕ) (h : Slice whole offs d) :
    Slice whole (offs+n) (d.drop n) := by
  obtain ⟨t,ht⟩ := h
  rcases le_total n d.length with hn | hn
  · refine ⟨t,?_⟩
    rw [← List.drop_drop, ← ht, List.drop_append_of_le_length hn]
  · rw [List.drop_eq_nil_of_le hn]
    exact List.nil_prefix

theorem slice_of_take (whole : List β) (offs n : ℕ) :
    Slice whole offs ((whole.drop offs).take n) := List.take_prefix _ _

/-- A slice that starts where an initial part of the content ends extends
that initial part. -/
theorem take_append_slice {whole d : List β} {offs : ℕ} (h : Slice whole offs d) :
    whole.take offs ++ d = whole.take (offs+d.length) := by
  rw [List.take_add, ← List.prefix_iff_eq_take.mp h]

theorem overlay_agree (s : Set ℕ) (buf whole d : List β) (offs : ℕ)
    (hb : offs+d.length ≤ buf.length) (hd : Slice whole offs d) (ha : Agree s buf whole) :
    Agree (s ∪ Set.Ico offs (offs+d.length)) (overlay buf offs d) whole := by
  intro x hx
  by_cases hin : offs ≤ x ∧ x < offs+d.length
  · rw [overlay_inside buf offs d x hb hin.1 hin.2, slice_getElem hd hin.1 hin.2]
  · have hs : x ∈ s := hx.resolve_right hin
    rw [overlay_outside buf offs d x hb (by omega), ha x hs]

theorem agree_whole {buf whole : List β} (hl : buf.length = whole.length)
    (h : Agree (Set.Ico 0 whole.length) buf whole) : buf = whole := by
  apply List.ext_getElem?
  intro x
  by_cases hx : x < whole.length
  · exact h x ⟨Nat.zero_le _,hx⟩
  · rw [List.getElem?_eq_none (by omega), List.getElem?_eq_none (by omega)]

end ByteBlock
