import Mathlib.Data.List.Forall2
import Mathlib.Data.List.Infix

/-!
# Topics made of levels

A topic is a text whose levels are kept apart by a separator. A filter is made
the same way; a level that is the wildcard stands for any one level.
-/

set_option autoImplicit false

namespace TopicLevels

variable {α : Type*} [DecidableEq α]

def Matches (separator wildcard : α) (filter topic : List α) : Prop :=
  List.Forall₂ (fun level name => level = [wildcard] ∨ level = name)
    (filter.splitOn separator) (topic.splitOn separator)

instance (separator wildcard : α) (filter topic : List α) :
    Decidable (Matches separator wildcard filter topic) :=
  inferInstanceAs (Decidable (List.Forall₂ _ _ _))

/-- The part before the first separator and the part after it. -/
def splitFirst (separator : α) (text : List α) : List α × List α :=
  (text.takeWhile (· ≠ separator),(text.dropWhile (· ≠ separator)).tail)

variable {separator : α}

theorem matches_intercalate (wildcard : α) {levels names : List (List α)}
    (hl : ∀ level ∈ levels, separator ∉ level) (hn : ∀ name ∈ names, separator ∉ name)
    (hl' : levels ≠ []) (hn' : names ≠ []) :
    Matches separator wildcard ([separator].intercalate levels) ([separator].intercalate names) ↔
      List.Forall₂ (fun level name => level = [wildcard] ∨ level = name) levels names := by
  rw [Matches, List.splitOn_intercalate _ hl hl', List.splitOn_intercalate _ hn hn']

theorem splitFirst_cons {c : α} (h : c ≠ separator) (text : List α) :
    splitFirst separator (c::text) =
      (c::(splitFirst separator text).1,(splitFirst separator text).2) := by
  simp [splitFirst, h]

theorem splitFirst_append {level : List α} (h : separator ∉ level) (rest : List α) :
    splitFirst separator (level ++ separator::rest) = (level,rest) := by
  induction level with
  | nil => simp [splitFirst]
  | cons c level ih =>
    rw [List.mem_cons, not_or] at h
    rw [List.cons_append, splitFirst_cons (Ne.symm h.1), ih h.2]

theorem splitFirst_of_notMem {text : List α} (h : separator ∉ text) :
    splitFirst separator text = (text,[]) := by
  induction text with
  | nil => rfl
  | cons c text ih =>
    rw [List.mem_cons, not_or] at h
    rw [splitFirst_cons (Ne.symm h.1), ih h.2]

/-- A text is put together again when there is something in its second part. -/
theorem eq_append_of_splitFirst {text level rest : List α}
    (h : splitFirst separator text = (level,rest)) (hrest : rest ≠ []) :
    text = level ++ separator::rest := by
  by_cases hmem : separator ∈ text
  · obtain ⟨first,second,rfl,hfirst⟩ := List.eq_append_cons_of_mem hmem
    rw [splitFirst_append hfirst] at h
    cases h
    rfl
  · rw [splitFirst_of_notMem hmem] at h
    cases h
    exact absurd rfl hrest

omit [DecidableEq α] in
/-- What has no separator in it does not reach beyond the last level. -/
theorem suffix_append_cons_iff {part level : List α} (h : separator ∉ part) (levels : List α) :
    part <:+ levels ++ separator::level ↔ part <:+ level := by
  constructor
  · intro hpart
    have hlevel : separator::level <:+ levels ++ separator::level := List.suffix_append _ _
    obtain hshort | hlong := List.suffix_or_suffix_of_suffix hpart hlevel
    · obtain rfl | hshort := List.suffix_cons_iff.mp hshort
      · exact absurd List.mem_cons_self h
      · exact hshort
    · exact absurd (hlong.subset List.mem_cons_self) h
  · intro hpart
    exact List.suffix_append_of_suffix (List.suffix_cons_iff.mpr (Or.inr hpart))

end TopicLevels
