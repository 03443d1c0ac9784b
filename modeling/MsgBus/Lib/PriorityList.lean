import Mathlib.Data.List.MinMax
import Mathlib.Data.List.Sort

/-!
# Waiting entries arranged by a key

Entries wait in the order in which they came. Arranging them inserts each one
before the entries whose key is not smaller, so the arrangement is ascending
and its last entry is the first waiting one with the greatest key.
-/

set_option autoImplicit false

namespace PriorityList

variable {α ι : Type*} [LinearOrder ι] (key : α → ι)

abbrev NotAbove (a b : α) : Prop := key a ≤ key b

/-- Insertion at the lower bound of the key. -/
def insert (a : α) (l : List α) : List α := l.orderedInsert (NotAbove key) a

def arrange (waiting : List α) : List α := waiting.foldl (fun l a => insert key a l) []

instance : Std.Total (NotAbove key) := ⟨fun a b => le_total (key a) (key b)⟩

instance : IsTrans α (NotAbove key) := ⟨fun _ _ _ hab hbc => le_trans hab hbc⟩

theorem insert_sorted {l : List α} (a : α) (h : l.Pairwise (NotAbove key)) :
    (insert key a l).Pairwise (NotAbove key) := h.orderedInsert a l

theorem insert_not_above {a b : α} (l : List α) (h : key a ≤ key b) :
    insert key a (b::l) = a::b::l := List.orderedInsert_cons_of_le (NotAbove key) l h

theorem insert_past {a b : α} (l : List α) (h : key b < key a) :
    insert key a (b::l) = b::insert key a l :=
  List.orderedInsert_of_not_le (NotAbove key) l (not_le.mpr h)

/-- Above everything an entry goes to the end. -/
theorem insert_above {l : List α} {a : α} (h : ∀ b ∈ l, key b < key a) :
    insert key a l = l ++ [a] := by
  induction l with
  | nil => rfl
  | cons b l ih =>
    rw [insert_past key l (h b (by simp)), ih fun c hc => h c (by simp [hc]),
      List.cons_append]

/-- An entry that is not above the last one leaves it the last one. -/
theorem insert_concat {a m : α} (l : List α) (h : key a ≤ key m) :
    insert key a (l ++ [m]) = insert key a l ++ [m] := by
  induction l with
  | nil => exact insert_not_above key [] h
  | cons b l ih =>
    rw [List.cons_append]
    rcases le_or_gt (key a) (key b) with hab | hba
    · simp only [insert_not_above key _ hab, List.cons_append]
    · simp only [insert_past key _ hba, List.cons_append, ih]

/-- Below nothing an entry goes to the front. -/
theorem insert_front {l : List α} {a : α} (h : ∀ b ∈ l, key a ≤ key b) :
    insert key a l = a::l := by
  cases l with
  | nil => rfl
  | cons b l => exact insert_not_above key l (h b (by simp))

theorem arrange_concat (waiting : List α) (a : α) :
    arrange key (waiting ++ [a]) = insert key a (arrange key waiting) := by
  simp only [arrange, List.foldl_append, List.foldl_cons, List.foldl_nil]

theorem arrange_sorted (waiting : List α) :
    (arrange key waiting).Pairwise (NotAbove key) := by
  induction waiting using List.reverseRecOn with
  | nil => exact List.Pairwise.nil
  | append_singleton waiting a ih =>
    rw [arrange_concat]
    exact insert_sorted key a ih

theorem mem_arrange {waiting : List α} {a : α} : a ∈ arrange key waiting ↔ a ∈ waiting := by
  induction waiting using List.reverseRecOn with
  | nil => rfl
  | append_singleton waiting b ih =>
    rw [arrange_concat, insert, List.mem_orderedInsert, ih, List.mem_append,
      List.mem_singleton, or_comm]

/-- The last entry of an arrangement is the first of the highest ones, and
what stands before it is the arrangement of the others. -/
theorem arrange_argmax [DecidableEq α] {waiting : List α} {m : α}
    (hm : waiting.argmax key = some m) :
    arrange key waiting = arrange key (waiting.erase m) ++ [m] := by
  induction waiting using List.reverseRecOn generalizing m with
  | nil => cases hm
  | append_singleton waiting a ih =>
    rw [arrange_concat]
    rw [List.argmax_concat] at hm
    cases hc : waiting.argmax key with
    | none =>
      rw [List.argmax_eq_none.mp hc]
      rw [hc] at hm
      cases hm
      simp [arrange, insert]
    | some c =>
      have hle (b : α) (hb : b ∈ waiting) : key b ≤ key c := List.le_of_mem_argmax hb hc
      rw [hc] at hm
      by_cases hca : key c < key a
      · -- the new entry is above all others
        obtain rfl : a = m := by simpa [hca] using hm
        have hlt : ∀ b ∈ waiting, key b < key a := fun b hb => (hle b hb).trans_lt hca
        have hnot : a ∉ waiting := fun ha => lt_irrefl _ (hlt a ha)
        rw [insert_above key fun b hb => hlt b ((mem_arrange key).mp hb),
          List.erase_append_right _ hnot, List.erase_cons_head, List.append_nil]
      · obtain rfl : c = m := by simpa [hca] using hm
        rw [ih hc, insert_concat key _ (not_lt.mp hca),
          List.erase_append_left _ (List.argmax_mem hc), arrange_concat]

/-- Entries with one key are arranged backwards. -/
theorem arrange_reverse {waiting : List α} (h : ∀ a ∈ waiting, ∀ b ∈ waiting, key a = key b) :
    arrange key waiting = waiting.reverse := by
  induction waiting using List.reverseRecOn with
  | nil => rfl
  | append_singleton waiting a ih =>
    have hw := ih fun b hb c hc => h b (by simp [hb]) c (by simp [hc])
    rw [arrange_concat, hw, List.reverse_append, insert_front]
    · rfl
    · intro b hb
      rw [List.mem_reverse] at hb
      exact (h a (by simp) b (by simp [hb])).le

theorem sorted_palindrome {l : List α} (hs : l.Pairwise (NotAbove key))
    (hr : l.reverse = l) : ∀ a ∈ l, ∀ b ∈ l, key a = key b := by
  have hback : l.Pairwise (flip (NotAbove key)) := by
    rw [← hr]
    exact List.pairwise_reverse.mpr hs
  have hle : ∀ a ∈ l, ∀ b ∈ l, key a ≤ key b :=
    List.Pairwise.forall_of_forall_of_flip (fun a _ => le_refl (key a)) hs hback
  intro a ha b hb
  exact le_antisymm (hle a ha b hb) (hle b hb a ha)

/-- An arrangement reads the same from both ends only if it has one key and
the entries came in an order that does. -/
theorem arrange_palindrome {waiting : List α} :
    (arrange key waiting).reverse = arrange key waiting ↔
      (∀ a ∈ waiting, ∀ b ∈ waiting, key a = key b) ∧ waiting.reverse = waiting := by
  constructor
  · intro h
    have hkey : ∀ a ∈ waiting, ∀ b ∈ waiting, key a = key b := by
      simpa only [mem_arrange] using sorted_palindrome key (arrange_sorted key waiting) h
    rw [arrange_reverse key hkey, List.reverse_reverse] at h
    exact ⟨hkey,h.symm⟩
  · rintro ⟨hkey,h⟩
    rw [arrange_reverse key hkey, List.reverse_reverse, h]

end PriorityList
