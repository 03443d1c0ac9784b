import Mathlib.Order.MinMax
import Mathlib.Order.CompletePartialOrder
import Mathlib.Order.Interval.Set.Basic
import Mathlib.Data.Set.Lattice

/-!
# Canonical lists of half-open intervals

A finite set of points of a linear order is kept as a list of half-open
intervals, ascending, with a gap between each two neighbours. Insertion of
one interval merges every stored interval it overlaps or touches. The list
is determined by its points up to empty intervals; the end of a stored
interval is never a stored point.
-/

set_option autoImplicit false

namespace IntervalList

variable {α : Type*} [LinearOrder α]

def covered (ps : List (α × α)) : Set α := {x | ∃ p ∈ ps, p.1 ≤ x ∧ x < p.2}

def Canonical (ps : List (α × α)) : Prop :=
  (∀ p ∈ ps, p.1 ≤ p.2) ∧ ps.Pairwise (fun p q => p.2 < q.1)

def insertInterval (bgn fin : α) : List (α × α) → List (α × α)
  | [] => [(bgn,fin)]
  | p::ps => if fin < p.1 then (bgn,fin)::p::ps
      else if p.2 < bgn then p::insertInterval bgn fin ps
      else insertInterval (min bgn p.1) (max fin p.2) ps

@[simp] theorem covered_nil : covered ([] : List (α × α)) = ∅ := by
  ext x
  simp [covered]

@[simp] theorem covered_cons (p : α × α) (ps : List (α × α)) :
    covered (p::ps) = Set.Ico p.1 p.2 ∪ covered ps := by
  ext x
  simp [covered]

theorem covered_append (ps qs : List (α × α)) :
    covered (ps++qs) = covered ps ∪ covered qs := by
  induction ps with
  | nil => simp
  | cons p ps ih => simp [ih, Set.union_assoc]

theorem canonical_nil : Canonical ([] : List (α × α)) := by
  simp [Canonical]

theorem canonical_singleton (bgn fin : α) (h : bgn ≤ fin) : Canonical [(bgn,fin)] := by
  simp [Canonical, h]

theorem canonical_cons {p : α × α} {ps : List (α × α)} :
    Canonical (p::ps) ↔ p.1 ≤ p.2 ∧ (∀ q ∈ ps, p.2 < q.1) ∧ Canonical ps := by
  simp only [Canonical, List.mem_cons, forall_eq_or_imp, List.pairwise_cons]
  tauto

/-- Two overlapping or touching intervals have their hull as union. -/
theorem hull_Ico {a b c d : α} (hda : a ≤ d) (hcb : c ≤ b) :
    Set.Ico (min a c) (max b d) = Set.Ico a b ∪ Set.Ico c d := by
  ext x
  simp only [Set.mem_Ico, Set.mem_union, min_le_iff, lt_max_iff]
  constructor
  · rintro ⟨hl | hl, hr | hr⟩
    · exact Or.inl ⟨hl,hr⟩
    · rcases lt_or_ge x b with hb | hb
      · exact Or.inl ⟨hl,hb⟩
      · exact Or.inr ⟨hcb.trans hb,hr⟩
    · rcases lt_or_ge x d with hd | hd
      · exact Or.inr ⟨hl,hd⟩
      · exact Or.inl ⟨hda.trans hd,hr⟩
    · exact Or.inr ⟨hl,hr⟩
  · rintro (⟨hl,hr⟩ | ⟨hl,hr⟩)
    · exact ⟨Or.inl hl,Or.inl hr⟩
    · exact ⟨Or.inr hl,Or.inr hr⟩

theorem covered_insert (bgn fin : α) (h : bgn ≤ fin) (ps : List (α × α))
    (hp : ∀ p ∈ ps, p.1 ≤ p.2) :
    covered (insertInterval bgn fin ps) = Set.Ico bgn fin ∪ covered ps := by
  induction ps generalizing bgn fin with
  | nil => simp [insertInterval]
  | cons p ps ih =>
    have hle := hp p (by simp)
    have hps : ∀ q ∈ ps, q.1 ≤ q.2 := fun q hq => hp q (by simp [hq])
    rw [insertInterval]
    split_ifs with h1 h2
    · simp
    · rw [covered_cons, ih bgn fin h hps, covered_cons]
      exact Set.union_left_comm _ _ _
    · have hm : min bgn p.1 ≤ max fin p.2 := (min_le_left _ _).trans (h.trans (le_max_left _ _))
      rw [ih _ _ hm hps, hull_Ico (not_lt.mp h2) (not_lt.mp h1), covered_cons,
        Set.union_assoc]

/-- What holds of the stored intervals and of the inserted one, and of the hull
of two intervals of which it holds, holds of the intervals after the insertion. -/
theorem insert_forall {P : α × α → Prop}
    (hull : ∀ p q, P p → P q → P (min p.1 q.1,max p.2 q.2)) (bgn fin : α) (h : P (bgn,fin))
    (ps : List (α × α)) (hp : ∀ p ∈ ps, P p) : ∀ p ∈ insertInterval bgn fin ps, P p := by
  induction ps generalizing bgn fin with
  | nil => exact List.forall_mem_singleton.mpr h
  | cons q ps ih =>
    obtain ⟨hq,hps⟩ := List.forall_mem_cons.mp hp
    rw [insertInterval]
    split_ifs with h1 h2
    · exact List.forall_mem_cons.mpr ⟨h,hp⟩
    · exact List.forall_mem_cons.mpr ⟨hq,ih bgn fin h hps⟩
    · exact ih _ _ (hull _ q h hq) hps

/-- What lies strictly above an interval stays above it after an insertion
that starts above it. -/
theorem insert_above (c bgn fin : α) (ps : List (α × α)) (hb : c < bgn)
    (hp : ∀ q ∈ ps, c < q.1) : ∀ q ∈ insertInterval bgn fin ps, c < q.1 :=
  insert_forall (P := fun q => c < q.1) (fun _ _ h h' => lt_min h h') bgn fin hb ps hp

theorem insert_canonical (bgn fin : α) (h : bgn ≤ fin) (ps : List (α × α))
    (hp : Canonical ps) : Canonical (insertInterval bgn fin ps) := by
  induction ps generalizing bgn fin with
  | nil => exact canonical_singleton bgn fin h
  | cons p ps ih =>
    obtain ⟨hle,hlt,hps⟩ := canonical_cons.mp hp
    rw [insertInterval]
    split_ifs with h1 h2
    · refine canonical_cons.mpr ⟨h,?_,hp⟩
      intro q hq
      rcases List.mem_cons.mp hq with rfl | hq
      · exact h1
      · exact h1.trans (hle.trans_lt (hlt q hq))
    · exact canonical_cons.mpr ⟨hle,insert_above p.2 bgn fin ps h2 hlt,ih bgn fin h hps⟩
    · exact ih _ _ ((min_le_left _ _).trans (h.trans (le_max_left _ _))) hps

theorem insert_ne_nil (bgn fin : α) (ps : List (α × α)) : insertInterval bgn fin ps ≠ [] := by
  induction ps generalizing bgn fin with
  | nil => simp [insertInterval]
  | cons p ps ih =>
    rw [insertInterval]
    split_ifs with h1 h2
    · simp
    · simp
    · exact ih _ _

/-- Intervals that are not empty stay so. -/
theorem insert_proper (bgn fin : α) (h : bgn < fin) (ps : List (α × α))
    (hp : ∀ p ∈ ps, p.1 < p.2) : ∀ p ∈ insertInterval bgn fin ps, p.1 < p.2 :=
  insert_forall (P := fun p => p.1 < p.2)
    (fun _ _ h _ => (min_le_left _ _).trans_lt (h.trans_le (le_max_left _ _))) bgn fin h ps hp

/-- The begin of the last interval is not covered once that interval is cut
short from the left. -/
theorem last_begin_not_covered {ps qs : List (α × α)} {bgn fin : α}
    (hc : Canonical (ps++[(bgn,fin)])) (hq : ∀ q ∈ qs, bgn < q.1) :
    bgn ∉ covered (ps++qs) := by
  rintro ⟨p,hp,hl,hr⟩
  rcases List.mem_append.mp hp with hp | hp
  · have hlt := (List.pairwise_append.mp hc.2).2.2 p hp (bgn,fin) (by simp)
    exact lt_asymm hr hlt
  · exact not_lt.mpr hl (hq p hp)

/-- Insertion before the first stored interval only adds to the front. -/
theorem insert_below (bgn fin : α) (ps : List (α × α)) (h : ∀ q ∈ ps, fin < q.1) :
    insertInterval bgn fin ps = (bgn,fin)::ps := by
  cases ps with
  | nil => rfl
  | cons p ps => simp [insertInterval, h p (by simp)]

theorem separated {ps : List (α × α)} (hc : Canonical ps) {p q : α × α} (hp : p ∈ ps)
    (hq : q ∈ ps) : p = q ∨ p.2 < q.1 ∨ q.2 < p.1 := by
  induction ps with
  | nil => simp at hp
  | cons r ps ih =>
    obtain ⟨_,hlt,hps⟩ := canonical_cons.mp hc
    rcases List.mem_cons.mp hp with hpr | hps'
    · rcases List.mem_cons.mp hq with hqr | hqs
      · exact Or.inl (hpr.trans hqr.symm)
      · exact Or.inr (Or.inl (hpr ▸ hlt q hqs))
    · rcases List.mem_cons.mp hq with hqr | hqs
      · exact Or.inr (Or.inr (hqr ▸ hlt p hps'))
      · exact ih hps hps' hqs

theorem end_not_covered {ps : List (α × α)} (hc : Canonical ps) {p : α × α} (hp : p ∈ ps) :
    p.2 ∉ covered ps := by
  induction ps with
  | nil => simp at hp
  | cons q ps ih =>
    obtain ⟨hle,hlt,hps⟩ := canonical_cons.mp hc
    rw [covered_cons]
    rintro (hx | ⟨r,hr,hrl,hrr⟩)
    · rcases List.mem_cons.mp hp with rfl | hp
      · exact lt_irrefl _ hx.2
      · exact lt_asymm hx.2 ((hlt p hp).trans_le (hps.1 p hp))
    · rcases List.mem_cons.mp hp with rfl | hp
      · exact not_lt.mpr hrl (hlt r hr)
      · exact ih hps hp ⟨r,hr,hrl,hrr⟩

/-- Nothing below the first interval is covered. -/
theorem not_covered_below {p : α × α} {ps : List (α × α)} (hc : Canonical (p::ps)) {x : α}
    (hx : x < p.1) : x ∉ covered (p::ps) := by
  obtain ⟨hle,hlt,_⟩ := canonical_cons.mp hc
  rintro ⟨q,hq,hl,_⟩
  rcases List.mem_cons.mp hq with rfl | hq
  · exact not_lt.mpr hl hx
  · exact not_lt.mpr hl (hx.trans (hle.trans_lt (hlt q hq)))

/-- Every stored interval lies in one that is stored after an insertion, and
so does the inserted one. -/
theorem insert_absorbs (bgn fin : α) (ps : List (α × α)) : ∀ p ∈ (bgn,fin)::ps,
    ∃ q ∈ insertInterval bgn fin ps, q.1 ≤ p.1 ∧ p.2 ≤ q.2 := by
  induction ps generalizing bgn fin with
  | nil => exact fun p hp => ⟨p,hp,le_refl _,le_refl _⟩
  | cons r ps ih =>
    intro p hp
    rw [insertInterval]
    split_ifs with h1 h2
    · exact ⟨p,hp,le_refl _,le_refl _⟩
    · by_cases hr : p = r
      · exact ⟨r,by simp,by rw [hr],by rw [hr]⟩
      · have hrest : p ∈ (bgn,fin)::ps := by
          rcases List.mem_cons.mp hp with rfl | hp
          · simp
          · exact List.mem_cons_of_mem _ ((List.mem_cons.mp hp).resolve_left hr)
        obtain ⟨q,hq,hin⟩ := ih bgn fin p hrest
        exact ⟨q,List.mem_cons_of_mem _ hq,hin⟩
    · obtain ⟨q,hq,hl,hr⟩ := ih (min bgn r.1) (max fin r.2) _ List.mem_cons_self
      rcases List.mem_cons.mp hp with rfl | hp
      · exact ⟨q,hq,hl.trans (min_le_left _ _),(le_max_left _ _).trans hr⟩
      · rcases List.mem_cons.mp hp with rfl | hp
        · exact ⟨q,hq,hl.trans (min_le_right _ _),(le_max_right _ _).trans hr⟩
        · exact ih _ _ p (List.mem_cons_of_mem _ hp)

/-- An upper bound of the ends stays one. -/
theorem insert_top (top bgn fin : α) (h : fin ≤ top) (ps : List (α × α))
    (hp : ∀ p ∈ ps, p.2 ≤ top) : ∀ p ∈ insertInterval bgn fin ps, p.2 ≤ top :=
  insert_forall (P := fun p => p.2 ≤ top) (fun _ _ h h' => max_le h h') bgn fin h ps hp

end IntervalList
