import Mathlib.Data.List.Nodup
import Mathlib.Data.Sym.Sym2

/-!
# Lists of labelled links

A list of records, each of which links two points and carries a label. With at
most one record for two points the list is a map from unordered pairs to
labels.
-/

set_option autoImplicit false

namespace LinkList

variable {α κ ρ : Type*} [DecidableEq α] (ends : ρ → Sym2 α) (label : ρ → κ)

/-- No two points are linked twice. -/
def Simple (rs : List ρ) : Prop := (rs.map ends).Nodup

def labelAt (rs : List ρ) (e : Sym2 α) : Option κ :=
  (rs.find? fun r => ends r = e).map label

variable {ends label} {rs : List ρ} {r : ρ} {e e' : Sym2 α} {a : α}

theorem labelAt_nil : labelAt ends label [] e = none := rfl

theorem labelAt_cons : labelAt ends label (r::rs) e =
    if ends r = e then some (label r) else labelAt ends label rs e := by
  unfold labelAt
  rw [List.find?_cons]
  by_cases h : ends r = e <;> simp [h]

theorem labelAt_eq_none : labelAt ends label rs e = none ↔ ∀ r ∈ rs, ends r ≠ e := by
  simp [labelAt]

omit [DecidableEq α] in
theorem simple_nil : Simple ends [] := List.nodup_nil

/-- A link between points that were not linked. -/
theorem simple_append (h : Simple ends rs) (hnew : labelAt ends label rs (ends r) = none) :
    Simple ends (rs++[r]) := by
  rw [Simple, List.map_append]
  refine List.nodup_append.mpr ⟨h,List.nodup_singleton _,?_⟩
  rintro e he e' he' rfl
  obtain ⟨s,hs,hse⟩ := List.mem_map.mp he
  exact labelAt_eq_none.mp hnew s hs (hse.trans (List.mem_singleton.mp he'))

theorem labelAt_append (hnew : labelAt ends label rs (ends r) = none) :
    labelAt ends label (rs++[r]) e =
      if ends r = e then some (label r) else labelAt ends label rs e := by
  induction rs with
  | nil => exact labelAt_cons
  | cons s rs ih =>
    rw [labelAt_cons] at hnew
    rw [List.cons_append, labelAt_cons, labelAt_cons]
    split_ifs at hnew with hs
    rw [ih hnew]
    split_ifs with hse hre
    · exact absurd (hse.trans hre.symm) hs
    · rfl
    · rfl
    · rfl

/-- The record that is found for two points is there. -/
theorem labelAt_place {i : ℕ} (hi : rs.findIdx? (fun r => ends r = e) = some i) :
    ∃ r, rs[i]? = some r ∧ ends r = e ∧ labelAt ends label rs e = some (label r) := by
  induction rs generalizing i with
  | nil => cases hi
  | cons s rs ih =>
    rw [List.findIdx?_cons] at hi
    by_cases hs : ends s = e
    · rw [if_pos (by simpa using hs)] at hi
      obtain rfl := Option.some.inj hi
      exact ⟨s,rfl,hs,by rw [labelAt_cons, if_pos hs]⟩
    · rw [if_neg (by simpa using hs)] at hi
      obtain ⟨j,hj,rfl⟩ := Option.map_eq_some_iff.mp hi
      obtain ⟨r,hr,hre,hat⟩ := ih hj
      exact ⟨r,hr,hre,by rw [labelAt_cons, if_neg hs, hat]⟩

/-- The record that is found for two points is changed but for its ends. -/
theorem labelAt_modify {f : ρ → ρ} (hf : ∀ r, ends (f r) = ends r) {i : ℕ}
    (hi : rs.findIdx? (fun r => ends r = e) = some i) (hr : rs[i]? = some r) :
    labelAt ends label (rs.modify i f) e' =
      if e = e' then some (label (f r)) else labelAt ends label rs e' := by
  induction rs generalizing i with
  | nil => cases hi
  | cons s rs ih =>
    rw [List.findIdx?_cons] at hi
    by_cases hs : ends s = e
    · rw [if_pos (by simpa using hs)] at hi
      obtain rfl := Option.some.inj hi
      obtain rfl := Option.some.inj hr
      rw [List.modify_zero_cons, labelAt_cons, labelAt_cons, hf, hs]
      split_ifs <;> rfl
    · rw [if_neg (by simpa using hs)] at hi
      obtain ⟨j,hj,rfl⟩ := Option.map_eq_some_iff.mp hi
      rw [List.modify_succ_cons, labelAt_cons, labelAt_cons, ih hj hr]
      split_ifs with hse he
      · exact absurd (hse.trans he.symm) hs
      · rfl
      · rfl
      · rfl

omit [DecidableEq α] in
theorem map_ends_modify {f : ρ → ρ} (hf : ∀ r, ends (f r) = ends r) (rs : List ρ) (i : ℕ) :
    (rs.modify i f).map ends = rs.map ends := by
  induction rs generalizing i with
  | nil => simp
  | cons s rs ih =>
    cases i with
    | zero => simp [hf]
    | succ i => simp [ih]

omit [DecidableEq α] in
theorem simple_modify {f : ρ → ρ} (hf : ∀ r, ends (f r) = ends r) {i : ℕ} (h : Simple ends rs) :
    Simple ends (rs.modify i f) := by
  rw [Simple, map_ends_modify hf]
  exact h

omit [DecidableEq α] in
theorem simple_filter (p : ρ → Bool) (h : Simple ends rs) : Simple ends (rs.filter p) :=
  h.sublist (List.filter_sublist.map ends)

/-- The links of a point are dropped. -/
theorem labelAt_drop {p : ρ → Bool} (hp : ∀ r, p r = true ↔ a ∉ ends r) :
    labelAt ends label (rs.filter p) e = if a ∈ e then none else labelAt ends label rs e := by
  induction rs with
  | nil => simp [labelAt_nil]
  | cons s rs ih =>
    rw [labelAt_cons, List.filter_cons]
    by_cases hs : p s = true
    · rw [if_pos hs, labelAt_cons, ih]
      split_ifs with hse he
      · exact absurd (hse ▸ he) ((hp s).mp hs)
      · rfl
      · rfl
      · rfl
    · rw [if_neg hs, ih]
      split_ifs with he hse
      · rfl
      · exact absurd (fun hin => he (hse ▸ hin)) (fun hout => hs ((hp s).mpr hout))
      · rfl

end LinkList

/-! ## Views

A view of the links that is brought up to date point by point: a point is
marked when one of its links may have changed since.
-/

namespace LinkView

variable {α κ : Type*} {marked marked' : α → Prop} {truth truth' view : Sym2 α → κ} {a : α}

/-- The view is right but for the links of marked points. -/
def Fresh (marked : α → Prop) (truth view : Sym2 α → κ) : Prop :=
  ∀ e, view e ≠ truth e → ∃ a ∈ e, marked a

theorem fresh_refl : Fresh marked truth truth := fun _ hne => absurd rfl hne

theorem fresh_change (h : Fresh marked truth view) (hm : ∀ a, marked a → marked' a)
    (hc : ∀ e, truth' e ≠ truth e → ∃ a ∈ e, marked' a) : Fresh marked' truth' view := by
  intro e hne
  by_cases he : truth' e = truth e
  · obtain ⟨a,ha,hma⟩ := h e (he ▸ hne)
    exact ⟨a,ha,hm a hma⟩
  · exact hc e he

variable [DecidableEq α]

/-- The links of the point are read again. -/
def reread (truth : Sym2 α → κ) (a : α) (view : Sym2 α → κ) : Sym2 α → κ :=
  fun e => if a ∈ e then truth e else view e

theorem fresh_reread (h : Fresh marked truth view) (hm : ∀ b, marked b → b = a ∨ marked' b) :
    Fresh marked' truth (reread truth a view) := by
  intro e hne
  unfold reread at hne
  split_ifs at hne with ha
  · exact absurd rfl hne
  · obtain ⟨b,hb,hmb⟩ := h e hne
    rcases hm b hmb with rfl | hm'
    · exact absurd hb ha
    · exact ⟨b,hb,hm'⟩

/-- The view is right when the links of all marked points are read again. -/
theorem reread_all (h : Fresh marked truth view) {as : List α} (hall : ∀ a, marked a → a ∈ as) :
    as.foldl (fun view a => reread truth a view) view = truth := by
  induction as generalizing marked view with
  | nil =>
    funext e
    by_contra hne
    obtain ⟨a,-,ha⟩ := h e hne
    exact List.not_mem_nil (hall a ha)
  | cons a as ih =>
    have hnext : Fresh (fun b => marked b ∧ b ∈ as) truth (reread truth a view) := by
      refine fresh_reread h fun b hb => ?_
      rcases List.mem_cons.mp (hall b hb) with rfl | hin
      · exact Or.inl rfl
      · exact Or.inr ⟨hb,hin⟩
    exact ih hnext fun b hb => hb.2

end LinkView
