import Mathlib.Data.Multiset.Count
import Mathlib.Data.Multiset.AddSub

/-!
# Copies on the ways of a rooted forest

Each member has at most one parent, further up. A copy goes over one connection
at a time, up to the parent or down to the member. Ahead of it are the members
that it and what is made of it can come to when nothing goes back. Where a copy
ends it makes way for at most one on each way that goes on: so each member gets
at most one, and just one if no way to it is left out.
-/

set_option autoImplicit false

structure ParentTree (μ : Type*) where
  parent : μ → Option μ
  level : μ → ℕ
  above : ∀ m p, parent m = some p → level p < level m

namespace ParentTree

variable {μ : Type*} (t : ParentTree μ)

/-- The second member is the first one or below it. -/
inductive Below : μ → μ → Prop where
  | refl (m : μ) : Below m m
  | step {a m p : μ} : t.parent m = some p → Below a p → Below a m

def Joined (m x : μ) : Prop := ∃ a, t.Below a m ∧ t.Below a x

variable {t}

theorem below_iff {a m : μ} : t.Below a m ↔ m = a ∨ ∃ p, t.parent m = some p ∧ t.Below a p := by
  constructor
  · intro h
    cases h with
    | refl => exact .inl rfl
    | step hp h => exact .inr ⟨_,hp,h⟩
  · rintro (rfl | ⟨p,hp,h⟩)
    · exact .refl m
    · exact .step hp h

theorem below_trans {a b m : μ} (hab : t.Below a b) (h : t.Below b m) : t.Below a m := by
  induction h with
  | refl => exact hab
  | step hp _ ih => exact .step hp ih

theorem below_level {a m : μ} (h : t.Below a m) : m = a ∨ t.level a < t.level m := by
  induction h with
  | refl => exact .inl rfl
  | step hp _ ih =>
    have hup := t.above _ _ hp
    rcases ih with rfl | hlt
    · exact .inr hup
    · exact .inr (hlt.trans hup)

theorem not_below_parent {m p : μ} (hp : t.parent m = some p) : ¬ t.Below m p := by
  intro h
  have hup := t.above _ _ hp
  rcases below_level h with rfl | hlt
  · exact lt_irrefl _ hup
  · exact lt_asymm hup hlt

/-- What a member is below stands in a chain. -/
theorem below_chain {a b m : μ} (ha : t.Below a m) (hb : t.Below b m) :
    t.Below a b ∨ t.Below b a := by
  induction ha with
  | refl => exact .inr hb
  | step hp ha ih =>
    rcases below_iff.mp hb with rfl | ⟨q,hq,hb⟩
    · exact .inl (.step hp ha)
    · obtain rfl := Option.some.inj (hp.symm.trans hq)
      exact ih hb

/-- Below a member are itself and what is below its children. -/
theorem below_child {v x : μ} :
    t.Below v x ↔ x = v ∨ ∃ c, t.parent c = some v ∧ t.Below c x := by
  constructor
  · intro h
    induction h with
    | refl => exact .inl rfl
    | @step m p hp _ ih =>
      rcases ih with rfl | ⟨c,hc,hbelow⟩
      · exact .inr ⟨m,hp,.refl m⟩
      · exact .inr ⟨c,hc,.step hp hbelow⟩
  · rintro (rfl | ⟨c,hc,hbelow⟩)
    · exact .refl x
    · exact below_trans (.step hc (.refl v)) hbelow

theorem siblings {v c d x : μ} (hc : t.parent c = some v) (hd : t.parent d = some v)
    (hcx : t.Below c x) (hdx : t.Below d x) : c = d := by
  have hup {c d : μ} (hc : t.parent c = some v) (hd : t.parent d = some v)
      (h : t.Below c d) : c = d := by
    rcases below_iff.mp h with rfl | ⟨p,hp,hbelow⟩
    · rfl
    · obtain rfl := Option.some.inj (hd.symm.trans hp)
      exact absurd hbelow (not_below_parent hc)
  rcases below_chain hcx hdx with h | h
  · exact hup hc hd h
  · exact (hup hd hc h).symm

/-! ## Ways -/

inductive Way (μ : Type*) where
  | up (m : μ)
  | down (m : μ)
  deriving DecidableEq

namespace Way

/-- The same connection in the other direction. -/
def back : Way μ → Way μ
  | up m => down m
  | down m => up m

variable (t) in
def Ends : Way μ → μ → Prop
  | up m, v => t.parent m = some v
  | down m, v => m = v

instance [DecidableEq μ] (w : Way μ) (v : μ) : Decidable (w.Ends t v) :=
  match w with
  | up m => inferInstanceAs (Decidable (t.parent m = some v))
  | down m => inferInstanceAs (Decidable (m = v))

variable (t) in
def Leaves (v : μ) : Way μ → Prop
  | up m => m = v ∧ ∃ p, t.parent v = some p
  | down m => t.parent m = some v

variable (t) in
def Ahead : Way μ → μ → Prop
  | up m, x => ¬ t.Below m x ∧ t.Joined m x
  | down m, x => t.Below m x

/-- Ahead of a copy is where it ends, and what is ahead of the other ways from there. -/
theorem ahead_iff {w : Way μ} {v x : μ} (he : w.Ends t v) :
    w.Ahead t x ↔ x = v ∨ ∃ w' : Way μ, w'.Leaves t v ∧ w' ≠ w.back ∧ w'.Ahead t x := by
  cases w with
  | down m =>
    obtain rfl : m = v := he
    rw [Ahead, below_child]
    refine or_congr_right ⟨?_,?_⟩
    · rintro ⟨c,hc,hbelow⟩
      exact ⟨down c,hc,by simp [back],hbelow⟩
    · rintro ⟨w',hl,hne,ha⟩
      cases w' with
      | up m' => exact absurd (congrArg up hl.1) hne
      | down c => exact ⟨c,hl,ha⟩
  | up c =>
    have hc : t.parent c = some v := he
    constructor
    · rintro ⟨hnot,a,hac,hax⟩
      by_cases hv : t.Below v x
      · rcases below_child.mp hv with rfl | ⟨d,hd,hdx⟩
        · exact .inl rfl
        · refine .inr ⟨down d,hd,?_,hdx⟩
          rintro ⟨⟩
          exact hnot hdx
      · have hav : t.Below a v := by
          rcases below_iff.mp hac with rfl | ⟨p,hp,hap⟩
          · exact absurd hax hnot
          · obtain rfl := Option.some.inj (hc.symm.trans hp)
            exact hap
        rcases below_iff.mp hav with rfl | ⟨p,hp,-⟩
        · exact absurd hax hv
        · exact .inr ⟨up v,⟨rfl,p,hp⟩,by simp [back],hv,a,hav,hax⟩
    · rintro (rfl | ⟨w',hl,hne,ha⟩)
      · exact ⟨not_below_parent hc,x,.step hc (.refl x),.refl x⟩
      · cases w' with
        | up m' =>
          obtain ⟨rfl,-⟩ := hl
          obtain ⟨hnot,a,hav,hax⟩ := ha
          exact ⟨fun hcx => hnot (below_trans (.step hc (.refl m')) hcx),a,.step hc hav,hax⟩
        | down d =>
          refine ⟨fun hcx => hne ?_,v,.step hc (.refl v),below_trans (.step hl (.refl v)) ha⟩
          rw [siblings hc hl hcx ha]
          rfl

theorem not_ahead_leaves {w : Way μ} {v : μ} (hl : w.Leaves t v) : ¬ w.Ahead t v := by
  cases w with
  | up m =>
    obtain ⟨rfl,-⟩ := hl
    exact fun h => h.1 (.refl m)
  | down m => exact not_below_parent hl

/-- Nothing is ahead of two ways from one member. -/
theorem ahead_unique {w w' : Way μ} {v x : μ} (hl : w.Leaves t v) (hl' : w'.Leaves t v)
    (ha : w.Ahead t x) (ha' : w'.Ahead t x) : w = w' := by
  have hcross {m c : μ} (hm : (up m).Leaves t v) (hc : (down c).Leaves t v)
      (ha : (up m).Ahead t x) (ha' : (down c).Ahead t x) : False := by
    obtain ⟨rfl,-⟩ := hm
    exact ha.1 (below_trans (.step hc (.refl m)) ha')
  cases w with
  | up m =>
    cases w' with
    | up m' =>
      obtain ⟨rfl,-⟩ := hl
      obtain ⟨rfl,-⟩ := hl'
      rfl
    | down c => exact (hcross hl hl' ha ha').elim
  | down c =>
    cases w' with
    | up m' => exact (hcross hl' hl ha' ha).elim
    | down d => rw [siblings hl hl' ha ha']

@[simp] theorem back_back (w : Way μ) : w.back.back = w := by cases w <;> rfl

theorem leaves_back {w : Way μ} {v x : μ} (he : w.Ends t v) (ha : w.back.Ahead t x) :
    w.back.Leaves t v := by
  cases w with
  | up c => exact he
  | down m =>
    obtain rfl : m = v := he
    obtain ⟨hnot,a,hav,hax⟩ := ha
    rcases below_iff.mp hav with rfl | ⟨p,hp,-⟩
    · exact absurd hax hnot
    · exact ⟨rfl,p,hp⟩

/-- What is behind a copy is behind those that it makes way for. -/
theorem behind_pass {w w' : Way μ} {v x : μ} (he : w.Ends t v) (hl : w'.Leaves t v)
    (hne : w' ≠ w.back) (ha : w.back.Ahead t x) : w'.back.Ahead t x := by
  have he' : w'.back.Ends t v := by
    cases w' with
    | up m => exact hl.1
    | down c => exact hl
  refine (ahead_iff he').mpr (.inr ⟨w.back,leaves_back he ha,?_,ha⟩)
  rw [back_back]
  exact hne.symm

end Way

/-! ## Accounting -/

section Coming

open scoped Classical

/-- How many of the copies have the member ahead. -/
noncomputable def coming (t : ParentTree μ) (x : μ) (ways : Multiset (Way μ)) : ℕ :=
  ways.countP fun w => w.Ahead t x

variable {x v : μ} {w : Way μ} {ws ws' : Multiset (Way μ)}

@[simp] theorem coming_zero : t.coming x 0 = 0 := Multiset.countP_zero _

theorem coming_add : t.coming x (ws+ws') = t.coming x ws+t.coming x ws' :=
  Multiset.countP_add _ _ _

theorem coming_cons : t.coming x (w ::ₘ ws) = t.coming x ws+t.coming x {w} := by
  rw [← Multiset.singleton_add, coming_add, Nat.add_comm]

theorem coming_singleton : t.coming x {w} = if w.Ahead t x then 1 else 0 := by
  rw [coming, ← Multiset.cons_zero, Multiset.countP_cons, Multiset.countP_zero, Nat.zero_add]

theorem coming_pos : 0 < t.coming x ws ↔ ∃ w ∈ ws, w.Ahead t x := Multiset.countP_pos

theorem coming_all (h : ∀ w ∈ ws, w.Ahead t x) : t.coming x ws = ws.card :=
  Multiset.countP_eq_card.mpr h

/-- The copies on different ways from one member share no member. -/
theorem coming_leaves (hnodup : ws.Nodup) (hl : ∀ w ∈ ws, w.Leaves t v) :
    t.coming x ws ≤ 1 := by
  induction ws using Multiset.induction with
  | empty => simp
  | cons w ws ih =>
    obtain ⟨hw,hnodup⟩ := Multiset.nodup_cons.mp hnodup
    have hrest := ih hnodup fun w' hw' => hl w' (Multiset.mem_cons_of_mem hw')
    rw [coming_cons, coming_singleton]
    split_ifs with ha
    · have hnone : t.coming x ws = 0 := by
        by_contra hpos
        obtain ⟨w',hw',ha'⟩ := coming_pos.mp (Nat.pos_of_ne_zero hpos)
        have hsame := Way.ahead_unique (hl w (Multiset.mem_cons_self w ws))
          (hl w' (Multiset.mem_cons_of_mem hw')) ha ha'
        exact hw (hsame ▸ hw')
      omega
    · exact hrest

/-- A copy makes way for others. -/
theorem coming_pass [DecidableEq μ] (he : w.Ends t v) (hnodup : ws.Nodup)
    (hl : ∀ w' ∈ ws, w'.Leaves t v ∧ w' ≠ w.back) :
    Multiset.count x {v}+t.coming x ws ≤ t.coming x {w} := by
  have hle := coming_leaves (x := x) hnodup (fun w' h => (hl w' h).1)
  have hahead : 0 < t.coming x ws → w.Ahead t x := by
    intro hpos
    obtain ⟨w',hw',ha⟩ := coming_pos.mp hpos
    exact (Way.ahead_iff he).mpr (.inr ⟨w',(hl w' hw').1,(hl w' hw').2,ha⟩)
  have hself : x = v → t.coming x ws = 0 := by
    rintro rfl
    by_contra hpos
    obtain ⟨w',hw',ha⟩ := coming_pos.mp (Nat.pos_of_ne_zero hpos)
    exact Way.not_ahead_leaves (hl w' hw').1 ha
  rw [Multiset.count_singleton, coming_singleton]
  by_cases hx : x = v
  · rw [if_pos hx, hself hx, if_pos ((Way.ahead_iff he).mpr (.inl hx))]
  · rw [if_neg hx, Nat.zero_add]
    split_ifs with ha
    · exact hle
    · exact Nat.le_of_not_lt fun hpos => ha (hahead hpos)

/-- Nothing is left out when the way on to the member is among the new ones. -/
theorem coming_pass_eq [DecidableEq μ] (he : w.Ends t v) (hnodup : ws.Nodup)
    (hl : ∀ w' ∈ ws, w'.Leaves t v ∧ w' ≠ w.back)
    (hall : ∀ w' : Way μ, w'.Leaves t v → w' ≠ w.back → w'.Ahead t x → w' ∈ ws) :
    Multiset.count x {v}+t.coming x ws = t.coming x {w} := by
  refine le_antisymm (coming_pass he hnodup hl) ?_
  rw [coming_singleton]
  split_ifs with ha
  · rcases (Way.ahead_iff he).mp ha with rfl | ⟨w',hl',hne,ha'⟩
    · simp
    · have hpos := coming_pos.mpr ⟨w',hall w' hl' hne ha',ha'⟩
      omega
  · exact Nat.zero_le _

end Coming

end ParentTree
