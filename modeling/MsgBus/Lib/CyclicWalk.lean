import Mathlib.Data.List.Basic
import Mathlib.Tactic.SplitIfs

/-!
# Walks of a list by an index that stays

A walk visits the entry at the index and moves on, goes back to the front when
the index is past the end, and stops when an entry gives something or the index
is where the walk began. The index stays for the next walk, so a walk may begin
anywhere up to the end of the list, which may have grown in between. A visit
may change data that it passes on; what an entry gives does not depend on it.
-/

set_option autoImplicit false

namespace CyclicWalk

variable {α β δ : Type*}

structure Outcome (α β δ : Type*) where
  index : ℕ
  found : Option (α × β)
  data : δ
  visited : List α

namespace Outcome

def visit (x : α) (o : Outcome α β δ) : Outcome α β δ := { o with visited := x::o.visited }

end Outcome

/-- The loop: with the index inside of the list the entry is visited and the
index goes up, else it goes to the front; it ends where it is `prev` again. -/
def walk (visit : δ → α → Option β × δ) (xs : List α) (prev : ℕ) :
    ℕ → ℕ → δ → Option (Outcome α β δ)
  | 0, _, _ => none
  | fuel+1, index, data =>
    match xs[index]? with
    | some x =>
      match visit data x with
      | (some found,data) => some ⟨index+1,some (x,found),data,[x]⟩
      | (none,data) =>
        if index+1 = prev then some ⟨index+1,none,data,[x]⟩
        else (walk visit xs prev fuel (index+1) data).map (Outcome.visit x)
    | none =>
      if 0 = prev then some ⟨0,none,data,[]⟩
      else walk visit xs prev fuel 0 data

/-- What an entry gives is the same for all data that meets the invariant,
which each visit keeps. -/
structure Steady (visit : δ → α → Option β × δ) (inv : δ → Prop) (answer : α → Option β) :
    Prop where
  answers : ∀ {data} x, inv data → (visit data x).1 = answer x
  keeps : ∀ {data} x, inv data → inv (visit data x).2

/-- A walk in a given order: it went to the first entry that gives something
or, if there is none, through all of them and back to where it began. -/
structure Walked (visit : δ → α → Option β × δ) (inv : δ → Prop) (answer : α → Option β)
    (size prev : ℕ) (order : List α) (o : Outcome α β δ) : Prop where
  inside : o.index ≤ size
  nothing : o.found = none → o.index = prev ∧ o.visited = order ∧ ∀ x ∈ order, answer x = none
  something : ∀ x found, o.found = some (x,found) → answer x = some found ∧
    (∃ data, inv data ∧ (visit data x).2 = o.data) ∧
    ∃ front rest, order = front ++ x::rest ∧ o.visited = front ++ [x]

variable {visit : δ → α → Option β × δ} {inv : δ → Prop} {answer : α → Option β}
  {xs order : List α} {size prev : ℕ} {o : Outcome α β δ}

theorem Walked.cons (h : Walked visit inv answer size prev order o) {x : α}
    (hx : answer x = none) : Walked visit inv answer size prev (x::order) (o.visit x) where
  inside := h.inside
  nothing := by
    intro hnone
    obtain ⟨hindex,hvisited,hall⟩ := h.nothing hnone
    refine ⟨hindex,congrArg (x :: ·) hvisited,fun y hy => ?_⟩
    rcases List.mem_cons.mp hy with rfl | hy
    · exact hx
    · exact hall y hy
  something := by
    intro y found hfound
    obtain ⟨hanswer,hdata,front,rest,horder,hvisited⟩ := h.something y found hfound
    exact ⟨hanswer,hdata,x::front,rest,congrArg (x :: ·) horder,congrArg (x :: ·) hvisited⟩

/-- The walk ends at an entry that gives something. -/
theorem walked_found (hs : Steady visit inv answer) {data : δ} (hd : inv data) {x : α} {found : β}
    {data' : δ} (hv : visit data x = (some found,data')) {index : ℕ} (hindex : index < size) :
    Walked visit inv answer size prev (x::order) ⟨index+1,some (x,found),data',[x]⟩ where
  inside := hindex
  nothing := by
    intro hnone
    cases hnone
  something := by
    intro y found' heq
    obtain ⟨rfl,rfl⟩ := Prod.mk.inj (Option.some.inj heq)
    refine ⟨?_,⟨data,hd,by rw [hv]⟩,[],order,rfl,rfl⟩
    rw [← hs.answers x hd, hv]

/-- The walk ends where it began after a last entry that gives nothing. -/
theorem walked_last {data : δ} {x : α} (hx : answer x = none) (hprev : prev ≤ size) :
    Walked visit inv answer size prev [x] ⟨prev,none,data,[x]⟩ where
  inside := hprev
  nothing := fun _ => ⟨rfl,rfl,fun y hy => List.mem_singleton.mp hy ▸ hx⟩
  something := by
    intro y found heq
    cases heq

theorem visit_none (hs : Steady visit inv answer) {data : δ} (hd : inv data) {x : α} {data' : δ}
    (hv : visit data x = (none,data')) : answer x = none ∧ inv data' := by
  have ha := hs.answers x hd
  have hk := hs.keeps x hd
  rw [hv] at ha hk
  exact ⟨ha.symm,hk⟩

section Steps

variable {index fuel : ℕ} {data data' : δ} (hlt : index < xs.length)

include hlt

theorem walk_found {found : β} (hv : visit data xs[index] = (some found,data'))
    (hfuel : 0 < fuel) : walk visit xs prev fuel index data =
      some ⟨index+1,some (xs[index],found),data',[xs[index]]⟩ := by
  obtain ⟨fuel,rfl⟩ := Nat.exists_eq_add_of_lt hfuel
  simp only [walk, List.getElem?_eq_getElem hlt, hv]

theorem walk_last (hv : visit data xs[index] = (none,data')) (hprev : index+1 = prev)
    (hfuel : 0 < fuel) :
    walk visit xs prev fuel index data = some ⟨prev,none,data',[xs[index]]⟩ := by
  obtain ⟨fuel,rfl⟩ := Nat.exists_eq_add_of_lt hfuel
  simp only [walk, List.getElem?_eq_getElem hlt, hv]
  rw [if_pos hprev, hprev]

theorem walk_next (hv : visit data xs[index] = (none,data')) (hne : index+1 ≠ prev)
    (hfuel : 0 < fuel) : walk visit xs prev fuel index data =
      (walk visit xs prev (fuel-1) (index+1) data').map (Outcome.visit xs[index]) := by
  obtain ⟨fuel,rfl⟩ := Nat.exists_eq_add_of_lt hfuel
  simp only [walk, List.getElem?_eq_getElem hlt, hv]
  rw [if_neg hne]
  simp

end Steps

/-- Past the end the walk goes on from the front. -/
theorem walk_wrap {index fuel : ℕ} {data : δ} (hend : xs.length ≤ index) (hne : prev ≠ 0)
    (hfuel : 0 < fuel) :
    walk visit xs prev fuel index data = walk visit xs prev (fuel-1) 0 data := by
  obtain ⟨fuel,rfl⟩ := Nat.exists_eq_add_of_lt hfuel
  simp only [walk, List.getElem?_eq_none hend]
  rw [if_neg hne.symm]
  simp

theorem walk_end {index fuel : ℕ} {data : δ} (hend : xs.length ≤ index) (hfuel : 0 < fuel) :
    walk visit xs 0 fuel index data = some ⟨0,none,data,[]⟩ := by
  obtain ⟨fuel,rfl⟩ := Nat.exists_eq_add_of_lt hfuel
  simp only [walk, List.getElem?_eq_none hend, if_true]

/-- With more fuel than `n` a walk comes to its end in the given order. -/
def Comes (visit : δ → α → Option β × δ) (inv : δ → Prop) (answer : α → Option β)
    (xs : List α) (prev n index : ℕ) (order : List α) : Prop :=
  ∀ data, inv data → ∃ o, Walked visit inv answer xs.length prev order o ∧
    ∀ fuel, n < fuel → walk visit xs prev fuel index data = some o

variable {n index : ℕ}

theorem comes_last (hs : Steady visit inv answer) (hlt : index < xs.length)
    (hprev : index+1 = prev) : Comes visit inv answer xs prev 0 index [xs[index]] := by
  intro data hd
  rcases hv : visit data xs[index] with ⟨_ | found,data'⟩
  · exact ⟨⟨prev,none,data',[xs[index]]⟩,walked_last (visit_none hs hd hv).1 (by omega),
      fun fuel hfuel => walk_last hlt hv hprev hfuel⟩
  · exact ⟨_,walked_found hs hd hv hlt,fun fuel hfuel => walk_found hlt hv hfuel⟩

theorem comes_next (hs : Steady visit inv answer) (hlt : index < xs.length)
    (hne : index+1 ≠ prev) (hrest : Comes visit inv answer xs prev n (index+1) order) :
    Comes visit inv answer xs prev (n+1) index (xs[index]::order) := by
  intro data hd
  rcases hv : visit data xs[index] with ⟨_ | found,data'⟩
  · obtain ⟨hx,hd'⟩ := visit_none hs hd hv
    obtain ⟨o,ho,hwalk⟩ := hrest data' hd'
    refine ⟨_,ho.cons hx,fun fuel hfuel => ?_⟩
    rw [walk_next hlt hv hne (by omega), hwalk _ (by omega)]
    rfl
  · exact ⟨_,walked_found hs hd hv hlt,fun fuel hfuel => walk_found hlt hv (by omega)⟩

/-- Below the place where it ends a walk goes straight up to it. -/
theorem comes_up (hs : Steady visit inv answer) (hprev : prev ≤ xs.length) (n index : ℕ)
    (hn : index+n+1 = prev) :
    Comes visit inv answer xs prev n index ((xs.drop index).take (n+1)) := by
  have hlt : index < xs.length := by omega
  rw [List.drop_eq_getElem_cons hlt, List.take_succ_cons]
  induction n generalizing index with
  | zero =>
    rw [List.take_zero]
    exact comes_last hs hlt hn
  | succ n ih =>
    have hlt' : index+1 < xs.length := by omega
    rw [List.drop_eq_getElem_cons hlt', List.take_succ_cons]
    exact comes_next hs hlt (by omega) (ih (index+1) (by omega) hlt')

/-- From the place where it began, or above, a walk goes to the end of the list
and on from its front. -/
theorem comes_over (hs : Steady visit inv answer) (hprev : prev ≤ xs.length) (n index : ℕ)
    (hn : index+n = xs.length) (hge : prev ≤ index) :
    Comes visit inv answer xs prev (n+prev) index (xs.drop index ++ xs.take prev) := by
  induction n generalizing index with
  | zero =>
    intro data hd
    rw [List.drop_of_length_le (by omega), List.nil_append]
    rcases prev with _ | prev
    · exact ⟨⟨0,none,data,[]⟩,⟨Nat.zero_le _,fun _ => ⟨rfl,rfl,by simp⟩,by simp⟩,
        fun fuel hfuel => walk_end (by omega) (by omega)⟩
    · obtain ⟨o,ho,hwalk⟩ := comes_up hs hprev prev 0 (by omega) data hd
      refine ⟨o,ho,fun fuel hfuel => ?_⟩
      rw [walk_wrap (by omega) (by omega) (by omega), hwalk _ (by omega)]
  | succ n ih =>
    have hlt : index < xs.length := by omega
    rw [List.drop_eq_getElem_cons hlt, List.cons_append, Nat.add_right_comm]
    exact comes_next hs hlt (by omega) (ih (index+1) (by omega) (by omega))

/-- A walk that begins inside of the list or at its end comes to an end. -/
theorem comes_around (hs : Steady visit inv answer) (hprev : prev ≤ xs.length) :
    Comes visit inv answer xs prev xs.length prev (xs.drop prev ++ xs.take prev) := by
  have hsum : prev+(xs.length-prev) = xs.length := by omega
  have h := comes_over hs hprev (xs.length-prev) prev hsum (Nat.le_refl _)
  rwa [Nat.sub_add_cancel hprev] at h

theorem order_perm (xs : List α) (n : ℕ) : (xs.drop n ++ xs.take n).Perm xs := by
  have h : (xs.take n ++ xs.drop n).Perm xs := by rw [List.take_append_drop]
  exact List.perm_append_comm.trans h

/-- What was visited begins the order of the walk. -/
theorem Walked.prefix (h : Walked visit inv answer size prev order o) : o.visited <+: order := by
  rcases hf : o.found with _ | ⟨x,found⟩
  · exact (h.nothing hf).2.1 ▸ List.prefix_refl _
  · obtain ⟨-,-,front,rest,horder,hvisited⟩ := h.something x found hf
    exact ⟨rest,by rw [hvisited, horder, List.append_assoc, List.singleton_append]⟩

/-- Nothing is found exactly if no entry gives something. -/
theorem Walked.found_none_iff (h : Walked visit inv answer size prev order o) :
    o.found = none ↔ ∀ x ∈ order, answer x = none := by
  refine ⟨fun hf => (h.nothing hf).2.2,fun hall => ?_⟩
  rcases hf : o.found with _ | ⟨x,found⟩
  · rfl
  · obtain ⟨ha,-,front,rest,horder,-⟩ := h.something x found hf
    have hx := hall x (by simp [horder])
    rw [ha] at hx
    cases hx

end CyclicWalk
