import Mathlib.Logic.Function.Basic
import Mathlib.Algebra.Order.Group.Int

/-!
# Cells with counted holders

A table finds the cell of a key by its address. No two keys share a cell, and
no address is given twice. A key is acquired by making its cell if there is
none and counting one more holder; releasing it counts one less and erases the
cell of the last one. A cell may be made before any holder comes. As long as a
key has holders its cell stays where it is, so that they may keep the address.
-/

set_option autoImplicit false

namespace CountedCells

structure Cell (α : Type*) where
  count : ℤ := 0
  value : α

def Cell.take {α : Type*} (cell : Cell α) : Cell α := { cell with count := cell.count+1 }

def Cell.letGo {α : Type*} (cell : Cell α) : Cell α := { cell with count := cell.count-1 }

/-- The keys own their cells. -/
structure Table (κ α : Type*) where
  find : κ → Option ℕ
  cells : ℕ → Option (Cell α)
  next : ℕ
  found : ∀ {k p}, find k = some p → ∃ cell, cells p = some cell
  once : ∀ {k l p}, find k = some p → find l = some p → k = l
  below : ∀ {k p}, find k = some p → p < next

namespace Table

variable {κ α : Type*}

def empty : Table κ α where
  find := fun _ => none
  cells := fun _ => none
  next := 0
  found := fun h => nomatch h
  once := fun h => nomatch h
  below := fun h => nomatch h

def countAt (t : Table κ α) (p : ℕ) : ℤ := ((t.cells p).map Cell.count).getD 0

/-- What the address points at. -/
def read (t : Table κ α) (p : ℕ) : Option α := (t.cells p).map Cell.value

/-- A key without a cell has no holder. -/
def count (t : Table κ α) (k : κ) : ℤ := ((t.find k).map t.countAt).getD 0

def lookup (t : Table κ α) (k : κ) : Option α := (t.find k).bind t.read

def modify (t : Table κ α) (p : ℕ) (f : Cell α → Cell α) : Table κ α where
  find := t.find
  cells := Function.update t.cells p ((t.cells p).map f)
  next := t.next
  found := by
    intro k q h
    obtain ⟨cell,hcell⟩ := t.found h
    by_cases hq : q = p
    · subst hq
      exact ⟨f cell,by rw [Function.update_self, hcell, Option.map_some]⟩
    · exact ⟨cell,by rw [Function.update_of_ne hq, hcell]⟩
  once := t.once
  below := t.below

def update (t : Table κ α) (p : ℕ) (f : α → α) : Table κ α :=
  t.modify p fun cell => { cell with value := f cell.value }

section Keys

variable [DecidableEq κ]

def insert (t : Table κ α) (k : κ) (value : α) : Table κ α where
  find := Function.update t.find k (some t.next)
  cells := Function.update t.cells t.next (some { value })
  next := t.next+1
  found := by
    intro l p h
    by_cases hp : p = t.next
    · exact ⟨{ value },by rw [hp, Function.update_self]⟩
    · have hl : l ≠ k := by
        rintro rfl
        rw [Function.update_self] at h
        exact hp (Option.some.inj h).symm
      rw [Function.update_of_ne hl] at h
      rw [Function.update_of_ne hp]
      exact t.found h
  once := by
    intro l m p hl hm
    by_cases hlk : l = k <;> by_cases hmk : m = k
    · exact hlk.trans hmk.symm
    · rw [hlk, Function.update_self] at hl
      rw [Function.update_of_ne hmk] at hm
      exact absurd (t.below hm) (by rw [← Option.some.inj hl]; exact Nat.lt_irrefl _)
    · rw [hmk, Function.update_self] at hm
      rw [Function.update_of_ne hlk] at hl
      exact absurd (t.below hl) (by rw [← Option.some.inj hm]; exact Nat.lt_irrefl _)
    · rw [Function.update_of_ne hlk] at hl
      rw [Function.update_of_ne hmk] at hm
      exact t.once hl hm
  below := by
    intro l p h
    by_cases hl : l = k
    · rw [hl, Function.update_self] at h
      exact Option.some.inj h ▸ Nat.lt_succ_self _
    · rw [Function.update_of_ne hl] at h
      exact Nat.lt_succ_of_lt (t.below h)

def erase (t : Table κ α) (k : κ) : Table κ α where
  find := Function.update t.find k none
  cells := fun p => if t.find k = some p then none else t.cells p
  next := t.next
  found := by
    intro l p h
    have hl : l ≠ k := by
      rintro rfl
      rw [Function.update_self] at h
      cases h
    rw [Function.update_of_ne hl] at h
    rw [if_neg (fun hk => hl (t.once h hk))]
    exact t.found h
  once := by
    intro l m p hl hm
    by_cases hlk : l = k
    · rw [hlk, Function.update_self] at hl
      cases hl
    · by_cases hmk : m = k
      · rw [hmk, Function.update_self] at hm
        cases hm
      · rw [Function.update_of_ne hlk] at hl
        rw [Function.update_of_ne hmk] at hm
        exact t.once hl hm
  below := by
    intro l p h
    by_cases hl : l = k
    · rw [hl, Function.update_self] at h
      cases h
    · rw [Function.update_of_ne hl] at h
      exact t.below h

/-- The address of the cell of the key, which is made if there is none. -/
def ensure [Inhabited α] (t : Table κ α) (k : κ) : ℕ × Table κ α :=
  match t.find k with
  | some p => (p,t)
  | none => (t.next,t.insert k default)

def acquire [Inhabited α] (t : Table κ α) (k : κ) : Table κ α :=
  let (p,t) := t.ensure k
  t.modify p Cell.take

def release (t : Table κ α) (k : κ) : Table κ α :=
  match t.find k with
  | some p =>
    let t := t.modify p Cell.letGo
    if t.countAt p ≤ 0 then t.erase k else t
  | none => t

end Keys

/-! ## One cell -/

section Cells

variable {t : Table κ α} {k l : κ} {p q : ℕ}

theorem count_of_find (h : t.find k = some p) : t.count k = t.countAt p := by
  rw [count, h, Option.map_some, Option.getD_some]

theorem count_of_none (h : t.find k = none) : t.count k = 0 := by
  rw [count, h, Option.map_none, Option.getD_none]

theorem find_of_count_pos (h : 0 < t.count k) : ∃ p, t.find k = some p := by
  cases hk : t.find k with
  | some p => exact ⟨p,rfl⟩
  | none => exact absurd (count_of_none hk) (ne_of_gt h)

theorem read_of_find (h : t.find k = some p) : ∃ value, t.read p = some value := by
  obtain ⟨cell,hcell⟩ := t.found h
  exact ⟨cell.value,by rw [read, hcell, Option.map_some]⟩

@[simp] theorem modify_find (f : Cell α → Cell α) : (t.modify p f).find = t.find := rfl

theorem modify_cell (f : Cell α → Cell α) : (t.modify p f).cells p = (t.cells p).map f :=
  Function.update_self ..

theorem modify_cell_other (f : Cell α → Cell α) (h : q ≠ p) :
    (t.modify p f).cells q = t.cells q := Function.update_of_ne h ..

theorem modify_countAt_other (f : Cell α → Cell α) (h : q ≠ p) :
    (t.modify p f).countAt q = t.countAt q := by
  rw [countAt, modify_cell_other f h, countAt]

theorem modify_countAt {f : Cell α → Cell α} {d : ℤ} (hf : ∀ cell, (f cell).count = cell.count+d)
    (h : t.find k = some p) : (t.modify p f).countAt p = t.countAt p+d := by
  obtain ⟨cell,hcell⟩ := t.found h
  rw [countAt, countAt, modify_cell, hcell]
  exact hf cell

/-- The count of one key moves by the same as that of its cell. -/
theorem modify_count [DecidableEq κ] {f : Cell α → Cell α} {d : ℤ}
    (hf : ∀ cell, (f cell).count = cell.count+d) (h : t.find k = some p) (l : κ) :
    (t.modify p f).count l = t.count l+if l = k then d else 0 := by
  by_cases hl : l = k
  · subst hl
    rw [if_pos rfl, count_of_find (t := t) h, count_of_find (t := t.modify p f) h,
      modify_countAt hf h]
  · rw [if_neg hl, add_zero]
    cases hq : t.find l with
    | none => rw [count_of_none hq, count_of_none (t := t.modify p f) hq]
    | some q =>
      have hqp : q ≠ p := fun he => hl (t.once hq (he ▸ h))
      rw [count_of_find hq, count_of_find (t := t.modify p f) hq, modify_countAt_other f hqp]

@[simp] theorem update_find (f : α → α) : (t.update p f).find = t.find := rfl

@[simp] theorem update_count (f : α → α) (k : κ) : (t.update p f).count k = t.count k := by
  have hat (q : ℕ) : (t.update p f).countAt q = t.countAt q := by
    by_cases hq : q = p
    · subst hq
      rw [countAt, update, modify_cell, Option.map_map]
      rfl
    · exact modify_countAt_other _ hq
  rw [count, count, update_find]
  cases t.find k with
  | none => rfl
  | some q => exact hat q

/-- Cells may have been made, values may differ, and nothing else. -/
def Grows (t t' : Table κ α) : Prop :=
  (∀ k p, t.find k = some p → t'.find k = some p) ∧ ∀ k, t'.count k = t.count k

theorem Grows.refl (t : Table κ α) : t.Grows t := ⟨fun _ _ h => h,fun _ => rfl⟩

theorem Grows.trans {t' t'' : Table κ α} (h : t.Grows t') (h' : t'.Grows t'') : t.Grows t'' :=
  ⟨fun k p hp => h'.1 k p (h.1 k p hp),fun k => (h'.2 k).trans (h.2 k)⟩

theorem Grows.update (p : ℕ) (f : α → α) : t.Grows (t.update p f) :=
  ⟨fun _ _ h => h,update_count f⟩

theorem update_read (f : α → α) : (t.update p f).read p = (t.read p).map f := by
  rw [read, update, modify_cell, read, Option.map_map, Option.map_map]
  rfl

theorem update_read_other (f : α → α) (h : q ≠ p) : (t.update p f).read q = t.read q := by
  rw [read, update, modify_cell_other _ h, read]

theorem update_lookup (f : α → α) (h : t.find k = some p) :
    (t.update p f).lookup k = (t.lookup k).map f := by
  rw [lookup, lookup, update_find, h, Option.bind_some, Option.bind_some, update_read]

theorem update_lookup_other (f : α → α) (h : t.find k = some p) (hl : l ≠ k) :
    (t.update p f).lookup l = t.lookup l := by
  rw [lookup, lookup, update_find]
  cases hq : t.find l with
  | none => rfl
  | some q => exact update_read_other f (fun he => hl (t.once hq (he ▸ h)))

end Cells

/-! ## What happens to the keys -/

section Holders

variable [DecidableEq κ] {t : Table κ α} {k l : κ} {p : ℕ}

theorem insert_find (value : α) : (t.insert k value).find k = some t.next :=
  Function.update_self ..

theorem insert_find_other (value : α) (h : l ≠ k) : (t.insert k value).find l = t.find l :=
  Function.update_of_ne h ..

theorem insert_cell (value : α) : (t.insert k value).cells t.next = some { value } :=
  Function.update_self ..

theorem insert_cell_other (value : α) (h : t.find l = some p) :
    (t.insert k value).cells p = t.cells p := Function.update_of_ne (ne_of_lt (t.below h)) ..

theorem insert_count (value : α) (h : t.find k = none) (l : κ) :
    (t.insert k value).count l = t.count l := by
  by_cases hl : l = k
  · subst hl
    rw [count_of_none h, count_of_find (insert_find value), countAt, insert_cell]
    rfl
  · cases hp : t.find l with
    | none => rw [count_of_none hp, count_of_none ((insert_find_other value hl).trans hp)]
    | some p =>
      rw [count_of_find hp, count_of_find ((insert_find_other value hl).trans hp), countAt,
        insert_cell_other value hp, countAt]

theorem erase_find : (t.erase k).find k = none := Function.update_self ..

theorem erase_find_other (h : l ≠ k) : (t.erase k).find l = t.find l :=
  Function.update_of_ne h ..

theorem erase_count_other (h : l ≠ k) : (t.erase k).count l = t.count l := by
  cases hp : t.find l with
  | none => rw [count_of_none hp, count_of_none ((erase_find_other h).trans hp)]
  | some p =>
    have hcell : (t.erase k).cells p = t.cells p := if_neg fun hk => h (t.once hp hk)
    rw [count_of_find hp, count_of_find ((erase_find_other h).trans hp), countAt, hcell, countAt]

variable [Inhabited α]

theorem ensure_of_find (h : t.find k = some p) : t.ensure k = (p,t) := by
  rw [ensure, h]

theorem ensure_of_none (h : t.find k = none) : t.ensure k = (t.next,t.insert k default) := by
  rw [ensure, h]

theorem ensure_find : (t.ensure k).2.find k = some (t.ensure k).1 := by
  cases h : t.find k with
  | some p => rw [ensure_of_find h, h]
  | none => rw [ensure_of_none h, insert_find]

theorem ensure_keeps (h : t.find l = some p) : (t.ensure k).2.find l = some p := by
  cases hk : t.find k with
  | some q => rw [ensure_of_find hk, h]
  | none =>
    have hl : l ≠ k := by
      rintro rfl
      exact Option.some_ne_none p (h.symm.trans hk)
    rw [ensure_of_none hk, insert_find_other _ hl, h]

@[simp] theorem ensure_count : (t.ensure k).2.count l = t.count l := by
  cases h : t.find k with
  | some p => rw [ensure_of_find h]
  | none => rw [ensure_of_none h, insert_count _ h]

theorem ensure_lookup : (t.ensure k).2.lookup k = some ((t.lookup k).getD default) := by
  cases h : t.find k with
  | some p =>
    obtain ⟨value,hv⟩ := read_of_find h
    rw [ensure_of_find h, lookup, h, Option.bind_some, hv, Option.getD_some]
  | none =>
    rw [ensure_of_none h, lookup, insert_find, Option.bind_some, read, insert_cell, lookup, h]
    rfl

theorem ensure_lookup_other (h : l ≠ k) : (t.ensure k).2.lookup l = t.lookup l := by
  cases hk : t.find k with
  | some p => rw [ensure_of_find hk]
  | none =>
    rw [ensure_of_none hk, lookup, lookup, insert_find_other _ h]
    cases hp : t.find l with
    | none => rfl
    | some p => rw [Option.bind_some, Option.bind_some, read, read, insert_cell_other _ hp]

theorem Grows.ensure (k : κ) : t.Grows (t.ensure k).2 :=
  ⟨fun _ _ => ensure_keeps,fun _ => ensure_count⟩

theorem acquire_find : (t.acquire k).find = (t.ensure k).2.find := rfl

theorem acquire_keeps (h : t.find l = some p) : (t.acquire k).find l = some p := by
  rw [acquire_find, ensure_keeps h]

theorem acquire_count : (t.acquire k).count l = t.count l+if l = k then 1 else 0 := by
  rw [acquire, modify_count (fun _ => rfl) ensure_find, ensure_count]

omit [Inhabited α] in
/-- The cell is erased with its last holder. -/
theorem release_cases (h : t.find k = some p) :
    (t.count k ≤ 1 ∧ t.release k = (t.modify p Cell.letGo).erase k) ∨
      (1 < t.count k ∧ t.release k = t.modify p Cell.letGo) := by
  have hat : (t.modify p Cell.letGo).countAt p = t.count k-1 := by
    rw [modify_countAt (d := -1) (fun _ => rfl) h, count_of_find h]
    rfl
  by_cases hk : t.count k ≤ 1
  · refine .inl ⟨hk,?_⟩
    rw [release, h]
    exact if_pos (by rw [hat]; omega)
  · refine .inr ⟨by omega,?_⟩
    rw [release, h]
    exact if_neg (by rw [hat]; omega)

omit [Inhabited α] in
theorem release_count (h : 0 < t.count k) (l : κ) :
    (t.release k).count l = t.count l-if l = k then 1 else 0 := by
  obtain ⟨p,hp⟩ := find_of_count_pos h
  have hm : (t.modify p Cell.letGo).count l = t.count l+if l = k then -1 else 0 :=
    modify_count (fun _ => rfl) hp l
  rcases release_cases hp with ⟨hle,he⟩ | ⟨-,he⟩
  · by_cases hl : l = k
    · rw [he, hl, if_pos rfl, count_of_none erase_find]
      omega
    · rw [he, if_neg hl, erase_count_other hl, hm, if_neg hl]
      omega
  · rw [he, hm]
    split_ifs <;> omega

omit [Inhabited α] in
theorem release_keeps (h : l = k → 1 < t.count k) : (t.release k).find l = t.find l := by
  cases hp : t.find k with
  | none => rw [release, hp]
  | some p =>
    rcases release_cases hp with ⟨hle,he⟩ | ⟨-,he⟩
    · have hl : l ≠ k := fun hl => absurd (h hl) (not_lt.mpr hle)
      rw [he, erase_find_other hl, modify_find]
    · rw [he, modify_find]

end Holders

/-! ## Several keys -/

section Lists

variable [DecidableEq κ] {t : Table κ α} {holders : κ → ℕ}

def acquireAll [Inhabited α] (t : Table κ α) (ks : List κ) : Table κ α := ks.foldl acquire t

def releaseAll (t : Table κ α) (ks : List κ) : Table κ α := ks.foldl release t

/-- The table counts the holders of each key. -/
def Counts (t : Table κ α) (holders : κ → ℕ) : Prop := ∀ k, t.count k = holders k

theorem counts_cons {k : κ} {ks : List κ} (h : t.Counts fun l => holders l+(k::ks).count l)
    (l : κ) : t.count l = (holders l+ks.count l : ℕ)+if l = k then 1 else 0 := by
  rw [h l]
  by_cases hl : l = k
  · simp [hl, add_assoc]
  · simp [hl, Ne.symm hl]

theorem acquireAll_keeps [Inhabited α] {l : κ} {p : ℕ} (ks : List κ) (h : t.find l = some p) :
    (t.acquireAll ks).find l = some p := by
  induction ks generalizing t with
  | nil => exact h
  | cons k ks ih => exact ih (acquire_keeps h)

theorem acquireAll_count [Inhabited α] (ks : List κ) (l : κ) :
    (t.acquireAll ks).count l = t.count l+ks.count l := by
  induction ks generalizing t with
  | nil => simp [acquireAll]
  | cons k ks ih =>
    have hks : (t.acquireAll (k::ks)).count l = (t.acquire k).count l+ks.count l := ih
    rw [hks, acquire_count, List.count_cons]
    by_cases hl : l = k
    · simp only [hl, if_true, beq_self_eq_true]
      push_cast
      omega
    · simp [hl, Ne.symm hl]

theorem Counts.acquireAll [Inhabited α] (h : t.Counts holders) (ks : List κ) :
    (t.acquireAll ks).Counts fun k => holders k+ks.count k := by
  intro k
  rw [acquireAll_count, h k]
  rfl

/-- Those that let go are taken off the count; who still holds a key finds its
cell where it was. -/
theorem Counts.releaseAll (ks : List κ) (h : t.Counts fun k => holders k+ks.count k) :
    (t.releaseAll ks).Counts holders ∧
      ∀ l, 0 < holders l → (t.releaseAll ks).find l = t.find l := by
  induction ks generalizing t with
  | nil => exact ⟨h,fun _ _ => rfl⟩
  | cons k ks ih =>
    have hk := counts_cons h
    have hpos : 0 < t.count k := by
      rw [hk k, if_pos rfl]
      omega
    have hnext : (t.release k).Counts fun l => holders l+ks.count l := by
      intro l
      rw [release_count hpos, hk l, add_sub_cancel_right]
    obtain ⟨hcounts,hkeeps⟩ := ih hnext
    refine ⟨hcounts,fun l hl => (hkeeps l hl).trans (release_keeps ?_)⟩
    rintro rfl
    rw [hk l, if_pos rfl]
    omega

end Lists

end Table

end CountedCells
