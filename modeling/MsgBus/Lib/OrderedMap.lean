import Mathlib.Order.Lattice
import Mathlib.Data.List.Basic

/-!
# Maps kept as ascending lists

A finite map over a linear order is a list of entries with ascending keys.
The order is a field of the map, so every operation hands over a map that is
ordered again and an iteration meets each key once.
-/

set_option autoImplicit false

structure OrderedMap (κ ν : Type*) [LinearOrder κ] where
  entries : List (κ × ν)
  sorted : entries.Pairwise (fun a b => a.1 < b.1)

namespace OrderedMap

variable {κ ν : Type*} [LinearOrder κ]

def empty : OrderedMap κ ν := ⟨[],List.Pairwise.nil⟩

instance : Inhabited (OrderedMap κ ν) := ⟨empty⟩

instance [DecidableEq ν] : DecidableEq (OrderedMap κ ν) := fun a b =>
  decidable_of_iff (a.entries = b.entries) (by cases a; cases b; simp)

def findIn (k : κ) : List (κ × ν) → Option ν
  | [] => none
  | e::es => if e.1 = k then some e.2 else findIn k es

def find? (m : OrderedMap κ ν) (k : κ) : Option ν := findIn k m.entries

def contains (m : OrderedMap κ ν) (k : κ) : Bool := (m.find? k).isSome

def isEmpty (m : OrderedMap κ ν) : Bool := m.entries.isEmpty

def size (m : OrderedMap κ ν) : ℕ := m.entries.length

def assignIn (k : κ) (v : ν) : List (κ × ν) → List (κ × ν)
  | [] => [(k,v)]
  | e::es => if k < e.1 then (k,v)::e::es
      else if e.1 < k then e::assignIn k v es
      else (k,v)::es

theorem mem_assignIn {k : κ} {v : ν} {es : List (κ × ν)} {e : κ × ν}
    (he : e ∈ assignIn k v es) : e = (k,v) ∨ e ∈ es := by
  induction es with
  | nil => exact Or.inl (List.mem_singleton.mp he)
  | cons d es ih =>
    rw [assignIn] at he
    split_ifs at he with h1 h2
    · exact List.mem_cons.mp he
    · rcases List.mem_cons.mp he with rfl | he
      · exact Or.inr (by simp)
      · exact (ih he).imp id (fun h => List.mem_cons_of_mem _ h)
    · exact (List.mem_cons.mp he).imp id (fun h => List.mem_cons_of_mem _ h)

theorem assignIn_sorted (k : κ) (v : ν) (es : List (κ × ν))
    (h : es.Pairwise (fun a b => a.1 < b.1)) :
    (assignIn k v es).Pairwise (fun a b => a.1 < b.1) := by
  induction es with
  | nil => simp [assignIn]
  | cons d es ih =>
    obtain ⟨hd,hes⟩ := List.pairwise_cons.mp h
    rw [assignIn]
    split_ifs with h1 h2
    · refine List.pairwise_cons.mpr ⟨?_,h⟩
      intro e he
      rcases List.mem_cons.mp he with rfl | he
      · exact h1
      · exact h1.trans (hd e he)
    · refine List.pairwise_cons.mpr ⟨?_,ih hes⟩
      intro e he
      rcases mem_assignIn he with rfl | he
      · exact h2
      · exact hd e he
    · have hk : d.1 = k := le_antisymm (not_lt.mp h1) (not_lt.mp h2)
      exact List.pairwise_cons.mpr ⟨fun e he => hk ▸ hd e he,hes⟩

/-- A key that is not in the list is added to it. -/
theorem assignIn_perm {k : κ} {es : List (κ × ν)} (h : ∀ e ∈ es, e.1 ≠ k) (v : ν) :
    (assignIn k v es).Perm ((k,v)::es) := by
  induction es with
  | nil => exact List.Perm.refl _
  | cons d es ih =>
    have hd := h d (by simp)
    rw [assignIn]
    split_ifs with h1 h2
    · exact List.Perm.refl _
    · exact ((ih (fun e he => h e (by simp [he]))).cons d).trans (List.Perm.swap _ _ _)
    · exact absurd (le_antisymm (not_lt.mp h1) (not_lt.mp h2)) hd

def assign (m : OrderedMap κ ν) (k : κ) (v : ν) : OrderedMap κ ν :=
  ⟨assignIn k v m.entries,assignIn_sorted k v m.entries m.sorted⟩

theorem length_assignIn (k : κ) (v : ν) (es : List (κ × ν)) :
    es.length ≤ (assignIn k v es).length := by
  induction es with
  | nil => exact Nat.zero_le _
  | cons e es ih =>
    rw [assignIn]
    split_ifs
    · exact Nat.le_succ _
    · exact Nat.succ_le_succ ih
    · exact le_refl _

theorem size_assign (m : OrderedMap κ ν) (k : κ) (v : ν) : m.size ≤ (m.assign k v).size :=
  length_assignIn k v m.entries

theorem keys_nodup (m : OrderedMap κ ν) : (m.entries.map Prod.fst).Nodup :=
  List.pairwise_map.mpr (m.sorted.imp ne_of_lt)

def filter (m : OrderedMap κ ν) (keep : κ → ν → Bool) : OrderedMap κ ν :=
  ⟨m.entries.filter (fun e => keep e.1 e.2),m.sorted.filter _⟩

def eraseIf (m : OrderedMap κ ν) (drop : κ → ν → Bool) : OrderedMap κ ν :=
  m.filter (fun k v => !drop k v)

def erase (m : OrderedMap κ ν) (k : κ) : OrderedMap κ ν := m.eraseIf (fun k' _ => k' = k)

def mapValues (m : OrderedMap κ ν) (f : κ → ν → ν) : OrderedMap κ ν :=
  ⟨m.entries.map (fun e => (e.1,f e.1 e.2)),List.pairwise_map.mpr (m.sorted.imp (fun h => h))⟩

def dropFirst (m : OrderedMap κ ν) (n : ℕ) : OrderedMap κ ν :=
  ⟨m.entries.drop n,m.sorted.drop⟩

theorem findIn_mem {k : κ} {v : ν} {es : List (κ × ν)} (h : findIn k es = some v) :
    (k,v) ∈ es := by
  induction es with
  | nil => simp [findIn] at h
  | cons e es ih =>
    rw [findIn] at h
    split_ifs at h with hk
    · obtain rfl := Option.some.inj h
      obtain rfl := hk
      simp
    · exact List.mem_cons_of_mem _ (ih h)

theorem findIn_of_mem {k : κ} {v : ν} {es : List (κ × ν)}
    (hs : es.Pairwise (fun a b => a.1 < b.1)) (h : (k,v) ∈ es) : findIn k es = some v := by
  induction es with
  | nil => simp at h
  | cons e es ih =>
    obtain ⟨he,hes⟩ := List.pairwise_cons.mp hs
    rw [findIn]
    rcases List.mem_cons.mp h with rfl | h
    · simp
    · rw [if_neg (ne_of_lt (he _ h)), ih hes h]

theorem find?_eq_some {m : OrderedMap κ ν} {k : κ} {v : ν} :
    m.find? k = some v ↔ (k,v) ∈ m.entries :=
  ⟨findIn_mem,findIn_of_mem m.sorted⟩

theorem find?_eq_none {m : OrderedMap κ ν} {k : κ} :
    m.find? k = none ↔ ∀ e ∈ m.entries, e.1 ≠ k := by
  constructor
  · rintro h ⟨k',v⟩ he rfl
    rw [find?_eq_some.mpr he] at h
    cases h
  · intro h
    cases hf : m.find? k with
    | none => rfl
    | some v => exact absurd rfl (h _ (find?_eq_some.mp hf))

@[simp] theorem find?_empty (k : κ) : (empty : OrderedMap κ ν).find? k = none := rfl

theorem findIn_assignIn (k k' : κ) (v : ν) (es : List (κ × ν)) :
    findIn k' (assignIn k v es) = if k = k' then some v else findIn k' es := by
  induction es with
  | nil => simp [assignIn, findIn]
  | cons e es ih =>
    rcases lt_trichotomy k e.1 with h | h | h
    · simp only [assignIn, if_pos h, findIn]
    · subst h
      simp only [assignIn, lt_irrefl, if_false, findIn]
      split_ifs <;> rfl
    · simp only [assignIn, if_neg (lt_asymm h), if_pos h, findIn, ih]
      by_cases hk : k = k'
      · subst hk
        simp [ne_of_lt h]
      · simp [hk]

@[simp] theorem find?_assign (m : OrderedMap κ ν) (k k' : κ) (v : ν) :
    (m.assign k v).find? k' = if k = k' then some v else m.find? k' :=
  findIn_assignIn k k' v m.entries

theorem findIn_filter (k : κ) (keep : κ → ν → Bool) (es : List (κ × ν))
    (hs : es.Pairwise (fun a b => a.1 < b.1)) :
    findIn k (es.filter (fun e => keep e.1 e.2)) = (findIn k es).filter (keep k) := by
  induction es with
  | nil => rfl
  | cons e es ih =>
    obtain ⟨he,hes⟩ := List.pairwise_cons.mp hs
    by_cases hk : e.1 = k
    · subst hk
      have hn : findIn e.1 es = none := by
        cases hf : findIn e.1 es with
        | none => rfl
        | some v => exact absurd (he _ (findIn_mem hf)) (lt_irrefl _)
      by_cases hkeep : keep e.1 e.2
      · simp [hkeep, findIn, Option.filter]
      · simp [hkeep, findIn, ih hes, hn, Option.filter]
    · by_cases hkeep : keep e.1 e.2
      · simp [hkeep, findIn, hk, ih hes]
      · simp [hkeep, findIn, hk, ih hes]

theorem find?_filter (m : OrderedMap κ ν) (k : κ) (keep : κ → ν → Bool) :
    (m.filter keep).find? k = (m.find? k).filter (keep k) :=
  findIn_filter k keep m.entries m.sorted

@[simp] theorem find?_erase (m : OrderedMap κ ν) (k k' : κ) :
    (m.erase k).find? k' = if k' = k then none else m.find? k' := by
  rw [erase, eraseIf, find?_filter]
  split_ifs with h
  · cases m.find? k' <;> simp [h, Option.filter]
  · cases m.find? k' <;> simp [h, Option.filter]

@[simp] theorem find?_mapValues (m : OrderedMap κ ν) (k : κ) (f : κ → ν → ν) :
    (m.mapValues f).find? k = (m.find? k).map (f k) := by
  have hfind (es : List (κ × ν)) :
      findIn k (es.map (fun e => (e.1,f e.1 e.2))) = (findIn k es).map (f k) := by
    induction es with
    | nil => rfl
    | cons e es ih =>
      rw [List.map_cons, findIn, findIn, ih]
      split_ifs with hk
      · rw [hk]
        rfl
      · rfl
  exact hfind m.entries

end OrderedMap
