import Mathlib.Algebra.GroupWithZero.Nat
import Mathlib.Data.List.Basic

/-!
# Boards of a sudoku

The helpers and the solver see of a board whether it is solved, how many
alternatives it has left and which boards come from trying the values of the
cell that is found unsolved. A filling is a complete valid board; the values
that are tried leave none of the fillings out.
-/

set_option autoImplicit false

namespace MsgBus

/-- `alternatives` are the boards that `for_each_alternative` of the cell found
by `find_unsolved` passes on, in this order. -/
structure SudokuBoards (β : Type) where
  isSolved : β → Bool
  alternativeCount : β → ℕ
  alternatives : β → List β

/-- The fillings that extend a board: a board that is not solved has one more
cell filled in each of its alternatives, and every filling of the board has the
value of one of them there. -/
structure Enumeration {β : Type} (boards : SudokuBoards β) (φ : Type) where
  Extends : φ → β → Prop
  filled : β → ℕ
  alternative_filled : ∀ b c, boards.isSolved b = false → c ∈ boards.alternatives b →
    filled b < filled c
  alternative_extends : ∀ b c F, boards.isSolved b = false → c ∈ boards.alternatives b →
    Extends F c → Extends F b
  enumerates : ∀ b F, boards.isSolved b = false → Extends F b →
    ∃ c ∈ boards.alternatives b, Extends F c

namespace Enumeration

variable {β φ : Type} {boards : SudokuBoards β}

/-- The second board fills more of the cells of the first one. -/
structure Refines (en : Enumeration boards φ) (b c : β) : Prop where
  filled : en.filled b < en.filled c
  extends_of : ∀ F, en.Extends F c → en.Extends F b

theorem refines_alternative (en : Enumeration boards φ) {b c : β}
    (hb : boards.isSolved b = false) (hc : c ∈ boards.alternatives b) : en.Refines b c :=
  ⟨en.alternative_filled b c hb hc,fun F => en.alternative_extends b c F hb hc⟩

theorem refines_trans (en : Enumeration boards φ) {b c d : β} (h : en.Refines b c)
    (h' : en.Refines c d) : en.Refines b d :=
  ⟨Nat.lt_trans h.filled h'.filled,fun F hF => h.extends_of F (h'.extends_of F hF)⟩

end Enumeration

/-! ## Grids of a rank -/

/-- The cells row by row; a cell that is not solved is zero. -/
abbrev SudokuGrid := List ℕ

namespace SudokuGrid

variable (S : ℕ)

def row (i : ℕ) : ℕ := i/(S*S)

def column (i : ℕ) : ℕ := i%(S*S)

def block (i : ℕ) : ℕ × ℕ := (row S i/S,column S i/S)

/-- The cells share a row, a column or a block. -/
def peers (i j : ℕ) : Bool :=
  i ≠ j && (row S i = row S j || column S i = column S j || block S i = block S j)

def isSolved (b : SudokuGrid) : Bool := b.all (· ≠ 0)

def findUnsolved (b : SudokuGrid) : ℕ := b.findIdx (· = 0)

def legal (b : SudokuGrid) (i v : ℕ) : Bool :=
  (List.range b.length).all (fun j => !peers S i j || b[j]? ≠ some v)

def values (b : SudokuGrid) (i : ℕ) : List ℕ :=
  ((List.range (S*S)).map (fun v => v+1)).filter (legal S b i)

def alternatives (b : SudokuGrid) : List SudokuGrid :=
  (values S b (findUnsolved b)).map (fun v => b.set (findUnsolved b) v)

def alternativeCount (b : SudokuGrid) : ℕ :=
  ((List.range b.length).map
    (fun i => if b[i]? = some 0 then (values S b i).length else 1)).sum

def filled (b : SudokuGrid) : ℕ := b.countP (· ≠ 0)

def gridBoards : SudokuBoards SudokuGrid where
  isSolved := isSolved
  alternativeCount := alternativeCount S
  alternatives := alternatives S

/-- A complete valid grid. -/
structure Filling (F : SudokuGrid) : Prop where
  values : ∀ v ∈ F, 1 ≤ v ∧ v ≤ S*S
  differ : ∀ i j v, peers S i j = true → F[i]? = some v → F[j]? ≠ some v

structure Extends (F b : SudokuGrid) : Prop where
  filling : Filling S F
  length : F.length = b.length
  agrees : ∀ (i v : ℕ), b[i]? = some v → v ≠ 0 → F[i]? = some v

variable {S} {b c F : SudokuGrid}

theorem filling_iff : Filling S F ↔ (∀ v ∈ F, 1 ≤ v ∧ v ≤ S*S) ∧
    ∀ i < F.length, ∀ j < F.length, peers S i j = true → F[i]? ≠ F[j]? := by
  constructor
  · intro h
    refine ⟨h.values,?_⟩
    intro i hi j _ hp he
    have hv := List.getElem?_eq_getElem hi
    exact h.differ i j _ hp hv (he.symm.trans hv)
  · rintro ⟨hvalues,hdiffer⟩
    refine ⟨hvalues,?_⟩
    intro i j v hp hi hj
    exact hdiffer i (List.getElem?_eq_some_iff.mp hi).1 j (List.getElem?_eq_some_iff.mp hj).1 hp
      (hi.trans hj.symm)

theorem extends_iff : Extends S F b ↔ Filling S F ∧ F.length = b.length ∧
    ∀ i < b.length, b[i]? ≠ some 0 → F[i]? = b[i]? := by
  constructor
  · intro h
    refine ⟨h.filling,h.length,?_⟩
    intro i hi hne
    have hv := List.getElem?_eq_getElem hi
    rw [hv] at hne ⊢
    exact h.agrees i _ hv (fun hz => hne (by rw [hz]))
  · rintro ⟨hfilling,hlength,hagrees⟩
    refine ⟨hfilling,hlength,?_⟩
    intro i v hv hne
    rw [hagrees i (List.getElem?_eq_some_iff.mp hv).1, hv]
    rw [hv]
    exact fun hz => hne (Option.some.inj hz)

instance : Decidable (Filling S F) := decidable_of_iff _ filling_iff.symm

instance : Decidable (Extends S F b) := decidable_of_iff _ extends_iff.symm

theorem findUnsolved_spec (h : isSolved b = false) : b[findUnsolved b]? = some 0 := by
  have hex : ∃ v ∈ b, v = 0 := by
    rw [isSolved, List.all_eq_false] at h
    obtain ⟨v,hv,hz⟩ := h
    exact ⟨v,hv,by simpa using hz⟩
  have hlt : findUnsolved b < b.length := by
    rw [findUnsolved, List.findIdx_lt_length]
    obtain ⟨v,hv,hz⟩ := hex
    exact ⟨v,hv,by simpa using hz⟩
  rw [List.getElem?_eq_getElem hlt]
  have hz : b[findUnsolved b] = 0 :=
    of_decide_eq_true (List.findIdx_getElem (p := fun v => decide (v = 0)))
  rw [hz]

theorem alternatives_filled (h : isSolved b = false) (hc : c ∈ alternatives S b) :
    filled b < filled c := by
  obtain ⟨v,hv,rfl⟩ := List.mem_map.mp hc
  have hpos : v ≠ 0 := by
    obtain ⟨u,_,rfl⟩ := List.mem_map.mp (List.mem_filter.mp hv).1
    omega
  obtain ⟨hlt,hz⟩ := List.getElem?_eq_some_iff.mp (findUnsolved_spec h)
  rw [filled, filled, List.countP_set hlt]
  simp [hz, hpos]

theorem alternatives_extends (h : isSolved b = false) (hc : c ∈ alternatives S b)
    (hF : Extends S F c) : Extends S F b := by
  obtain ⟨v,_,rfl⟩ := List.mem_map.mp hc
  refine ⟨hF.filling,by rw [hF.length, List.length_set],?_⟩
  intro i u hu hne
  apply hF.agrees i u _ hne
  rw [List.getElem?_set_ne, hu]
  intro hi
  rw [← hi, findUnsolved_spec h] at hu
  exact hne (Option.some.inj hu).symm

/-- The value that the filling has in the cell is legal. -/
theorem enumerates (h : isSolved b = false) (hF : Extends S F b) :
    ∃ c ∈ alternatives S b, Extends S F c := by
  have hz := findUnsolved_spec h
  have hlt : findUnsolved b < F.length := by
    rw [hF.length]
    exact (List.getElem?_eq_some_iff.mp hz).1
  have hv : F[findUnsolved b]? = some F[findUnsolved b] := List.getElem?_eq_getElem hlt
  obtain ⟨hone,hmax⟩ := hF.filling.values _ (List.getElem_mem hlt)
  refine ⟨b.set (findUnsolved b) F[findUnsolved b],?_,hF.filling,?_,?_⟩
  · apply List.mem_map.mpr
    refine ⟨_,?_,rfl⟩
    apply List.mem_filter.mpr
    constructor
    · exact List.mem_map.mpr ⟨F[findUnsolved b]-1,List.mem_range.mpr (by omega),by omega⟩
    · apply List.all_eq_true.mpr
      intro j _
      cases hp : peers S (findUnsolved b) j with
      | false => rfl
      | true =>
        have hne : b[j]? ≠ some F[findUnsolved b] := by
          intro hj
          exact hF.filling.differ _ j _ hp hv (hF.agrees j _ hj (by omega))
        simpa using hne
  · rw [hF.length, List.length_set]
  · intro i u hu hne
    by_cases hi : findUnsolved b = i
    · subst hi
      rw [List.getElem?_set_self (by rw [← hF.length]; exact hlt)] at hu
      rw [hv]
      exact hu
    · rw [List.getElem?_set_ne hi] at hu
      exact hF.agrees i u hu hne

def gridEnumeration (S : ℕ) : Enumeration (gridBoards S) SudokuGrid where
  Extends := Extends S
  filled := filled
  alternative_filled _ _ := alternatives_filled
  alternative_extends _ _ _ := alternatives_extends
  enumerates _ _ := enumerates

end SudokuGrid

end MsgBus
