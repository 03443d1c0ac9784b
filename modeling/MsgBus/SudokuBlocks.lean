import Mathlib.Data.List.OfFn
import MsgBus.SudokuBoard

/-!
# Blocks of a board

A board of rank `S` is a square of `S` times `S` blocks, which the tiling
copies from one board to another. A solution of a board keeps the blocks that
are complete.
-/

set_option autoImplicit false

namespace MsgBus

/-- The column and the row of a block, counted from zero. -/
abbrev BlockCoord := ℕ × ℕ

structure SudokuBlocks (β γ : Type) where
  newBoard : β
  getBlock : β → BlockCoord → γ
  setBlock : β → BlockCoord → γ → β
  calculateAlternatives : β → β

def InBoard (S : ℕ) (p : BlockCoord) : Prop := p.1 < S ∧ p.2 < S

/-- A block is complete if all of its cells are solved. -/
structure BlockSolutions (S : ℕ) {β γ : Type} (blocks : SudokuBlocks β γ) where
  Complete : γ → Prop
  Extends : β → β → Prop
  get_set : ∀ b p q v, InBoard S p → InBoard S q →
    blocks.getBlock (blocks.setBlock b p v) q = if p = q then v else blocks.getBlock b q
  calculate_get : ∀ b p, InBoard S p → Complete (blocks.getBlock b p) →
    blocks.getBlock (blocks.calculateAlternatives b) p = blocks.getBlock b p
  extends_complete : ∀ F b p, Extends F b → InBoard S p → Complete (blocks.getBlock F p)
  extends_get : ∀ F b p, Extends F b → InBoard S p → Complete (blocks.getBlock b p) →
    blocks.getBlock F p = blocks.getBlock b p

/-! ## Grids -/

namespace SudokuGrid

variable {S : ℕ}

/-- The cells of a board and of a block, row by row. -/
abbrev Cells (S : ℕ) := Fin (S*S*(S*S)) → ℕ

abbrev BlockCells (S : ℕ) := Fin (S*S) → ℕ

/-- The cell of the board that is the cell `c` of a block. -/
def cellIndex (S : ℕ) (p : BlockCoord) (c : ℕ) : ℕ := (p.2*S+c/S)*(S*S)+(p.1*S+c%S)

/-- The cell of its block that is the cell `i` of the board. -/
def cellOffset (S : ℕ) (i : ℕ) : ℕ := row S i%S*S+column S i%S

theorem cellIndex_row {p : BlockCoord} {c : ℕ} (hp : InBoard S p) (hc : c < S*S) :
    row S (cellIndex S p c) = p.2*S+c/S ∧ column S (cellIndex S p c) = p.1*S+c%S := by
  have hS : 0 < S := Nat.lt_of_le_of_lt (Nat.zero_le _) hp.1
  have hcolumn : p.1*S+c%S < S*S := by
    have hmod := Nat.mod_lt c hS
    have hmul : (p.1+1)*S ≤ S*S := Nat.mul_le_mul_right S hp.1
    rw [Nat.add_mul] at hmul
    omega
  constructor
  · rw [row, cellIndex, Nat.add_comm, Nat.add_mul_div_right _ _ (by omega),
      Nat.div_eq_of_lt hcolumn, Nat.zero_add]
  · rw [column, cellIndex, Nat.add_comm, Nat.add_mul_mod_self_right, Nat.mod_eq_of_lt hcolumn]

theorem cellIndex_lt {p : BlockCoord} {c : ℕ} (hp : InBoard S p) (hc : c < S*S) :
    cellIndex S p c < S*S*(S*S) := by
  have hS : 0 < S := Nat.lt_of_le_of_lt (Nat.zero_le _) hp.1
  apply Nat.lt_mul_of_div_lt _ (Nat.mul_pos hS hS)
  show row S (cellIndex S p c) < S*S
  rw [(cellIndex_row hp hc).1]
  have hdiv : c/S < S := Nat.div_lt_of_lt_mul hc
  have hmul : (p.2+1)*S ≤ S*S := Nat.mul_le_mul_right S hp.2
  rw [Nat.add_mul] at hmul
  omega

theorem cellIndex_block {p : BlockCoord} {c : ℕ} (hp : InBoard S p) (hc : c < S*S) :
    block S (cellIndex S p c) = (p.2,p.1) ∧ cellOffset S (cellIndex S p c) = c := by
  have hS : 0 < S := Nat.lt_of_le_of_lt (Nat.zero_le _) hp.1
  obtain ⟨hrow,hcolumn⟩ := cellIndex_row hp hc
  have hdiv : c/S < S := Nat.div_lt_of_lt_mul hc
  have hmod : c%S < S := Nat.mod_lt c hS
  constructor
  · rw [block, hrow, hcolumn, Nat.mul_comm p.2, Nat.mul_comm p.1, Nat.mul_add_div hS,
      Nat.mul_add_div hS, Nat.div_eq_of_lt hdiv, Nat.div_eq_of_lt hmod]
    rfl
  · rw [cellOffset, hrow, hcolumn, Nat.mul_comm p.2, Nat.mul_comm p.1, Nat.mul_add_mod,
      Nat.mul_add_mod, Nat.mod_eq_of_lt hdiv, Nat.mod_eq_of_lt hmod, Nat.mul_comm]
    exact Nat.div_add_mod c S

/-- Cells with one value left are solved. -/
def calculateAlternatives (b : Cells S) : Cells S := fun i =>
  if b i = 0 then
    match values S (List.ofFn b) i with
    | [v] => v
    | _ => 0
  else b i

def gridBlocks (S : ℕ) : SudokuBlocks (Cells S) (BlockCells S) where
  newBoard := fun _ => 0
  getBlock b p := fun c => if h : cellIndex S p c < S*S*(S*S) then b ⟨_,h⟩ else 0
  setBlock b p v := fun i =>
    if block S i = (p.2,p.1) then if h : cellOffset S i < S*S then v ⟨_,h⟩ else 0 else b i
  calculateAlternatives := calculateAlternatives

theorem getBlock_eq (b : Cells S) {p : BlockCoord} (hp : InBoard S p) (c : Fin (S*S)) :
    (gridBlocks S).getBlock b p c = b ⟨cellIndex S p c,cellIndex_lt hp c.isLt⟩ :=
  dif_pos (cellIndex_lt hp c.isLt)

theorem getBlock_setBlock (b : Cells S) {p q : BlockCoord} (v : BlockCells S)
    (hq : InBoard S q) :
    (gridBlocks S).getBlock ((gridBlocks S).setBlock b p v) q =
      if p = q then v else (gridBlocks S).getBlock b q := by
  funext c
  obtain ⟨hblock,hoffset⟩ := cellIndex_block hq c.isLt
  rw [getBlock_eq _ hq]
  simp only [gridBlocks, hblock, hoffset, dif_pos c.isLt, Prod.mk.injEq]
  by_cases hpq : p = q
  · subst hpq
    simp
  · have hne : ¬(q.2 = p.2 ∧ q.1 = p.1) := fun h => hpq (Prod.ext h.2.symm h.1.symm)
    rw [if_neg hne, if_neg hpq, dif_pos (cellIndex_lt hq c.isLt)]

theorem extends_cell {F b : Cells S} (h : Extends S (List.ofFn F) (List.ofFn b))
    {i : Fin (S*S*(S*S))} (hi : b i ≠ 0) : F i = b i := by
  have hget (b : Cells S) : (List.ofFn b)[i.1]? = some (b i) := by simp [i.isLt]
  have hF := h.agrees i (b i) (hget b) hi
  rw [hget F] at hF
  exact Option.some.inj hF

theorem extends_solved {F b : Cells S} (h : Extends S (List.ofFn F) (List.ofFn b))
    (i : Fin (S*S*(S*S))) : F i ≠ 0 := by
  have hone := (h.filling.values (F i) (List.mem_ofFn.mpr ⟨i,rfl⟩)).1
  omega

def gridSolutions (S : ℕ) : BlockSolutions S (gridBlocks S) where
  Complete v := ∀ c, v c ≠ 0
  Extends F b := Extends S (List.ofFn F) (List.ofFn b)
  get_set b _ _ v _ := getBlock_setBlock b v
  calculate_get b p hp hb := by
    funext c
    have hc := hb c
    rw [getBlock_eq b hp] at hc ⊢
    rw [getBlock_eq _ hp]
    exact if_neg hc
  extends_complete F b p h hp c := by
    rw [getBlock_eq F hp]
    exact extends_solved h _
  extends_get F b p h hp hb := by
    funext c
    have hc := hb c
    rw [getBlock_eq b hp] at hc ⊢
    rw [getBlock_eq F hp]
    exact extends_cell h hc

end SudokuGrid

end MsgBus
