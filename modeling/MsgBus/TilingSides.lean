import Mathlib.Algebra.Ring.Int.Defs
import MsgBus.SudokuTiling

/-!
# Sides of tiles

A tile shares the blocks of each border with a neighbour. The neighbours that
are nearer to the origin are those whose blocks the board of the tile takes.
-/

set_option autoImplicit false

namespace MsgBus

inductive Side where
  | left | right | down | up
  deriving DecidableEq

namespace Side

def opposite : Side → Side
  | left => right
  | right => left
  | down => up
  | up => down

def neighbor : Side → ℤ × ℤ → ℤ × ℤ
  | left, c => (c.1-1,c.2)
  | right, c => (c.1+1,c.2)
  | down, c => (c.1,c.2-1)
  | up, c => (c.1,c.2+1)

/-- The neighbour at the side is nearer to the origin. -/
def Inward : Side → ℤ × ℤ → Prop
  | left, c => 0 < c.1
  | right, c => c.1 < 0
  | down, c => 0 < c.2
  | up, c => c.2 < 0

/-- The blocks of the border; the last row is the lower one. -/
def block (S : ℕ) : Side → ℕ → BlockCoord
  | left, i => (0,i)
  | right, i => (S-1,i)
  | down, i => (i,S-1)
  | up, i => (i,0)

theorem block_inBoard {S i : ℕ} (side : Side) (hi : i < S) : InBoard S (side.block S i) := by
  have hS : S-1 < S := by omega
  have h0 : 0 < S := by omega
  cases side with
  | left => exact ⟨h0,hi⟩
  | right => exact ⟨hS,hi⟩
  | down => exact ⟨hi,hS⟩
  | up => exact ⟨hi,h0⟩

theorem block_injective (S : ℕ) (side : Side) : Function.Injective (side.block S) := by
  intro i j h
  cases side <;> simpa [block] using h

theorem neighbor_opposite (side : Side) (c : ℤ × ℤ) :
    side.opposite.neighbor (side.neighbor c) = c := by
  cases side <;> simp [opposite, neighbor]

theorem opposite_opposite (side : Side) : side.opposite.opposite = side := by
  cases side <;> rfl

/-- Of two neighbours one is nearer to the origin. -/
theorem inward_or (side : Side) (c : ℤ × ℤ) :
    side.Inward c ∨ side.opposite.Inward (side.neighbor c) := by
  cases side <;> simp only [Inward, opposite, neighbor] <;> omega

end Side

/-- The distance from the origin. -/
def distance (c : ℤ × ℤ) : ℕ := c.1.natAbs+c.2.natAbs

theorem distance_inward {side : Side} {c : ℤ × ℤ} (h : side.Inward c) :
    distance (side.neighbor c)+1 = distance c := by
  cases side <;> simp only [Side.Inward, distance, Side.neighbor] at h ⊢ <;> omega

theorem inward_exists {c : ℤ × ℤ} (h : c ≠ 0) : ∃ side : Side, side.Inward c := by
  by_contra hno
  have hside (side : Side) : ¬side.Inward c := fun h => hno ⟨side,h⟩
  apply h
  have hleft := hside .left
  have hright := hside .right
  have hdown := hside .down
  have hup := hside .up
  simp only [Side.Inward] at hleft hright hdown hup
  exact Prod.ext (by show c.1 = 0; omega) (by show c.2 = 0; omega)

/-- The corner block of a tile that faces the origin. -/
def corner (S : ℕ) (c : ℤ × ℤ) : BlockCoord :=
  (if 0 < c.1 then 0 else S-1,if 0 < c.2 then S-1 else 0)

/-- The block that is left open for tiles off both axes. -/
def LeftOpen (S : ℕ) (c : ℤ × ℤ) (p : BlockCoord) : Prop :=
  c.1 ≠ 0 ∧ c.2 ≠ 0 ∧ p = corner S c

namespace SudokuTiling

variable {β γ : Type} {S : ℕ} {blocks : SudokuBlocks β γ}

/-! ## Copied blocks -/

section Copy

variable (sol : BlockSolutions S blocks) {source : β} {src dst : ℕ → BlockCoord}
  {positions : List ℕ}

include sol in
theorem get_copy_other (board : β) {q : BlockCoord} (hq : InBoard S q)
    (hdst : ∀ i ∈ positions, InBoard S (dst i)) (hne : ∀ i ∈ positions, dst i ≠ q) :
    blocks.getBlock (copyBlocks blocks source src dst positions board) q =
      blocks.getBlock board q := by
  induction positions generalizing board with
  | nil => rfl
  | cons i positions ih =>
    rw [copyBlocks, List.foldl_cons, ← copyBlocks,
      ih _ (fun j hj => hdst j (List.mem_cons_of_mem _ hj))
        (fun j hj => hne j (List.mem_cons_of_mem _ hj)),
      sol.get_set _ _ _ _ (hdst i List.mem_cons_self) hq, if_neg (hne i List.mem_cons_self)]

include sol in
theorem get_copy (board : β) {i : ℕ} (hinj : Function.Injective dst)
    (hdst : ∀ i ∈ positions, InBoard S (dst i)) (hi : i ∈ positions) :
    blocks.getBlock (copyBlocks blocks source src dst positions board) (dst i) =
      blocks.getBlock source (src i) := by
  induction positions generalizing board with
  | nil => cases hi
  | cons j positions ih =>
    have hrest : ∀ i ∈ positions, InBoard S (dst i) :=
      fun i hi => hdst i (List.mem_cons_of_mem _ hi)
    rw [copyBlocks, List.foldl_cons, ← copyBlocks]
    by_cases hmem : i ∈ positions
    · exact ih _ hrest hmem
    · obtain rfl : i = j := (List.mem_cons.mp hi).resolve_right hmem
      have hin := hdst i List.mem_cons_self
      rw [get_copy_other sol _ hin hrest
        (fun k hk he => hmem (hinj he ▸ hk)), sol.get_set _ _ _ _ hin hin, if_pos rfl]

end Copy

/-! ## Boards of tiles -/

/-- The blocks of the border are those of the neighbour, but for the open one. -/
def Copies (S : ℕ) (blocks : SudokuBlocks β γ) (c : ℤ × ℤ) (side : Side) (board source : β) :
    Prop :=
  ∀ i < S, ¬LeftOpen S c (side.block S i) →
    blocks.getBlock board (side.block S i) = blocks.getBlock source (side.opposite.block S i)

theorem edge_copies (sol : BlockSolutions S blocks) (c : ℤ × ℤ) (side : Side) (source board : β) :
    Copies S blocks c side (copyBlocks blocks source (side.opposite.block S) (side.block S)
      (List.range S) board) source := by
  intro i hi _
  exact get_copy sol board (side.block_injective S)
    (fun j hj => side.block_inBoard (List.mem_range.mp hj)) (List.mem_range.mpr hi)

/-- Two borders that are copied one after the other. -/
theorem corner_copies (sol : BlockSolutions S blocks) {c : ℤ × ℤ} {side side' : Side}
    {rows columns : List ℕ} (source source' board : β)
    (hrows : ∀ i ∈ rows, i < S) (hcolumns : ∀ i ∈ columns, i < S)
    (hside : ∀ i < S, ¬LeftOpen S c (side.block S i) →
      i ∈ rows ∧ ∀ j ∈ columns, side'.block S j ≠ side.block S i)
    (hside' : ∀ i < S, ¬LeftOpen S c (side'.block S i) → i ∈ columns) :
    let board' := copyBlocks blocks source' (side'.opposite.block S) (side'.block S) columns
      (copyBlocks blocks source (side.opposite.block S) (side.block S) rows board)
    Copies S blocks c side board' source ∧ Copies S blocks c side' board' source' := by
  have hin' : ∀ j ∈ columns, InBoard S (side'.block S j) :=
    fun j hj => side'.block_inBoard (hcolumns j hj)
  constructor
  · intro i hi hopen
    obtain ⟨hmem,hne⟩ := hside i hi hopen
    rw [get_copy_other sol _ (side.block_inBoard hi) hin' hne]
    exact get_copy sol board (side.block_injective S)
      (fun j hj => side.block_inBoard (hrows j hj)) hmem
  · intro i hi hopen
    exact get_copy sol _ (side'.block_injective S) hin' (hside' i hi hopen)

/-! ## The cases of `do_enqueue` -/

/-- The side is the only one that faces the origin. -/
def Only (side : Side) (c : ℤ × ℤ) : Prop :=
  side.Inward c ∧ ∀ side' : Side, side'.Inward c → side' = side

/-- A side of a column and a side of a row face the origin. -/
structure Quadrant (side side' : Side) (c : ℤ × ℤ) : Prop where
  column : side = .left ∨ side = .right
  row : side' = .down ∨ side' = .up
  inward : side.Inward c
  inward' : side'.Inward c

theorem quadrant_sides {side side' : Side} {c : ℤ × ℤ} (h : Quadrant side side' c)
    {side'' : Side} (hin : side''.Inward c) : side'' = side ∨ side'' = side' := by
  obtain ⟨rfl | rfl,rfl | rfl,hx,hy⟩ := h
  all_goals
    simp only [Side.Inward] at hx hy
    cases side'' <;> simp only [Side.Inward] at hin <;> first | omega | simp

theorem only_column {side : Side} (hside : side = .left ∨ side = .right) {x : ℤ}
    (hin : side.Inward (x,0)) : Only side (x,0) := by
  refine ⟨hin,?_⟩
  obtain rfl | rfl := hside
  all_goals
    intro side' hin'
    cases side' <;> simp only [Side.Inward] at hin hin' <;> first | rfl | omega

theorem only_row {side : Side} (hside : side = .down ∨ side = .up) {y : ℤ}
    (hin : side.Inward (0,y)) : Only side (0,y) := by
  refine ⟨hin,?_⟩
  obtain rfl | rfl := hside
  all_goals
    intro side' hin'
    cases side' <;> simp only [Side.Inward] at hin hin' <;> first | rfl | omega

theorem sides_cases {c : ℤ × ℤ} (hc : c ≠ 0) :
    (∃ side, Only side c) ∨ ∃ side side', Quadrant side side' c := by
  obtain ⟨x,y⟩ := c
  rcases lt_trichotomy x 0 with hx | rfl | hx
  · rcases lt_trichotomy y 0 with hy | rfl | hy
    · exact Or.inr ⟨.right,.up,Or.inr rfl,Or.inr rfl,hx,hy⟩
    · exact Or.inl ⟨.right,only_column (Or.inr rfl) hx⟩
    · exact Or.inr ⟨.right,.down,Or.inr rfl,Or.inl rfl,hx,hy⟩
  · rcases lt_trichotomy y 0 with hy | rfl | hy
    · exact Or.inl ⟨.up,only_row (Or.inr rfl) hy⟩
    · exact absurd rfl hc
    · exact Or.inl ⟨.down,only_row (Or.inl rfl) hy⟩
  · rcases lt_trichotomy y 0 with hy | rfl | hy
    · exact Or.inr ⟨.left,.up,Or.inl rfl,Or.inr rfl,hx,hy⟩
    · exact Or.inl ⟨.left,only_column (Or.inl rfl) hx⟩
    · exact Or.inr ⟨.left,.down,Or.inl rfl,Or.inl rfl,hx,hy⟩

/-- The rows of a column that are copied when the other side is that of a row. -/
def copiedRows (S : ℕ) : Side → List ℕ
  | .down => List.range (S-1)
  | _ => List.range' 1 (S-1)

def copiedColumns (S : ℕ) : Side → List ℕ
  | .left => List.range' 1 (S-1)
  | _ => List.range (S-1)

def edgeBoard (S : ℕ) (blocks : SudokuBlocks β γ) (side : Side) (source : β) : β :=
  copyBlocks blocks source (side.opposite.block S) (side.block S) (List.range S) blocks.newBoard

def cornerBoard (S : ℕ) (blocks : SudokuBlocks β γ) (side side' : Side) (source source' : β) : β :=
  copyBlocks blocks source' (side'.opposite.block S) (side'.block S) (copiedColumns S side)
    (copyBlocks blocks source (side.opposite.block S) (side.block S) (copiedRows S side')
      blocks.newBoard)

def tileAt (t : SudokuTiles β) (c : ℤ × ℤ) : Option β := t.getBoard c.1 c.2

variable (t : SudokuTiles β) {c : ℤ × ℤ}

theorem tileBoard_origin : tileBoard S blocks t 0 0 = none := by
  simp [tileBoard]

theorem tileBoard_only {side : Side} (h : Only side c) :
    tileBoard S blocks t c.1 c.2 =
      (tileAt t (side.neighbor c)).map (edgeBoard S blocks side) := by
  obtain ⟨x,y⟩ := c
  obtain ⟨hin,hother⟩ := h
  have hnot (side' : Side) (hne : side' ≠ side) : ¬side'.Inward (x,y) :=
    fun h => hne (hother side' h)
  rw [tileBoard]
  cases side with
  | left =>
    have hx : 0 < x := hin
    have hdown : ¬0 < y := hnot .down (by decide)
    have hup : ¬y < 0 := hnot .up (by decide)
    simp only [hx, hdown, hup, if_true, if_false, tileAt, Side.neighbor]
    cases t.getBoard (x-1) y <;> rfl
  | right =>
    have hx : x < 0 := hin
    have hleft : ¬0 < x := hnot .left (by decide)
    have hdown : ¬0 < y := hnot .down (by decide)
    have hup : ¬y < 0 := hnot .up (by decide)
    simp only [hx, hleft, hdown, hup, if_true, if_false, tileAt, Side.neighbor]
    cases t.getBoard (x+1) y <;> rfl
  | down =>
    have hy : 0 < y := hin
    have hleft : ¬0 < x := hnot .left (by decide)
    have hright : ¬x < 0 := hnot .right (by decide)
    simp only [hy, hleft, hright, if_true, if_false, tileAt, Side.neighbor]
    cases t.getBoard x (y-1) <;> rfl
  | up =>
    have hy : y < 0 := hin
    have hdown : ¬0 < y := hnot .down (by decide)
    have hleft : ¬0 < x := hnot .left (by decide)
    have hright : ¬x < 0 := hnot .right (by decide)
    simp only [hy, hdown, hleft, hright, if_true, if_false, tileAt, Side.neighbor]
    cases t.getBoard x (y+1) <;> rfl

theorem tileBoard_quadrant {side side' : Side} (h : Quadrant side side' c) :
    tileBoard S blocks t c.1 c.2 = (tileAt t (side.neighbor c)).bind (fun source =>
      (tileAt t (side'.neighbor c)).map (cornerBoard S blocks side side' source)) := by
  obtain ⟨x,y⟩ := c
  obtain ⟨rfl | rfl,rfl | rfl,hx,hy⟩ := h
  all_goals
    simp only [Side.Inward] at hx hy
    rw [tileBoard]
    simp only [tileAt, Side.neighbor]
  · simp only [hx, hy, if_true]
    cases t.getBoard (x-1) y <;> cases t.getBoard x (y-1) <;> rfl
  · simp only [hx, hy, hy.not_gt, if_true, if_false]
    cases t.getBoard (x-1) y <;> cases t.getBoard x (y+1) <;> rfl
  · simp only [hx, hy, hx.not_gt, if_true, if_false]
    cases t.getBoard (x+1) y <;> cases t.getBoard x (y-1) <;> rfl
  · simp only [hx, hy, hx.not_gt, hy.not_gt, if_true, if_false]
    cases t.getBoard (x+1) y <;> cases t.getBoard x (y+1) <;> rfl

theorem quadrant_copies (sol : BlockSolutions S blocks) {side side' : Side}
    (h : Quadrant side side' c) (source source' : β) :
    Copies S blocks c side (cornerBoard S blocks side side' source source') source ∧
      Copies S blocks c side' (cornerBoard S blocks side side' source source') source' := by
  apply corner_copies sol
  case hrows =>
    intro i hi
    obtain ⟨-,rfl | rfl,-⟩ := h <;> simp [copiedRows] at hi <;> omega
  case hcolumns =>
    intro i hi
    obtain ⟨rfl | rfl,-⟩ := h <;> simp [copiedColumns] at hi <;> omega
  case hside =>
    intro i hi hopen
    obtain ⟨rfl | rfl,rfl | rfl,hx,hy⟩ := h
    all_goals
      simp only [Side.Inward] at hx hy
      simp only [LeftOpen, corner, Side.block, hx, hy, hx.not_gt, hy.not_gt, hx.ne, hy.ne,
        hx.ne', hy.ne', if_true, if_false, ne_eq, not_false_eq_true, true_and,
        Prod.mk.injEq] at hopen
      simp only [copiedRows, copiedColumns, Side.block, List.mem_range, List.mem_range'_1, ne_eq,
        Prod.mk.injEq]
      exact ⟨by omega,fun j hj => by omega⟩
  case hside' =>
    intro i hi hopen
    obtain ⟨rfl | rfl,rfl | rfl,hx,hy⟩ := h
    all_goals
      simp only [Side.Inward] at hx hy
      simp only [LeftOpen, corner, Side.block, hx, hy, hx.not_gt, hy.not_gt, hx.ne, hy.ne,
        hx.ne', hy.ne', if_true, if_false, ne_eq, not_false_eq_true, true_and, and_true,
        Prod.mk.injEq] at hopen
      simp only [copiedColumns, List.mem_range, List.mem_range'_1]
      omega

variable {t}

theorem tileBoard_cases {board : β} (h : tileBoard S blocks t c.1 c.2 = some board) :
    (∃ side source, Only side c ∧ tileAt t (side.neighbor c) = some source ∧
      board = edgeBoard S blocks side source) ∨
    ∃ side side' source source', Quadrant side side' c ∧
      tileAt t (side.neighbor c) = some source ∧ tileAt t (side'.neighbor c) = some source' ∧
      board = cornerBoard S blocks side side' source source' := by
  have hc : c ≠ 0 := by
    rintro rfl
    rw [show tileBoard S blocks t (0 : ℤ × ℤ).1 (0 : ℤ × ℤ).2 = none from tileBoard_origin t] at h
    cases h
  rcases sides_cases hc with ⟨side,ho⟩ | ⟨side,side',hq⟩
  · rw [tileBoard_only t ho] at h
    obtain ⟨source,hsource,rfl⟩ := Option.map_eq_some_iff.mp h
    exact Or.inl ⟨side,source,ho,hsource,rfl⟩
  · rw [tileBoard_quadrant t hq] at h
    obtain ⟨source,hsource,h⟩ := Option.bind_eq_some_iff.mp h
    obtain ⟨source',hsource',rfl⟩ := Option.map_eq_some_iff.mp h
    exact Or.inr ⟨side,side',source,source',hq,hsource,hsource',rfl⟩

theorem inward_off {side : Side} (h : side.Inward c) : c ≠ 0 := by
  rintro rfl
  exact Nat.succ_ne_zero _ (distance_inward h)

theorem tileBoard_off {board : β} (h : tileBoard S blocks t c.1 c.2 = some board) : c ≠ 0 := by
  rcases tileBoard_cases h with ⟨side,_,ho,-⟩ | ⟨side,_,_,_,hq,-⟩
  · exact inward_off ho.1
  · exact inward_off hq.inward

theorem tileBoard_copies (sol : BlockSolutions S blocks) {board : β}
    (h : tileBoard S blocks t c.1 c.2 = some board) {side : Side} (hin : side.Inward c) :
    ∃ source, tileAt t (side.neighbor c) = some source ∧ Copies S blocks c side board source := by
  rcases tileBoard_cases h with
    ⟨only,source,ho,hsource,rfl⟩ | ⟨column,row,source,source',hq,hsource,hsource',rfl⟩
  · obtain rfl := ho.2 side hin
    exact ⟨source,hsource,edge_copies sol c side source blocks.newBoard⟩
  · obtain ⟨hcopies,hcopies'⟩ := quadrant_copies sol hq source source'
    rcases quadrant_sides hq hin with rfl | rfl
    · exact ⟨source,hsource,hcopies⟩
    · exact ⟨source',hsource',hcopies'⟩

/-- Every neighbour nearer to the origin is there. -/
def Reached (t : SudokuTiles β) (c : ℤ × ℤ) : Prop :=
  c ≠ 0 ∧ ∀ side : Side, side.Inward c → ∃ source, tileAt t (side.neighbor c) = some source

def Stored (s : SudokuTiling β) (c : ℤ × ℤ) (a : β) : Prop :=
  tileAt s.info.toSudokuTiles c = some a

def Enqueued (s : SudokuTiling β) (c : ℤ × ℤ) (b : β) : Prop :=
  (toLex c,b) ∈ s.system.enqueued

theorem stored_same {s s' : SudokuTiling β} (h : s'.info = s.info) (c : ℤ × ℤ) (a : β) :
    s'.Stored c a ↔ s.Stored c a := by
  rw [Stored, h, Stored]

theorem enqueued_same {s s' : SudokuTiling β} (h : s'.system.enqueued = s.system.enqueued)
    (c : ℤ × ℤ) (b : β) : s'.Enqueued c b ↔ s.Enqueued c b := by
  rw [Enqueued, h, Enqueued]

section Steps

variable (env : TilingEnv β γ) (now : ℕ) {s : SudokuTiling β}

/-- A tile is left alone or enqueued with the board that is made for it. -/
theorem enqueueTile_cases (s : SudokuTiling β) (c : ℤ × ℤ) : s.enqueueTile S env now c = s ∨
    ∃ board, tileBoard S env.blocks s.info.toSudokuTiles c.1 c.2 = some board ∧
      s.enqueueTile S env now c = { s with
        system := s.system.enqueue env.toSudokuEnv now (toLex c)
          (env.blocks.calculateAlternatives board) } := by
  rw [enqueueTile]
  split
  · exact Or.inl rfl
  · split
    · exact Or.inl rfl
    · rw [doEnqueue]
      split
      · case _ board hboard => exact Or.inr ⟨board,hboard,rfl⟩
      · exact Or.inl rfl

theorem info_enqueueTile (s : SudokuTiling β) (c : ℤ × ℤ) :
    (s.enqueueTile S env now c).info = s.info := by
  rcases enqueueTile_cases (S := S) env now s c with he | ⟨board,-,he⟩
  · rw [he]
  · rw [he]

/-- The rule for the loop over the extent. -/
theorem enqueueIncomplete_keeps {P : SudokuTiling β → Prop} (h : P s)
    (hstep : ∀ s' c, P s' → P (s'.enqueueTile S env now c)) :
    P (s.enqueueIncomplete S env now) := by
  rw [enqueueIncomplete]
  generalize (s.info.boardsExtent S).coords = cs
  induction cs generalizing s with
  | nil => exact h
  | cons c cs ih => exact ih (hstep s c h)

theorem info_enqueueIncomplete (s : SudokuTiling β) :
    (s.enqueueIncomplete S env now).info = s.info :=
  enqueueIncomplete_keeps (P := fun s' => s'.info = s.info) env now rfl
    (fun s' c h => (info_enqueueTile env now s' c).trans h)

theorem enqueued_enqueueTile {c d : ℤ × ℤ} {b : β}
    (h : (s.enqueueTile S env now c).Enqueued d b) : s.Enqueued d b ∨
      d = c ∧ ∃ board, tileBoard S env.blocks s.info.toSudokuTiles c.1 c.2 = some board ∧
        b = env.blocks.calculateAlternatives board := by
  rcases enqueueTile_cases (S := S) env now s c with he | ⟨board,hboard,he⟩
  · rw [he] at h
    exact Or.inl h
  · rw [he] at h
    rcases List.mem_append.mp h with h | h
    · exact Or.inl h
    · obtain ⟨hd,rfl⟩ := Prod.mk.inj (List.mem_singleton.mp h)
      exact Or.inr ⟨toLex.injective hd,board,hboard,rfl⟩

theorem enqueued_kept {c d : ℤ × ℤ} {b : β} (h : s.Enqueued d b) :
    (s.enqueueTile S env now c).Enqueued d b := by
  rcases enqueueTile_cases (S := S) env now s c with he | ⟨board,-,he⟩
  · rw [he]
    exact h
  · rw [he]
    exact List.mem_append_left _ h

/-- A solution is stored unless there is one for its tile. -/
theorem stored_store (sol : SolvedSudokuBoard Coord β) {c : ℤ × ℤ} {a : β} :
    (s.store S sol).Stored c a ↔
      s.Stored c a ∨ toLex c = sol.key ∧ a = sol.board ∧ ∀ a', ¬s.Stored c a' := by
  have hstored (a : β) : s.Stored c a ↔ s.info.boards.find? (toLex c) = some a := Iff.rfl
  rw [store, SudokuTiles.setBoard]
  cases hfind : s.info.boards.find? sol.key with
  | some a' =>
    rw [if_pos (by rw [OrderedMap.contains, hfind]; rfl)]
    refine ⟨Or.inl,?_⟩
    rintro (h | ⟨hkey,-,hno⟩)
    · exact h
    · exact absurd ((hstored a').mpr (hkey ▸ hfind)) (hno a')
  | none =>
    rw [if_neg (by rw [OrderedMap.contains, hfind]; exact Bool.false_ne_true)]
    show (s.info.boards.assign sol.key sol.board).find? (toLex c) = some a ↔ _
    simp only [hstored, OrderedMap.find?_assign]
    by_cases hkey : sol.key = toLex c
    · rw [if_pos hkey, ← hkey, hfind]
      simp [eq_comm]
    · simp [hkey, Ne.symm hkey]

theorem system_store (s : SudokuTiling β) (sol : SolvedSudokuBoard Coord β) :
    (s.store S sol).system = s.system := by
  rw [store]
  split <;> rfl

/-! ## Messages -/

/-- At most one solution is signalled: that of the entry which is answered. -/
theorem signalled_cases (alreadyDone : Coord → Bool) (packet : SudokuPacket β)
    (system : SudokuSystem Coord β) :
    let system' := system.receive env.toSudokuEnv now alreadyDone system.solverId packet
    ((∀ n board, packet.message = .solved n board → system.solver.answered n = none) ∧
      system'.solver.solutions.drop system.solver.solutions.length = []) ∨
    ∃ n entry sol, packet.message = .solved n sol.board ∧
      system.solver.answered n = some entry ∧ sol.key = entry.key ∧
      system'.solver.solutions.drop system.solver.solutions.length = [sol] := by
  have hsame {solver : SudokuSolverRankInfo Coord β}
      (h : solver.solutions = system.solver.solutions) :
      solver.solutions.drop system.solver.solutions.length = [] := by
    rw [h, List.drop_length]
  rw [SudokuSystem.receive]
  cases packet.message with
  | search => exact Or.inl ⟨by rintro _ _ ⟨⟩,hsame rfl⟩
  | query n board => exact Or.inl ⟨by rintro _ _ ⟨⟩,hsame rfl⟩
  | alive =>
    simp only [↓reduceIte, SudokuSystem.onSolver]
    exact Or.inl ⟨by rintro _ _ ⟨⟩,hsame rfl⟩
  | done n =>
    simp only [↓reduceIte, SudokuSystem.onSolver]
    refine Or.inl ⟨by rintro _ _ ⟨⟩,?_⟩
    rcases SudokuSolverRankInfo.pendingDone_spec alreadyDone system.solver n with he | ⟨t,-,-,hc⟩
    · exact hsame (by rw [he])
    · exact hsame hc.solutions
  | candidate n board =>
    simp only [↓reduceIte, SudokuSystem.onSolver]
    refine Or.inl ⟨by rintro _ _ ⟨⟩,?_⟩
    rcases SudokuSolverRankInfo.handleResponse_candidate env.toSudokuEnv now system.solver n board
      with ⟨-,he⟩ | ⟨t,-,-,hs,-⟩
    · exact hsame (by rw [he])
    · exact hsame hs.solutions
  | solved n board =>
    simp only [↓reduceIte, SudokuSystem.onSolver]
    cases ha : system.solver.answered n with
    | none =>
      left
      constructor
      · rintro _ _ ⟨⟩
        exact ha
      · apply hsame
        rw [SolverRun.handleResponse_unanswered env.toSudokuEnv now true board ha]
    | some entry =>
      obtain ⟨-,hsol,-⟩ := SolverRun.handleResponse_answered env.toSudokuEnv now true board ha
      let elapsed := now-(system.solver.keyStarts.find? entry.key).getD 0
      refine Or.inr ⟨n,entry,⟨entry.usedHelper,entry.key,elapsed,board⟩,rfl,ha,rfl,?_⟩
      rw [hsol]
      exact List.drop_left

theorem enqueued_receive (alreadyDone : Coord → Bool) (receiverId : EndpointId)
    (packet : SudokuPacket β) (system : SudokuSystem Coord β) :
    (system.receive env.toSudokuEnv now alreadyDone receiverId packet).enqueued =
      system.enqueued := by
  rw [SudokuSystem.receive]
  cases packet.message
  all_goals first
    | rfl
    | (simp only; split <;> rfl)

theorem enqueued_sendBoardsTo (senv : SudokuEnv β) (ids : List EndpointId)
    (system : SudokuSystem Coord β) :
    (system.sendBoardsTo senv now ids).enqueued = system.enqueued := by
  apply SudokuSystem.sendBoardsTo_keeps senv now
    (P := fun s => s.enqueued = system.enqueued) _ ids rfl
  intro s s' helperId h hs
  obtain ⟨out,-,rfl⟩ := Option.map_eq_some_iff.mp hs
  exact h

theorem enqueued_update (canWork shouldSendBoards : Bool) (order : List EndpointId)
    (s : SudokuTiling β) : (s.update env now canWork shouldSendBoards order).system.enqueued =
      s.system.enqueued := by
  have hsearch (system : SudokuSystem Coord β) :
      (system.searchHelpers now).enqueued = system.enqueued := by
    rw [SudokuSystem.searchHelpers]
    split <;> rfl
  rw [update, SudokuSystem.solverUpdate]
  cases canWork with
  | false => rfl
  | true =>
    rw [if_pos rfl, hsearch]
    cases shouldSendBoards with
    | false => rfl
    | true => exact enqueued_sendBoardsTo now env.toSudokuEnv _ _

end Steps

end SudokuTiling

end MsgBus
