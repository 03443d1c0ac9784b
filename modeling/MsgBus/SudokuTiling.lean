import Mathlib.Data.Prod.Lex
import MsgBus.SolvedKeys
import MsgBus.SudokuBlocks

/-!
# Tilings of sudoku boards

The tiling enqueues the boards of tiles at a solver, with the coordinates of
the tiles as keys. The board of a tile takes the blocks of its borders from the
neighbours that are nearer to the origin.
-/

set_option autoImplicit false

namespace MsgBus

/-- Coordinates are ordered by the first one. -/
abbrev Coord := ℤ ×ₗ ℤ

def coord (x y : ℤ) : Coord := toLex (x,y)

/-- The integers from `a` on and below `b`. -/
def integerRange (a b : ℤ) : List ℤ :=
  (List.range (b-a).toNat).map (fun i : ℕ => a+i)

structure BoardsExtent where
  xmin : ℤ
  ymin : ℤ
  xmax : ℤ
  ymax : ℤ
  deriving DecidableEq

namespace BoardsExtent

/-- Row by row. -/
def coords (e : BoardsExtent) : List (ℤ × ℤ) :=
  (integerRange e.ymin e.ymax).flatMap (fun y =>
    (integerRange e.xmin e.xmax).map (fun x => (x,y)))

end BoardsExtent

/-- The extent is in cells. -/
structure SudokuTiles (β : Type) where
  minu : ℤ := 0
  minv : ℤ := 0
  maxu : ℤ := 0
  maxv : ℤ := 0
  boards : OrderedMap Coord β := OrderedMap.empty

namespace SudokuTiles

variable {β : Type} (S : ℕ)

def cellsPerTileSide : ℤ := S*(S-1)

def cellsPerTile (t : SudokuTiles β) (c : Coord) : ℤ :=
  let x := (ofLex c).1
  let y := (ofLex c).2
  let minu := max (x*cellsPerTileSide S) t.minu
  let maxu := min ((x+1)*cellsPerTileSide S) t.maxu
  let minv := max (y*cellsPerTileSide S) t.minv
  let maxv := min ((y+1)*cellsPerTileSide S) t.maxv
  (maxu-minu)*(maxv-minv)

def getBoard (t : SudokuTiles β) (x y : ℤ) : Option β := t.boards.find? (coord x y)

/-- A board that is there is not replaced. -/
def setBoard (t : SudokuTiles β) (c : Coord) (board : β) : Bool × SudokuTiles β :=
  if t.boards.contains c then (false,t)
  else (true,{ t with boards := t.boards.assign c board })

def setExtent (t : SudokuTiles β) (min max : Coord) : SudokuTiles β :=
  { t with
    minu := (ofLex min).1
    minv := (ofLex min).2
    maxu := (ofLex max).1
    maxv := (ofLex max).2 }

/-- Cells in units of boards, away from zero. -/
def conv (c : ℤ) : ℤ :=
  if c < 0 then
    c.tdiv (cellsPerTileSide S)-(if (-c).tmod (cellsPerTileSide S) ≠ 0 then 1 else 0)
  else c.tdiv (cellsPerTileSide S)+(if c.tmod (cellsPerTileSide S) ≠ 0 then 1 else 0)

def boardsExtent (t : SudokuTiles β) : BoardsExtent where
  xmin := conv S t.minu
  ymin := conv S t.minv
  xmax := conv S t.maxu
  ymax := conv S t.maxv

def areComplete (t : SudokuTiles β) : Bool :=
  (t.boardsExtent S).coords.all (fun c => (t.getBoard c.1 c.2).isSome)

def reset (t : SudokuTiles β) : SudokuTiles β := { t with boards := OrderedMap.empty }

end SudokuTiles

namespace SudokuSolverRankInfo

def hasEnqueued {κ β : Type} [LinearOrder κ] (s : SudokuSolverRankInfo κ β) (key : κ) : Bool :=
  s.keyBoards.contains key || s.pending.any (fun entry => entry.key = key)

end SudokuSolverRankInfo

structure TilingEnv (β γ : Type) extends SudokuEnv β where
  blocks : SudokuBlocks β γ

structure SudokuTilingRankInfo (β : Type) extends SudokuTiles β where
  helperContrib : OrderedMap EndpointId ℕ := OrderedMap.empty
  cellsDone : ℤ := 0

/-- The tiling is the driver of its solver. -/
structure SudokuTiling (β : Type) where
  info : SudokuTilingRankInfo β := {}
  system : SudokuSystem Coord β

/-- Messages come in any order, with any number and any board. -/
inductive TilingEvent (β : Type) where
  | update (now : ℕ) (canWork shouldSendBoards : Bool) (order : List EndpointId)
  | receive (now : ℕ) (packet : SudokuPacket β)

namespace SudokuTiling

variable {β γ : Type} (S : ℕ)

/-- The loops over the blocks of a border. -/
def copyBlocks (blocks : SudokuBlocks β γ) (source : β) (src dst : ℕ → BlockCoord)
    (positions : List ℕ) (board : β) : β :=
  positions.foldl (fun board i => blocks.setBlock board (dst i) (blocks.getBlock source (src i)))
    board

def copyColumn (blocks : SudokuBlocks β γ) (source : β) (sourceX x : ℕ) (rows : List ℕ)
    (board : β) : β :=
  copyBlocks blocks source (fun y => (sourceX,y)) (fun y => (x,y)) rows board

def copyRow (blocks : SudokuBlocks β γ) (source : β) (sourceY y : ℕ) (columns : List ℕ)
    (board : β) : β :=
  copyBlocks blocks source (fun x => (x,sourceY)) (fun x => (x,y)) columns board

/-- The board that `do_enqueue` makes for a tile, if it should be enqueued. -/
def tileBoard (blocks : SudokuBlocks β γ) (t : SudokuTiles β) (x y : ℤ) : Option β :=
  let board := blocks.newBoard
  if 0 < y then
    if 0 < x then
      match t.getBoard (x-1) y, t.getBoard x (y-1) with
      | some left, some down =>
        some (copyRow blocks down 0 (S-1) (List.range' 1 (S-1))
          (copyColumn blocks left (S-1) 0 (List.range (S-1)) board))
      | _, _ => none
    else if x < 0 then
      match t.getBoard (x+1) y, t.getBoard x (y-1) with
      | some right, some down =>
        some (copyRow blocks down 0 (S-1) (List.range (S-1))
          (copyColumn blocks right 0 (S-1) (List.range (S-1)) board))
      | _, _ => none
    else
      match t.getBoard x (y-1) with
      | some down => some (copyRow blocks down 0 (S-1) (List.range S) board)
      | none => none
  else if y < 0 then
    if 0 < x then
      match t.getBoard (x-1) y, t.getBoard x (y+1) with
      | some left, some up =>
        some (copyRow blocks up (S-1) 0 (List.range' 1 (S-1))
          (copyColumn blocks left (S-1) 0 (List.range' 1 (S-1)) board))
      | _, _ => none
    else if x < 0 then
      match t.getBoard (x+1) y, t.getBoard x (y+1) with
      | some right, some up =>
        some (copyRow blocks up (S-1) 0 (List.range (S-1))
          (copyColumn blocks right 0 (S-1) (List.range' 1 (S-1)) board))
      | _, _ => none
    else
      match t.getBoard x (y+1) with
      | some up => some (copyRow blocks up (S-1) 0 (List.range S) board)
      | none => none
  else
    if 0 < x then
      match t.getBoard (x-1) y with
      | some left => some (copyColumn blocks left (S-1) 0 (List.range S) board)
      | none => none
    else if x < 0 then
      match t.getBoard (x+1) y with
      | some right => some (copyColumn blocks right 0 (S-1) (List.range S) board)
      | none => none
    else none

def doEnqueue (env : TilingEnv β γ) (now : ℕ) (s : SudokuTiling β) (x y : ℤ) :
    SudokuTiling β :=
  match tileBoard S env.blocks s.info.toSudokuTiles x y with
  | some board =>
    let board := env.blocks.calculateAlternatives board
    { s with system := s.system.enqueue env.toSudokuEnv now (coord x y) board }
  | none => s

/-- One tile of `enqueue_incomplete`. -/
def enqueueTile (env : TilingEnv β γ) (now : ℕ) (s : SudokuTiling β) (c : ℤ × ℤ) :
    SudokuTiling β :=
  if (s.info.getBoard c.1 c.2).isSome then s
  else if s.system.solver.hasEnqueued (coord c.1 c.2) then s
  else s.doEnqueue S env now c.1 c.2

def enqueueIncomplete (env : TilingEnv β γ) (now : ℕ) (s : SudokuTiling β) : SudokuTiling β :=
  (s.info.boardsExtent S).coords.foldl (enqueueTile S env now) s

/-- What a solution changes but for the boards that are enqueued. -/
def store (s : SudokuTiling β) (sol : SolvedSudokuBoard Coord β) : SudokuTiling β :=
  match s.info.setBoard sol.key sol.board with
  | (true,tiles) =>
    { s with info := { tiles with
        helperContrib := SudokuSolverRankInfo.countUp s.info.helperContrib sol.helperId
        cellsDone := s.info.cellsDone+tiles.cellsPerTile S sol.key } }
  | (false,_) => s

def handleSolved (env : TilingEnv β γ) (now : ℕ) (s : SudokuTiling β)
    (sol : SolvedSudokuBoard Coord β) : SudokuTiling β :=
  (s.store S sol).enqueueIncomplete S env now

def initializeTiling (env : TilingEnv β γ) (now : ℕ) (s : SudokuTiling β) (min max c : Coord)
    (board : β) : SudokuTiling β where
  info := { s.info.setExtent min max with
    helperContrib := s.info.helperContrib
    cellsDone := 0 }
  system := s.system.enqueue env.toSudokuEnv now c board

/-- The list of what has been enqueued starts over. -/
def reset (s : SudokuTiling β) : SudokuTiling β where
  info := { s.info with toSudokuTiles := s.info.toSudokuTiles.reset }
  system := { s.system with
    solver := s.system.solver.reset
    enqueued := [] }

/-- A tiling that is initialized after it was reset. -/
def start (env : TilingEnv β γ) (now : ℕ) (s : SudokuTiling β) (min max c : Coord)
    (board : β) : SudokuTiling β :=
  s.reset.initializeTiling env now min max c board

def alreadyDone (s : SudokuTiling β) (c : Coord) : Bool := s.info.boards.contains c

def update (env : TilingEnv β γ) (now : ℕ) (canWork shouldSendBoards : Bool)
    (order : List EndpointId) (s : SudokuTiling β) : SudokuTiling β :=
  let system :=
    s.system.solverUpdate env.toSudokuEnv now s.alreadyDone canWork shouldSendBoards order
  { s with system }

/-- Solutions are handled as they are signalled. -/
def receive (env : TilingEnv β γ) (now : ℕ) (s : SudokuTiling β) (packet : SudokuPacket β) :
    SudokuTiling β :=
  let system := s.system.receive env.toSudokuEnv now s.alreadyDone s.system.solverId packet
  (system.solver.solutions.drop s.system.solver.solutions.length).foldl (handleSolved S env now)
    { s with system }

def step (env : TilingEnv β γ) (s : SudokuTiling β) : TilingEvent β → SudokuTiling β
  | .update now canWork shouldSendBoards order => s.update env now canWork shouldSendBoards order
  | .receive now packet => s.receive S env now packet

end SudokuTiling

end MsgBus
