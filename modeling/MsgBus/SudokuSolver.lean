import MsgBus.SudokuHelper

/-!
# The solver of a sudoku search

Boards wait in a queue for each key, those with the fewest alternatives at the
back. A board that is sent to a helper is pending until the helper is done
with it or the time for it has passed, when it is queued again. The entry of a
board that is done remains for answers that come late.
-/

set_option autoImplicit false

namespace MsgBus

structure PendingInfo (κ β : Type) where
  board : β
  usedHelper : EndpointId
  sequenceNo : MessageSequence
  key : κ
  tooLate : Timeout
  deriving DecidableEq

structure SolvedSudokuBoard (κ β : Type) where
  helperId : EndpointId
  key : κ
  elapsedTime : ℕ
  board : β
  deriving DecidableEq

structure SudokuSolverRankInfo (κ β : Type) [LinearOrder κ] where
  querySequence : MessageSequence := 0
  searchTimeout : RestartTimeout := ⟨3000,0⟩
  keyBoards : OrderedMap κ (List β) := OrderedMap.empty
  keyStarts : OrderedMap κ ℕ := OrderedMap.empty
  pending : List (PendingInfo κ β) := []
  remaining : List (PendingInfo κ β) := []
  knownHelpers : OrderedMap EndpointId Unit := OrderedMap.empty
  readyHelpers : OrderedMap EndpointId Unit := OrderedMap.empty
  updatedByHelper : OrderedMap EndpointId ℕ := OrderedMap.empty
  solvedByHelper : OrderedMap EndpointId ℕ := OrderedMap.empty
  /-- The solutions that have been signalled. -/
  solutions : List (SolvedSudokuBoard κ β) := []
  /-- How many numbers `send_board_to` has taken. -/
  turns : ℕ := 0

/-- The boards of a rank and the time that helpers have for one. -/
structure SudokuEnv (β : Type) where
  boards : SudokuBoards β
  defaultSolutionTimeout : ℕ

namespace SudokuSolverRankInfo

variable {κ β : Type} [LinearOrder κ]

/-- The number of values of `message_sequence_t`. -/
def sequenceCount : ℕ := 2^32

def countUp (counts : OrderedMap EndpointId ℕ) (helperId : EndpointId) :
    OrderedMap EndpointId ℕ :=
  counts.assign helperId ((counts.find? helperId).getD 0+1)

/-- The board in front of the first one with fewer alternatives. -/
def emplace (boards : SudokuBoards β) (board : β) (queue : List β) : List β :=
  let more := queue.takeWhile
    (fun e => boards.alternativeCount board ≤ boards.alternativeCount e)
  more ++ board::queue.drop more.length

def addBoard (env : SudokuEnv β) (now : ℕ) (s : SudokuSolverRankInfo κ β) (key : κ) (board : β) :
    SudokuSolverRankInfo κ β :=
  { s with
    keyStarts := if s.keyStarts.contains key then s.keyStarts else s.keyStarts.assign key now
    keyBoards := s.keyBoards.assign key
      (emplace env.boards board ((s.keyBoards.find? key).getD [])) }

/-- One entry that is too late. -/
def replaceTimeouted (env : SudokuEnv β) (now : ℕ) (alreadyDone : κ → Bool)
    (s : SudokuSolverRankInfo κ β) (entry : PendingInfo κ β) : SudokuSolverRankInfo κ β :=
  let s := if alreadyDone entry.key then s else s.addBoard env now entry.key entry.board
  { s with knownHelpers := s.knownHelpers.erase entry.usedHelper }

def handleTimeouted (env : SudokuEnv β) (now : ℕ) (alreadyDone : κ → Bool)
    (s : SudokuSolverRankInfo κ β) : SudokuSolverRankInfo κ β :=
  let replaced := (s.pending.filter (fun entry => entry.tooLate.isExpired now)).foldl
    (replaceTimeouted env now alreadyDone) s
  { replaced with pending := s.pending.filter (fun entry => !entry.tooLate.isExpired now) }

def processSolved (now : ℕ) (s : SudokuSolverRankInfo κ β) (done : PendingInfo κ β) (board : β) :
    SudokuSolverRankInfo κ β :=
  { s with
    keyBoards := s.keyBoards.eraseIf (fun key _ => done.key = key)
    solvedByHelper := countUp s.solvedByHelper done.usedHelper
    keyStarts := s.keyStarts.erase done.key
    solutions := s.solutions ++
      [⟨done.usedHelper,done.key,now-(s.keyStarts.find? done.key).getD 0,board⟩] }

def processUnsolved (env : SudokuEnv β) (now : ℕ) (s : SudokuSolverRankInfo κ β)
    (done : PendingInfo κ β) (board : β) : SudokuSolverRankInfo κ β :=
  let s := s.addBoard env now done.key board
  { s with updatedByHelper := countUp s.updatedByHelper done.usedHelper }

def processPendingEntry (env : SudokuEnv β) (now : ℕ) (isSolved : Bool)
    (s : SudokuSolverRankInfo κ β) (done : PendingInfo κ β) (board : β) :
    SudokuSolverRankInfo κ β :=
  if isSolved then s.processSolved now done board else s.processUnsolved env now done board

def restarted (now : ℕ) (entry : PendingInfo κ β) : PendingInfo κ β :=
  { entry with tooLate := entry.tooLate.reset now }

def hasSequence (sequenceNo : MessageSequence) (entry : PendingInfo κ β) : Bool :=
  entry.sequenceNo = sequenceNo

/-- The entry in question is the first one with the number of the message. -/
def handleResponse (env : SudokuEnv β) (now : ℕ) (isSolved : Bool)
    (s : SudokuSolverRankInfo κ β) (sequenceNo : MessageSequence) (board : β) :
    SudokuSolverRankInfo κ β :=
  match s.pending.findIdx? (hasSequence sequenceNo) with
  | some pos =>
    match s.pending[pos]? with
    | none => s
    | some entry =>
      { s.processPendingEntry env now isSolved entry board with
        pending := s.pending.modify pos (restarted now) }
  | none =>
    match s.remaining.findIdx? (hasSequence sequenceNo) with
    | none => s
    | some pos =>
      match s.remaining[pos]? with
      | none => s
      | some entry =>
        { s.processPendingEntry env now isSolved entry board with
          remaining := if isSolved then s.remaining.eraseIdx pos
            else s.remaining.modify pos (restarted now) }

def pendingDone (alreadyDone : κ → Bool) (s : SudokuSolverRankInfo κ β)
    (sequenceNo : MessageSequence) : SudokuSolverRankInfo κ β :=
  match s.pending.findIdx? (hasSequence sequenceNo) with
  | none => s
  | some pos =>
    match s.pending[pos]? with
    | none => s
    | some entry =>
      { s with
        readyHelpers := s.readyHelpers.assign entry.usedHelper ()
        remaining := if alreadyDone entry.key then
            s.remaining.filter (fun e => e.key ≠ entry.key)
          else s.remaining ++ [entry]
        pending := s.pending.eraseIdx pos }

def helperAlive (s : SudokuSolverRankInfo κ β) (sourceId : EndpointId) :
    SudokuSolverRankInfo κ β :=
  { s with
    knownHelpers := s.knownHelpers.assign sourceId ()
    readyHelpers := s.readyHelpers.assign sourceId () }

def sent (env : SudokuEnv β) (now : ℕ) (helperId : EndpointId) (sequenceNo : MessageSequence)
    (key : κ) (board : β) : PendingInfo κ β :=
  ⟨board,helperId,sequenceNo,key,⟨now,env.defaultSolutionTimeout⟩⟩

/-- The next number and the queue that it selects. An empty queue is dropped;
else the board at its back is sent. -/
def sendBoardTo (env : SudokuEnv β) (now : ℕ) (solverId : EndpointId)
    (s : SudokuSolverRankInfo κ β) (helperId : EndpointId) :
    Option (SudokuSolverRankInfo κ β × List (SudokuPacket β)) :=
  match s.keyBoards.entries[s.querySequence % s.keyBoards.size]? with
  | none => none
  | some (key,queue) =>
    let sequenceNo := (s.querySequence+1) % sequenceCount
    let s := { s with querySequence := sequenceNo, turns := s.turns+1 }
    match queue.getLast? with
    | none => some ({ s with keyBoards := s.keyBoards.erase key },[])
    | some board =>
      some ({ s with
          pending := s.pending ++ [sent env now helperId sequenceNo key board]
          keyBoards := s.keyBoards.assign key queue.dropLast
          readyHelpers := s.readyHelpers.erase helperId },
        [⟨solverId,helperId,.query sequenceNo board⟩])

end SudokuSolverRankInfo

/-! ## The search as a whole -/

structure SudokuSystem (κ β : Type) [LinearOrder κ] where
  solverId : EndpointId
  solver : SudokuSolverRankInfo κ β := {}
  helpers : EndpointId → SudokuHelperRankInfo β
  flight : List (SudokuPacket β) := []
  /-- The boards that have been enqueued, with their keys. -/
  enqueued : List (κ × β) := []

/-- The driver answers whether a key is done already; the order of the helpers
is what the shuffle makes of it. A packet that arrives may arrive again. -/
inductive SudokuEvent (κ β : Type) where
  | enqueue (now : ℕ) (key : κ) (board : β)
  | solverUpdate (now : ℕ) (alreadyDone : κ → Bool) (canWork shouldSendBoards : Bool)
      (order : List EndpointId)
  | helperUpdate (helperId : EndpointId)
  | deliver (now : ℕ) (alreadyDone : κ → Bool) (index : ℕ) (receiverId : EndpointId)
      (again : Bool)

namespace SudokuSystem

variable {κ β : Type} [LinearOrder κ]

def onSolver (s : SudokuSystem κ β)
    (f : SudokuSolverRankInfo κ β → SudokuSolverRankInfo κ β) : SudokuSystem κ β :=
  { s with solver := f s.solver }

def onHelper (s : SudokuSystem κ β) (helperId : EndpointId)
    (f : SudokuHelperRankInfo β → SudokuHelperRankInfo β) : SudokuSystem κ β :=
  { s with helpers := fun id => if id = helperId then f (s.helpers id) else s.helpers id }

def enqueue (env : SudokuEnv β) (now : ℕ) (s : SudokuSystem κ β) (key : κ) (board : β) :
    SudokuSystem κ β :=
  { s.onSolver (fun solver => solver.addBoard env now key board) with
    enqueued := s.enqueued ++ [(key,board)] }

def sendBoardTo (env : SudokuEnv β) (now : ℕ) (s : SudokuSystem κ β) (helperId : EndpointId) :
    Option (SudokuSystem κ β) :=
  (s.solver.sendBoardTo env now s.solverId helperId).map
    (fun out => { s with solver := out.1, flight := s.flight ++ out.2 })

def sendBoardsTo (env : SudokuEnv β) (now : ℕ) :
    List EndpointId → SudokuSystem κ β → SudokuSystem κ β
  | [], s => s
  | helperId::ids, s =>
    match s.sendBoardTo env now helperId with
    | none => s
    | some s' => sendBoardsTo env now ids s'

/-- At most eight of the ready helpers, in the order of the shuffle. -/
def sendBoards (env : SudokuEnv β) (now : ℕ) (order : List EndpointId) (s : SudokuSystem κ β) :
    SudokuSystem κ β :=
  s.sendBoardsTo env now ((order.filter s.solver.readyHelpers.contains).take 8)

def searchHelpers (now : ℕ) (s : SudokuSystem κ β) : SudokuSystem κ β :=
  if s.solver.searchTimeout.isExpired now then
    { s with
      solver := { s.solver with searchTimeout := s.solver.searchTimeout.reset now }
      flight := s.flight ++ [{ sourceId := s.solverId, message := .search }] }
  else s

def solverUpdate (env : SudokuEnv β) (now : ℕ) (alreadyDone : κ → Bool)
    (canWork shouldSendBoards : Bool) (order : List EndpointId) (s : SudokuSystem κ β) :
    SudokuSystem κ β :=
  let s := s.onSolver (fun solver => solver.handleTimeouted env now alreadyDone)
  if canWork then
    (if shouldSendBoards then s.sendBoards env now order else s).searchHelpers now
  else s

def helperUpdate (env : SudokuEnv β) (s : SudokuSystem κ β) (helperId : EndpointId) :
    SudokuSystem κ β :=
  let out := (s.helpers helperId).update env.boards helperId
  { s.onHelper helperId (fun _ => out.1) with flight := s.flight ++ out.2 }

def receive (env : SudokuEnv β) (now : ℕ) (alreadyDone : κ → Bool) (s : SudokuSystem κ β)
    (receiverId : EndpointId) (packet : SudokuPacket β) : SudokuSystem κ β :=
  match packet.message with
  | .search => s.onHelper receiverId (fun info => info.onSearch packet.sourceId)
  | .query sequenceNo board =>
    s.onHelper receiverId (fun info => info.addBoard packet.sourceId sequenceNo board)
  | .alive => if receiverId = s.solverId then
      s.onSolver (fun solver => solver.helperAlive packet.sourceId) else s
  | .candidate sequenceNo board => if receiverId = s.solverId then
      s.onSolver (fun solver => solver.handleResponse env now false sequenceNo board) else s
  | .solved sequenceNo board => if receiverId = s.solverId then
      s.onSolver (fun solver => solver.handleResponse env now true sequenceNo board) else s
  | .done sequenceNo => if receiverId = s.solverId then
      s.onSolver (fun solver => solver.pendingDone alreadyDone sequenceNo) else s

/-- Whether the packet is for the receiver; searches are broadcast. -/
def isFor (packet : SudokuPacket β) (receiverId : EndpointId) : Bool :=
  match packet.message with
  | .search => true
  | _ => packet.targetId = receiverId

def deliver (env : SudokuEnv β) (now : ℕ) (alreadyDone : κ → Bool) (s : SudokuSystem κ β)
    (index : ℕ) (receiverId : EndpointId) (again : Bool) : SudokuSystem κ β :=
  match s.flight[index]? with
  | none => s
  | some packet =>
    if isFor packet receiverId then
      receive env now alreadyDone
        { s with flight := if again then s.flight else s.flight.eraseIdx index } receiverId packet
    else s

def step (env : SudokuEnv β) (s : SudokuSystem κ β) : SudokuEvent κ β → SudokuSystem κ β
  | .enqueue now key board => s.enqueue env now key board
  | .solverUpdate now alreadyDone canWork shouldSendBoards order =>
    s.solverUpdate env now alreadyDone canWork shouldSendBoards order
  | .helperUpdate helperId => s.helperUpdate env helperId
  | .deliver now alreadyDone index receiverId again =>
    s.deliver env now alreadyDone index receiverId again

end SudokuSystem

end MsgBus
