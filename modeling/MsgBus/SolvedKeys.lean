import MsgBus.SudokuSearch

/-!
# Keys that are solved

The solver with the default driver, for which no key is done already and which
lets boards be sent. The boards that are sent and the solutions that are
signalled are noticed by their keys. A key is closed from its signal until it
is enqueued again.
-/

set_option autoImplicit false

namespace MsgBus

namespace SudokuSolverRankInfo

variable {κ β : Type} [LinearOrder κ]

/-- The answer of `sudoku_solver_driver`. -/
def defaultAlreadyDone (_ : κ) : Bool := false

def searchHelpers (now : ℕ) (s : SudokuSolverRankInfo κ β) : SudokuSolverRankInfo κ β :=
  if s.searchTimeout.isExpired now then
    { s with searchTimeout := s.searchTimeout.reset now }
  else s

def reset (s : SudokuSolverRankInfo κ β) : SudokuSolverRankInfo κ β :=
  { s with
    keyStarts := OrderedMap.empty
    keyBoards := OrderedMap.empty
    pending := []
    remaining := [] }

/-- The entry that takes an answer with the number. -/
def answered (s : SudokuSolverRankInfo κ β) (sequenceNo : MessageSequence) :
    Option (PendingInfo κ β) :=
  (s.pending.find? (hasSequence sequenceNo)).or (s.remaining.find? (hasSequence sequenceNo))

end SudokuSolverRankInfo

inductive SolverNotice (κ : Type) where
  | enqueued (key : κ)
  | sent (key : κ)
  | signalled (key : κ)
  deriving DecidableEq

namespace SolverNotice

variable {κ : Type} [DecidableEq κ]

/-- Whether the last of what was noticed of the key, in lists with the last
notice first, is its signal and not that it was enqueued. -/
def closed (key : κ) : List (SolverNotice κ) → Bool
  | [] => false
  | .enqueued k::h => if k = key then false else closed key h
  | .signalled k::h => if k = key then true else closed key h
  | .sent _::h => closed key h

/-- Nothing was sent or signalled of a key that was closed. -/
def OnlyOpen : List (SolverNotice κ) → Prop
  | [] => True
  | .enqueued _::h => OnlyOpen h
  | .sent key::h => closed key h = false ∧ OnlyOpen h
  | .signalled key::h => closed key h = false ∧ OnlyOpen h

end SolverNotice

structure SolverRun (κ β : Type) [LinearOrder κ] where
  solver : SudokuSolverRankInfo κ β := {}
  /-- The last notice first. -/
  notices : List (SolverNotice κ) := []

/-- Messages come with any number and any board. -/
inductive SolverEvent (κ β : Type) where
  | enqueue (now : ℕ) (key : κ) (board : β)
  | update (now : ℕ) (canWork : Bool) (order : List EndpointId)
  | alive (helperId : EndpointId)
  | candidate (now : ℕ) (sequenceNo : MessageSequence) (board : β)
  | solved (now : ℕ) (sequenceNo : MessageSequence) (board : β)
  | done (sequenceNo : MessageSequence)
  | reset

namespace SolverRun

open SudokuSolverRankInfo SolverNotice

variable {κ β : Type} [LinearOrder κ]

/-- What is new at the ends of the solutions and of the pending entries. -/
def noticed (s s' : SudokuSolverRankInfo κ β) : List (SolverNotice κ) :=
  (s'.solutions.drop s.solutions.length).map (fun board => .signalled board.key) ++
    (s'.pending.drop s.pending.length).map (fun entry => .sent entry.key)

def act (s : SolverRun κ β) (f : SudokuSolverRankInfo κ β → SudokuSolverRankInfo κ β) :
    SolverRun κ β :=
  ⟨f s.solver,noticed s.solver (f s.solver) ++ s.notices⟩

def enqueue (env : SudokuEnv β) (now : ℕ) (s : SolverRun κ β) (key : κ) (board : β) :
    SolverRun κ β :=
  SolverRun.act { s with notices := .enqueued key::s.notices }
    (fun solver => solver.addBoard env now key board)

def sendBoardTo (env : SudokuEnv β) (now : ℕ) (solverId : EndpointId) (s : SolverRun κ β)
    (helperId : EndpointId) : Option (SolverRun κ β) :=
  (s.solver.sendBoardTo env now solverId helperId).map (fun out => s.act (fun _ => out.1))

def sendBoardsTo (env : SudokuEnv β) (now : ℕ) (solverId : EndpointId) :
    List EndpointId → SolverRun κ β → SolverRun κ β
  | [], s => s
  | helperId::ids, s =>
    match s.sendBoardTo env now solverId helperId with
    | none => s
    | some s' => sendBoardsTo env now solverId ids s'

def sendBoards (env : SudokuEnv β) (now : ℕ) (solverId : EndpointId) (order : List EndpointId)
    (s : SolverRun κ β) : SolverRun κ β :=
  s.sendBoardsTo env now solverId ((order.filter s.solver.readyHelpers.contains).take 8)

def update (env : SudokuEnv β) (now : ℕ) (solverId : EndpointId) (canWork : Bool)
    (order : List EndpointId) (s : SolverRun κ β) : SolverRun κ β :=
  let s := s.act (fun solver => solver.handleTimeouted env now defaultAlreadyDone)
  if canWork then (s.sendBoards env now solverId order).act (fun solver => solver.searchHelpers now)
  else s

def step (env : SudokuEnv β) (solverId : EndpointId) (s : SolverRun κ β) :
    SolverEvent κ β → SolverRun κ β
  | .enqueue now key board => s.enqueue env now key board
  | .update now canWork order => s.update env now solverId canWork order
  | .alive helperId => s.act (fun solver => solver.helperAlive helperId)
  | .candidate now sequenceNo board =>
    s.act (fun solver => solver.handleResponse env now false sequenceNo board)
  | .solved now sequenceNo board =>
    s.act (fun solver => solver.handleResponse env now true sequenceNo board)
  | .done sequenceNo => s.act (fun solver => solver.pendingDone defaultAlreadyDone sequenceNo)
  | .reset => s.act SudokuSolverRankInfo.reset

/-- No board of a closed key is queued, and none was sent or signalled. -/
def StaysSolved (s : SolverRun κ β) : Prop :=
  OnlyOpen s.notices ∧ ∀ key board, s.solver.Queued key board → closed key s.notices = false

/-- No answer is taken by an entry of a closed key, and the time of none that
is pending runs out. -/
def InTime (s : SolverRun κ β) : SolverEvent κ β → Prop
  | .candidate _ sequenceNo _ | .solved _ sequenceNo _ =>
    ∀ entry, s.solver.answered sequenceNo = some entry → closed entry.key s.notices = false
  | .update now _ _ =>
    ∀ entry ∈ s.solver.pending, entry.tooLate.isExpired now = true →
      closed entry.key s.notices = false
  | _ => True

/-! ## Answers -/

omit [LinearOrder κ] in
theorem find?_hasSequence {entries : List (PendingInfo κ β)} {n : MessageSequence} {pos : ℕ}
    {e : PendingInfo κ β} (h : entries.findIdx? (hasSequence n) = some pos)
    (he : entries[pos]? = some e) : entries.find? (hasSequence n) = some e := by
  obtain ⟨hlt,hn,hfirst⟩ := List.findIdx?_eq_some_iff_getElem.mp h
  rw [List.getElem?_eq_getElem hlt] at he
  cases he
  refine List.find?_eq_some_iff_getElem.mpr ⟨hn,pos,hlt,rfl,?_⟩
  intro j hj
  simpa using hfirst j hj

omit [LinearOrder κ] in
theorem find?_absent {entries : List (PendingInfo κ β)} {n : MessageSequence}
    (h : entries.findIdx? (hasSequence n) = none) : entries.find? (hasSequence n) = none := by
  apply List.find?_eq_none.mpr
  intro e he
  simpa using List.findIdx?_eq_none_iff.mp h e he

section Response

variable (env : SudokuEnv β) (now : ℕ) (isSolved : Bool) {s : SudokuSolverRankInfo κ β}
  {n : MessageSequence} (board : β)

theorem handleResponse_unanswered (h : s.answered n = none) :
    s.handleResponse env now isSolved n board = s := by
  obtain ⟨hp,hr⟩ := Option.or_eq_none_iff.mp h
  rw [handleResponse]
  cases hpos : s.pending.findIdx? (hasSequence n) with
  | some pos =>
    obtain ⟨e,he,-⟩ := hasSequence_found hpos
    rw [find?_hasSequence hpos he] at hp
    cases hp
  | none =>
    cases hpos : s.remaining.findIdx? (hasSequence n) with
    | some pos =>
      obtain ⟨e,he,-⟩ := hasSequence_found hpos
      rw [find?_hasSequence hpos he] at hr
      cases hr
    | none => rfl

/-- The entry is processed and no entry is added. -/
theorem handleResponse_answered {entry : PendingInfo κ β} (h : s.answered n = some entry) :
    (s.handleResponse env now isSolved n board).keyBoards =
        (s.processPendingEntry env now isSolved entry board).keyBoards ∧
      (s.handleResponse env now isSolved n board).solutions =
        (s.processPendingEntry env now isSolved entry board).solutions ∧
      (s.handleResponse env now isSolved n board).pending.length = s.pending.length := by
  rw [answered] at h
  rw [handleResponse]
  cases hpos : s.pending.findIdx? (hasSequence n) with
  | some pos =>
    obtain ⟨e,he,-⟩ := hasSequence_found hpos
    rw [find?_hasSequence hpos he] at h
    obtain rfl : e = entry := by simpa using h
    simp only [he, List.length_modify, true_and]
  | none =>
    rw [find?_absent hpos, Option.none_or] at h
    have hlength : (s.processPendingEntry env now isSolved entry board).pending = s.pending := by
      cases isSolved <;> rfl
    cases hrem : s.remaining.findIdx? (hasSequence n) with
    | none =>
      rw [find?_absent hrem] at h
      cases h
    | some pos =>
      obtain ⟨e,he,-⟩ := hasSequence_found hrem
      rw [find?_hasSequence hrem he] at h
      obtain rfl : e = entry := Option.some.inj h
      simp only [he, hlength, true_and]

end Response

/-! ## What is noticed -/

/-- Neither solutions nor pending entries are added. -/
structure Quiet (s s' : SudokuSolverRankInfo κ β) : Prop where
  solutions : s'.solutions = s.solutions
  pending : s'.pending.length ≤ s.pending.length

variable {s : SolverRun κ β} {f : SudokuSolverRankInfo κ β → SudokuSolverRankInfo κ β}

theorem notices_quiet (h : Quiet s.solver (f s.solver)) : (s.act f).notices = s.notices := by
  rw [act, noticed, h.solutions, List.drop_length, List.drop_eq_nil_of_le h.pending]
  rfl

/-- A quiet change keeps `StaysSolved` exactly if it queues no board of a closed
key. -/
theorem stays_quiet (hs : OnlyOpen s.notices) (h : Quiet s.solver (f s.solver)) :
    (s.act f).StaysSolved ↔
      ∀ key board, (f s.solver).Queued key board → closed key s.notices = false := by
  rw [StaysSolved, notices_quiet h]
  exact and_iff_right hs

theorem stays_same (h : Quiet s.solver (f s.solver))
    (hq : ∀ k b, (f s.solver).Queued k b ↔ s.solver.Queued k b) :
    (s.act f).StaysSolved ↔ s.StaysSolved := by
  rw [StaysSolved, notices_quiet h, StaysSolved]
  simp only [act, hq]

/-! ## Steps -/

variable (env : SudokuEnv β) (now : ℕ) (solverId : EndpointId)

theorem stays_enqueue (h : s.StaysSolved) (key : κ) (board : β) :
    (s.enqueue env now key board).StaysSolved := by
  have hquiet := stays_quiet (s := ⟨s.solver,.enqueued key::s.notices⟩)
    (f := fun solver => solver.addBoard env now key board) h.1 ⟨rfl,le_rfl⟩
  refine hquiet.mpr ?_
  intro k b hb
  rw [closed]
  split
  case isTrue => rfl
  case isFalse hne =>
    rcases (queued_addBoard env now s.solver key k board b).mp hb with hb | ⟨rfl,-⟩
    · exact h.2 k b hb
    · exact absurd rfl hne

theorem queued_keyBoards {s' s'' : SudokuSolverRankInfo κ β} (h : s'.keyBoards = s''.keyBoards)
    (k : κ) (b : β) : s'.Queued k b ↔ s''.Queued k b := by
  rw [Queued, h, Queued]

theorem act_unanswered (isSolved : Bool) {n : MessageSequence} (board : β)
    (h : s.solver.answered n = none) :
    s.act (fun solver => solver.handleResponse env now isSolved n board) = s := by
  simp [act, handleResponse_unanswered env now isSolved board h, noticed]

theorem stays_candidate_iff (h : s.StaysSolved) (n : MessageSequence) (board : β) :
    (s.act (fun solver => solver.handleResponse env now false n board)).StaysSolved ↔
      s.InTime (.candidate now n board) := by
  cases ha : s.solver.answered n with
  | none =>
    rw [act_unanswered env now false board ha]
    simp [h, InTime, ha]
  | some entry =>
    obtain ⟨hkeys,hsol,hlen⟩ := handleResponse_answered env now false board ha
    have hq (k : κ) (b : β) := (queued_keyBoards hkeys k b).trans
      (queued_addBoard env now s.solver entry.key k board b)
    rw [stays_quiet h.1 ⟨hsol,hlen.le⟩]
    constructor
    · intro hopen e he
      rw [ha] at he
      cases he
      exact hopen _ board ((hq _ _).mpr (Or.inr ⟨rfl,rfl⟩))
    · intro hin k b hb
      rcases (hq k b).mp hb with hb | ⟨rfl,-⟩
      · exact h.2 k b hb
      · exact hin entry ha

/-- The signal comes before anything that is noticed later. -/
theorem stays_solved_iff (h : s.StaysSolved) (n : MessageSequence) (board : β) :
    (s.act (fun solver => solver.handleResponse env now true n board)).StaysSolved ↔
      s.InTime (.solved now n board) := by
  cases ha : s.solver.answered n with
  | none =>
    rw [act_unanswered env now true board ha]
    simp [h, InTime, ha]
  | some entry =>
    obtain ⟨hkeys,hsol,hlen⟩ := handleResponse_answered env now true board ha
    have hq (k : κ) (b : β) := (queued_keyBoards hkeys k b).trans
      (queued_processSolved now s.solver entry board k b)
    have hnotices : (s.act (fun solver => solver.handleResponse env now true n board)).notices =
        .signalled entry.key::s.notices := by
      rw [act, noticed, hsol, List.drop_eq_nil_of_le hlen.le]
      simp [processPendingEntry, processSolved]
    rw [StaysSolved, hnotices, OnlyOpen]
    constructor
    · intro hs e he
      rw [ha] at he
      cases he
      exact hs.1.1
    · intro hin
      refine ⟨⟨hin entry ha,h.1⟩,?_⟩
      intro k b hb
      obtain ⟨hb,hne⟩ := (hq k b).mp hb
      rw [closed, if_neg (Ne.symm hne)]
      exact h.2 k b hb

theorem stays_done (h : s.StaysSolved) (n : MessageSequence) :
    (s.act (fun solver => solver.pendingDone defaultAlreadyDone n)).StaysSolved := by
  have hlen : (s.solver.pendingDone defaultAlreadyDone n).pending.length ≤
      s.solver.pending.length := by
    rw [pendingDone]
    split
    · exact le_rfl
    · split
      · exact le_rfl
      · exact List.length_eraseIdx_le ..
  rcases pendingDone_spec defaultAlreadyDone s.solver n with he | ⟨t,-,-,hc⟩
  · refine (stays_same ⟨by rw [he],hlen⟩ ?_).mpr h
    simp [he]
  · exact (stays_same ⟨hc.solutions,hlen⟩ hc.queued).mpr h

theorem stays_reset (h : s.StaysSolved) : (s.act SudokuSolverRankInfo.reset).StaysSolved := by
  refine (stays_quiet h.1 ⟨rfl,Nat.zero_le _⟩).mpr ?_
  rintro k b ⟨queue,hq,-⟩
  cases hq

theorem stays_timeouted_iff (h : s.StaysSolved) (canWork : Bool) (order : List EndpointId) :
    (s.act (fun solver => solver.handleTimeouted env now defaultAlreadyDone)).StaysSolved ↔
      s.InTime (.update now canWork order) := by
  have hsame := handleTimeouted_spec env now defaultAlreadyDone s.solver
  have hlen : (s.solver.handleTimeouted env now defaultAlreadyDone).pending.length ≤
      s.solver.pending.length := List.length_filter_le ..
  have hq (k : κ) (b : β) := (replaced_spec env now defaultAlreadyDone s.solver
    (s.solver.pending.filter (fun entry => entry.tooLate.isExpired now))).2 k b
  rw [stays_quiet h.1 ⟨hsame.solutions,hlen⟩]
  constructor
  · intro hopen e he hlate
    apply hopen e.key e.board
    exact (hq _ _).mpr (Or.inr ⟨e,List.mem_filter.mpr ⟨he,hlate⟩,rfl,rfl,rfl⟩)
  · intro hin k b hb
    rcases (hq k b).mp hb with hb | ⟨e,he,-,rfl,-⟩
    · exact h.2 k b hb
    · obtain ⟨he,hlate⟩ := List.mem_filter.mp he
      exact hin e he hlate

/-- A board of a closed key that is queued stays so or is sent. -/
theorem stays_sendBoardTo_iff {helperId : EndpointId} {s' : SolverRun κ β}
    (hs : s.sendBoardTo env now solverId helperId = some s') :
    s'.StaysSolved ↔ s.StaysSolved := by
  obtain ⟨out,hout,rfl⟩ := Option.map_eq_some_iff.mp hs
  obtain ⟨-,-,⟨-,hp,-,hsol,hq⟩ | ⟨e,-,-,hp,ha⟩⟩ := sendBoardTo_spec env now hout
  · exact stays_same ⟨hsol,by rw [hp]⟩ hq
  · have hnotices : (s.act (fun _ => out.1)).notices = .sent e.key::s.notices := by
      rw [act, noticed, ha.solutions, hp]
      simp
    rw [StaysSolved, hnotices, OnlyOpen]
    constructor
    · rintro ⟨⟨hkey,hopen⟩,hqueue⟩
      refine ⟨hopen,?_⟩
      intro k b hb
      rcases ha.queued k b hb with hb | ⟨rfl,-⟩
      · exact hqueue k b hb
      · exact hkey
    · intro h
      exact ⟨⟨h.2 _ _ ha.queued_before,h.1⟩,fun k b hb => h.2 k b (ha.queued_from k b hb)⟩

theorem stays_sendBoardsTo_iff (ids : List EndpointId) (s : SolverRun κ β) :
    (s.sendBoardsTo env now solverId ids).StaysSolved ↔ s.StaysSolved := by
  induction ids generalizing s with
  | nil => rfl
  | cons helperId ids ih =>
    rw [sendBoardsTo]
    cases hs : s.sendBoardTo env now solverId helperId with
    | none => rfl
    | some s' => exact (ih s').trans (stays_sendBoardTo_iff env now solverId hs)

theorem stays_update_iff (h : s.StaysSolved) (canWork : Bool) (order : List EndpointId) :
    (s.update env now solverId canWork order).StaysSolved ↔
      s.InTime (.update now canWork order) := by
  rw [← stays_timeouted_iff env now h canWork order, update]
  cases canWork with
  | false => rfl
  | true =>
    have hsearch (solver : SudokuSolverRankInfo κ β) : Quiet solver (solver.searchHelpers now) ∧
        ∀ k b, (solver.searchHelpers now).Queued k b ↔ solver.Queued k b := by
      rw [searchHelpers]
      split
      · exact ⟨⟨rfl,le_rfl⟩,fun _ _ => Iff.rfl⟩
      · exact ⟨⟨rfl,le_rfl⟩,fun _ _ => Iff.rfl⟩
    rw [if_pos rfl, stays_same (hsearch _).1 (hsearch _).2]
    exact stays_sendBoardsTo_iff env now solverId _ _

theorem stays_step_iff (h : s.StaysSolved) (e : SolverEvent κ β) :
    (s.step env solverId e).StaysSolved ↔ s.InTime e := by
  cases e with
  | enqueue now key board => exact iff_of_true (stays_enqueue env now h key board) trivial
  | update now canWork order => exact stays_update_iff env now solverId h canWork order
  | alive helperId =>
    have hsame := stays_same (f := fun solver => solver.helperAlive helperId) (s := s)
      ⟨rfl,le_rfl⟩ (fun _ _ => Iff.rfl)
    exact iff_of_true (hsame.mpr h) trivial
  | candidate now n board => exact stays_candidate_iff env now h n board
  | solved now n board => exact stays_solved_iff env now h n board
  | done n => exact iff_of_true (stays_done h n) trivial
  | reset => exact iff_of_true (stays_reset h) trivial

/-- From any solver of which nothing was noticed: a solved key stays solved
exactly in the runs in which no entry of a closed key takes an answer or runs
out of time. -/
theorem solved_keys_stay_iff (solver : SudokuSolverRankInfo κ β) (es : List (SolverEvent κ β)) :
    StepRun.Always (step env solverId) StaysSolved ⟨solver,[]⟩ es ↔
      StepRun.Steps (step env solverId) InTime ⟨solver,[]⟩ es :=
  StepRun.always_iff_steps (fun _ (h : StaysSolved _) => h)
    (fun _ e h hok => (stays_step_iff env solverId h e).mpr hok)
    (fun _ e h hs => (stays_step_iff env solverId h e).mp hs)
    ⟨trivial,fun _ _ _ => rfl⟩

section Rectangle

open SudokuSystem

/-- Two helpers work on the two candidates of the board; both find a solution. -/
def rectangleSolved : List (SolverEvent ℕ SudokuGrid) :=
  [.enqueue 0 0 rectangle,
   .alive 2,
   .alive 3,
   .update 1 true [2,3],
   .candidate 2 1 (rectangle.set 0 1),
   .candidate 2 1 (rectangle.set 0 2),
   .done 1,
   .update 3 true [2,3],
   .solved 4 3 (rectangleFilled 2 1),
   .done 3,
   .solved 5 4 (rectangleFilled 1 2)]

theorem solved_keys_signalled_twice :
    ¬StepRun.Always (step rectangleEnv 1) StaysSolved ⟨{},[]⟩ rectangleSolved := by
  intro h
  have hlast := StepRun.always_last h
  have hnotices : (StepRun.run (step rectangleEnv 1) ⟨{},[]⟩ rectangleSolved).notices =
      [.signalled 0,.signalled 0,.sent 0,.sent 0,.sent 0,.enqueued 0] := by decide +kernel
  rw [StaysSolved, hnotices, OnlyOpen] at hlast
  cases hlast.1.1

end Rectangle

/-! ## Solvers of a system -/

/-- The driver is the default one. -/
def Defaults : SudokuEvent κ β → Prop
  | .solverUpdate _ alreadyDone _ shouldSendBoards _ =>
    alreadyDone = defaultAlreadyDone ∧ shouldSendBoards = true
  | .deliver _ alreadyDone _ _ _ => alreadyDone = defaultAlreadyDone
  | _ => True

theorem sendBoardsTo_system (ids : List EndpointId) (system : SudokuSystem κ β)
    (h : List (SolverNotice κ)) :
    ((SolverRun.mk system.solver h).sendBoardsTo env now system.solverId ids).solver =
      (system.sendBoardsTo env now ids).solver := by
  induction ids generalizing system h with
  | nil => rfl
  | cons helperId ids ih =>
    rw [sendBoardsTo, sendBoardTo, SudokuSystem.sendBoardsTo, SudokuSystem.sendBoardTo]
    cases system.solver.sendBoardTo env now system.solverId helperId with
    | none => rfl
    | some out => exact ih { system with solver := out.1, flight := system.flight ++ out.2 } _

theorem searchHelpers_system (system : SudokuSystem κ β) :
    (system.searchHelpers now).solver = system.solver.searchHelpers now := by
  rw [SudokuSystem.searchHelpers, searchHelpers]
  split <;> rfl

theorem update_system (system : SudokuSystem κ β) (h : List (SolverNotice κ)) (canWork : Bool)
    (order : List EndpointId) :
    ((SolverRun.mk system.solver h).update env now system.solverId canWork order).solver =
      (system.solverUpdate env now defaultAlreadyDone canWork true order).solver := by
  cases canWork with
  | false => rfl
  | true =>
    let system' := system.onSolver (fun solver => solver.handleTimeouted env now defaultAlreadyDone)
    have hsend := sendBoardsTo_system env now
      ((order.filter system'.solver.readyHelpers.contains).take 8) system'
      ((SolverRun.mk system.solver h).act
        (fun solver => solver.handleTimeouted env now defaultAlreadyDone)).notices
    have hsearch := searchHelpers_system now (system'.sendBoards env now order)
    exact (congrArg (fun solver => solver.searchHelpers now) hsend).trans hsearch.symm

theorem heard_system {p : Prop} [Decidable p] (system : SudokuSystem κ β)
    (h : List (SolverNotice κ)) (e : SolverEvent κ β)
    {f : SudokuSolverRankInfo κ β → SudokuSolverRankInfo κ β}
    (he : ((SolverRun.mk system.solver h).step env system.solverId e).solver = f system.solver) :
    ∃ fs, (StepRun.run (step env system.solverId) ⟨system.solver,h⟩ fs).solver =
      (if p then system.onSolver f else system).solver := by
  by_cases hp : p
  · exact ⟨[e],by rw [if_pos hp]; exact he⟩
  · exact ⟨[],by rw [if_neg hp]; rfl⟩

theorem receive_system (system : SudokuSystem κ β) (h : List (SolverNotice κ))
    (receiverId : EndpointId) (packet : SudokuPacket β) :
    ∃ fs, (StepRun.run (step env system.solverId) ⟨system.solver,h⟩ fs).solver =
      (system.receive env now defaultAlreadyDone receiverId packet).solver := by
  rw [SudokuSystem.receive]
  cases packet.message with
  | search => exact ⟨[],rfl⟩
  | query n board => exact ⟨[],rfl⟩
  | alive => exact heard_system env system h (.alive packet.sourceId) rfl
  | candidate n board => exact heard_system env system h (.candidate now n board) rfl
  | solved n board => exact heard_system env system h (.solved now n board) rfl
  | done n => exact heard_system env system h (.done n) rfl

/-- The solver of a system makes one step of its own or none. -/
theorem step_system (system : SudokuSystem κ β) (h : List (SolverNotice κ))
    {e : SudokuEvent κ β} (hd : Defaults e) :
    ∃ fs, (StepRun.run (step env system.solverId) ⟨system.solver,h⟩ fs).solver =
      (system.step env e).solver := by
  cases e with
  | enqueue now key board => exact ⟨[.enqueue now key board],rfl⟩
  | solverUpdate now alreadyDone canWork shouldSendBoards order =>
    obtain ⟨rfl,rfl⟩ := hd
    exact ⟨[.update now canWork order],update_system env now system h canWork order⟩
  | helperUpdate helperId => exact ⟨[],rfl⟩
  | deliver now alreadyDone index receiverId again =>
    have hd : alreadyDone = defaultAlreadyDone := hd
    subst hd
    rw [SudokuSystem.step, SudokuSystem.deliver]
    cases system.flight[index]? with
    | none => exact ⟨[],rfl⟩
    | some packet =>
      simp only
      split
      case isFalse => exact ⟨[],rfl⟩
      case isTrue =>
        have hreceive := receive_system env now { system with
          flight := if again then system.flight else system.flight.eraseIdx index }
        exact hreceive h receiverId packet

theorem sendBoardsTo_solverId (ids : List EndpointId) (system : SudokuSystem κ β) :
    (system.sendBoardsTo env now ids).solverId = system.solverId := by
  apply SudokuSystem.sendBoardsTo_keeps env now
    (P := fun s => s.solverId = system.solverId) _ ids rfl
  intro s s' helperId h hs
  obtain ⟨out,-,rfl⟩ := Option.map_eq_some_iff.mp hs
  exact h

theorem solverId_step (system : SudokuSystem κ β) (e : SudokuEvent κ β) :
    (system.step env e).solverId = system.solverId := by
  cases e with
  | enqueue now key board => rfl
  | helperUpdate helperId => rfl
  | solverUpdate now alreadyDone canWork shouldSendBoards order =>
    have hsearch (system : SudokuSystem κ β) :
        (system.searchHelpers now).solverId = system.solverId := by
      rw [SudokuSystem.searchHelpers]
      split <;> rfl
    rw [SudokuSystem.step, SudokuSystem.solverUpdate]
    split
    · rw [hsearch]
      split
      · exact sendBoardsTo_solverId env now _ _
      · rfl
    · rfl
  | deliver now alreadyDone index receiverId again =>
    rw [SudokuSystem.step, SudokuSystem.deliver]
    cases system.flight[index]? with
    | none => rfl
    | some packet =>
      simp only
      split
      case isFalse => rfl
      case isTrue =>
        rw [SudokuSystem.receive]
        cases packet.message
        all_goals first
          | rfl
          | (simp only; split <;> rfl)

/-- With the default driver, what the solver of a system comes to in a run, it
comes to in a run of its own. -/
theorem run_system (system : SudokuSystem κ β) (h : List (SolverNotice κ))
    {es : List (SudokuEvent κ β)} (hd : ∀ e ∈ es, Defaults e) :
    ∃ fs, (StepRun.run (step env system.solverId) ⟨system.solver,h⟩ fs).solver =
      (StepRun.run (SudokuSystem.step env) system es).solver := by
  induction es generalizing system h with
  | nil => exact ⟨[],rfl⟩
  | cons e es ih =>
    obtain ⟨fs,hfs⟩ := step_system env system h (hd e List.mem_cons_self)
    obtain ⟨gs,hgs⟩ := ih (system.step env e)
      (StepRun.run (step env system.solverId) ⟨system.solver,h⟩ fs).notices
      (fun e he => hd e (List.mem_cons_of_mem _ he))
    refine ⟨fs++gs,?_⟩
    rw [StepRun.run_append]
    rw [solverId_step env, ← hfs] at hgs
    exact hgs

end SolverRun

end MsgBus
