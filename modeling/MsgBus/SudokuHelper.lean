import MsgBus.Lib.OrderedMap
import MsgBus.SudokuBoard
import MsgBus.Types

/-!
# The helpers of a sudoku search

A helper keeps a backlog of boards and takes them up from the back. It tries
the values of unsolved cells down to its recursion limit, reports what is
solved, sends back what is not, and says when it is done. As soon as one
branch has been solved the unsolved ones are passed over.
-/

set_option autoImplicit false

namespace MsgBus

inductive SudokuMessage (β : Type) where
  | search
  | alive
  | query (sequenceNo : MessageSequence) (board : β)
  | candidate (sequenceNo : MessageSequence) (board : β)
  | solved (sequenceNo : MessageSequence) (board : β)
  | done (sequenceNo : MessageSequence)
  deriving DecidableEq

/-- A message on its way; a search is broadcast. -/
structure SudokuPacket (β : Type) where
  sourceId : EndpointId
  targetId : EndpointId := broadcastEndpointId
  message : SudokuMessage β
  deriving DecidableEq

/-- What has been found below a board: whether a branch has been solved, and
the boards sent so far with whether they are solved. -/
structure BranchProgress (β : Type) where
  done : Bool
  sent : List (Bool × β)
  deriving DecidableEq

structure HelperBoard (β : Type) where
  sourceId : EndpointId
  sequenceNo : MessageSequence
  board : β
  deriving DecidableEq

structure SudokuHelperRankInfo (β : Type) where
  maxRecursion : ℕ := 1
  boards : List (HelperBoard β) := []
  searches : OrderedMap EndpointId Unit := OrderedMap.empty

namespace SudokuHelperRankInfo

variable {β : Type}

def onSearch (info : SudokuHelperRankInfo β) (sourceId : EndpointId) : SudokuHelperRankInfo β :=
  { info with searches := info.searches.assign sourceId () }

/-- A board that finds the backlog full is dropped. -/
def addBoard (info : SudokuHelperRankInfo β) (sourceId : EndpointId)
    (sequenceNo : MessageSequence) (board : β) : SudokuHelperRankInfo β :=
  if info.boards.length < 20 then
    { info with
      searches := info.searches.assign sourceId ()
      boards := info.boards ++ [⟨sourceId,sequenceNo,board⟩] }
  else info

section Process

variable (boards : SudokuBoards β)

def tryAlternative (descend : β → BranchProgress β → BranchProgress β) (p : BranchProgress β)
    (intermediate : β) : BranchProgress β :=
  if boards.isSolved intermediate then ⟨true,p.sent ++ [(true,intermediate)]⟩
  else if !p.done then descend intermediate p
  else p

def sendCandidate (board : β) (p : BranchProgress β) : BranchProgress β :=
  { p with sent := p.sent ++ [(false,board)] }

def processBoard : ℕ → β → BranchProgress β → BranchProgress β
  | 0, candidate, p => (boards.alternatives candidate).foldl (tryAlternative boards sendCandidate) p
  | levels+1, candidate, p =>
    (boards.alternatives candidate).foldl (tryAlternative boards (processBoard levels)) p

def responseMessage (sequenceNo : MessageSequence) (sent : Bool × β) : SudokuMessage β :=
  if sent.1 then .solved sequenceNo sent.2 else .candidate sequenceNo sent.2

/-- What a helper posts for a board that it has taken up. -/
def answers (maxRecursion : ℕ) (helperId : EndpointId) (task : HelperBoard β) :
    List (SudokuPacket β) :=
  (processBoard boards maxRecursion task.board ⟨false,[]⟩).sent.map
    (fun sent => ⟨helperId,task.sourceId,responseMessage task.sequenceNo sent⟩) ++
  [⟨helperId,task.sourceId,.done task.sequenceNo⟩]

def update (info : SudokuHelperRankInfo β) (helperId : EndpointId) :
    SudokuHelperRankInfo β × List (SudokuPacket β) :=
  let alive := if info.boards.length < 6 then
      info.searches.entries.map (fun e => ⟨helperId,e.1,.alive⟩)
    else []
  let info := { info with searches := OrderedMap.empty }
  match info.boards.getLast? with
  | none => (info,alive)
  | some task =>
    ({ info with boards := info.boards.dropLast },
      alive ++ answers boards info.maxRecursion helperId task)

end Process

/-! ## What a helper finds below a board -/

section Found

variable {boards : SudokuBoards β} {φ : Type} {en : Enumeration boards φ}

/-- Progress below one of some boards: every filling of one of them is below a
board that was sent, unless a branch has been solved. -/
structure Searched (en : Enumeration boards φ) (below : List β) (p p' : BranchProgress β) :
    Prop where
  kept : ∀ x ∈ p.sent, x ∈ p'.sent
  done : p.done = true → p'.done = true
  solved : p'.done = true → p.done = true ∨ ∃ c, (true,c) ∈ p'.sent
  unsolved : ∀ c, (false,c) ∈ p'.sent → (false,c) ∈ p.sent ∨ boards.isSolved c = false ∧
    ∃ b ∈ below, b = c ∨ en.Refines b c
  covers : ∀ b ∈ below, ∀ F, en.Extends F b →
    p'.done = true ∨ ∃ c, (false,c) ∈ p'.sent ∧ en.Extends F c

theorem searched_candidate (b : β) (hb : boards.isSolved b = false) (p : BranchProgress β) :
    Searched en [b] p (sendCandidate b p) := by
  refine ⟨?_,fun h => h,fun h => Or.inl h,?_,?_⟩
  · intro x hx
    exact List.mem_append_left _ hx
  · intro c hc
    rcases List.mem_append.mp hc with hc | hc
    · exact Or.inl hc
    · obtain rfl : c = b := by simpa using hc
      exact Or.inr ⟨hb,c,by simp,Or.inl rfl⟩
  · intro c hc F hF
    obtain rfl := List.mem_singleton.mp hc
    exact Or.inr ⟨c,List.mem_append_right _ (List.mem_singleton_self _),hF⟩

theorem searched_try {descend : β → BranchProgress β → BranchProgress β}
    (hd : ∀ b p, boards.isSolved b = false → Searched en [b] p (descend b p)) (b : β)
    (p : BranchProgress β) : Searched en [b] p (tryAlternative boards descend p b) := by
  rw [tryAlternative]
  split_ifs with hs hdone
  · refine ⟨fun x hx => List.mem_append_left _ hx,fun _ => rfl,?_,?_,fun _ _ _ _ => Or.inl rfl⟩
    · exact fun _ => Or.inr ⟨b,List.mem_append_right _ (List.mem_singleton_self _)⟩
    · intro c hc
      exact Or.inl (by simpa using hc)
  · exact hd b p (by simpa using hs)
  · have ht : p.done = true := by simpa using hdone
    exact ⟨fun x hx => hx,fun h => h,fun h => Or.inl h,fun c hc => Or.inl hc,
      fun _ _ _ _ => Or.inl ht⟩

/-- One alternative after the other. -/
theorem searched_foldl {descend : β → BranchProgress β → BranchProgress β}
    (hd : ∀ b p, boards.isSolved b = false → Searched en [b] p (descend b p)) (cs : List β)
    (p : BranchProgress β) :
    Searched en cs p (cs.foldl (tryAlternative boards descend) p) := by
  induction cs generalizing p with
  | nil =>
    exact ⟨fun x hx => hx,fun h => h,fun h => Or.inl h,fun c hc => Or.inl hc,
      fun b hb => by cases hb⟩
  | cons b cs ih =>
    have hone := searched_try hd b p
    have hrest := ih (tryAlternative boards descend p b)
    rw [List.foldl_cons]
    refine ⟨fun x hx => hrest.kept x (hone.kept x hx),fun h => hrest.done (hone.done h),?_,?_,?_⟩
    · intro h
      rcases hrest.solved h with h | h
      · rcases hone.solved h with h | ⟨c,hc⟩
        · exact Or.inl h
        · exact Or.inr ⟨c,hrest.kept _ hc⟩
      · exact Or.inr h
    · intro c hc
      rcases hrest.unsolved c hc with hc | ⟨hs,d,hm,hr⟩
      · rcases hone.unsolved c hc with hc | ⟨hs,d,hm,hr⟩
        · exact Or.inl hc
        · obtain rfl := List.mem_singleton.mp hm
          exact Or.inr ⟨hs,d,by simp,hr⟩
      · exact Or.inr ⟨hs,d,List.mem_cons_of_mem _ hm,hr⟩
    · intro d hm F hF
      rcases List.mem_cons.mp hm with rfl | hm
      · rcases hone.covers d (by simp) F hF with h | ⟨c,hc,hFc⟩
        · exact Or.inl (hrest.done h)
        · exact Or.inr ⟨c,hrest.kept _ hc,hFc⟩
      · exact hrest.covers d hm F hF

/-- What is found below the alternatives is found below the board. -/
theorem searched_alternatives {b : β} {p p' : BranchProgress β}
    (hb : boards.isSolved b = false) (h : Searched en (boards.alternatives b) p p') :
    Searched en [b] p p' ∧
    ∀ c, (false,c) ∈ p'.sent → (false,c) ∈ p.sent ∨ boards.isSolved c = false ∧ en.Refines b c := by
  have hfine : ∀ c, (false,c) ∈ p'.sent →
      (false,c) ∈ p.sent ∨ boards.isSolved c = false ∧ en.Refines b c := by
    intro c hc
    rcases h.unsolved c hc with hc | ⟨hs,d,hm,hr⟩
    · exact Or.inl hc
    · have hone := en.refines_alternative hb hm
      rcases hr with rfl | hr
      · exact Or.inr ⟨hs,hone⟩
      · exact Or.inr ⟨hs,en.refines_trans hone hr⟩
  refine ⟨⟨h.kept,h.done,h.solved,?_,?_⟩,hfine⟩
  · intro c hc
    exact (hfine c hc).imp id (fun hf => ⟨hf.1,b,by simp,Or.inr hf.2⟩)
  · intro d hm F hF
    obtain rfl := List.mem_singleton.mp hm
    obtain ⟨c,hc,hFc⟩ := en.enumerates d F hb hF
    exact h.covers c hc F hFc

theorem processBoard_searched (levels : ℕ) (b : β) (p : BranchProgress β)
    (hb : boards.isSolved b = false) :
    Searched en (boards.alternatives b) p (processBoard boards levels b p) := by
  induction levels generalizing b p with
  | zero => exact searched_foldl (fun c p hc => searched_candidate c hc p) _ p
  | succ levels ih =>
    exact searched_foldl (fun c p hc => (searched_alternatives hc (ih c p hc)).1) _ p

/-- The answers for a board: each candidate refines it, and each filling of it
is below a candidate, unless a solution has been sent. -/
structure Answered (en : Enumeration boards φ) (b : β) (sent : List (Bool × β)) : Prop where
  candidates : ∀ c, (false,c) ∈ sent → boards.isSolved c = false ∧ en.Refines b c
  covers : ∀ F, en.Extends F b → (∃ c, (true,c) ∈ sent) ∨
    ∃ c, (false,c) ∈ sent ∧ en.Extends F c

variable (en) in
theorem processBoard_answered (levels : ℕ) (b : β) (hb : boards.isSolved b = false) :
    Answered en b (processBoard boards levels b ⟨false,[]⟩).sent := by
  have hs : Searched en (boards.alternatives b) ⟨false,[]⟩
      (processBoard boards levels b ⟨false,[]⟩) := processBoard_searched levels b ⟨false,[]⟩ hb
  obtain ⟨hbelow,hfine⟩ := searched_alternatives hb hs
  refine ⟨fun c hc => (hfine c hc).resolve_left (by simp),?_⟩
  intro F hF
  rcases hbelow.covers b (by simp) F hF with hd | hc
  · exact Or.inl ((hs.solved hd).resolve_left (by simp))
  · exact Or.inr hc

end Found

end SudokuHelperRankInfo

end MsgBus
