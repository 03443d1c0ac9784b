import Mathlib.Data.List.InsertIdx
import MsgBus.SudokuSolver

/-!
# Where the solver holds boards

What an entry asks for is its task; the time that it has left does not matter
here. Each operation of the solver is described by the boards that are queued,
the tasks that are pending or remain and the keys that are reported after it.
-/

set_option autoImplicit false

namespace MsgBus

structure SudokuTask (κ β : Type) where
  key : κ
  sequenceNo : MessageSequence
  board : β
  deriving DecidableEq

def PendingInfo.task {κ β : Type} (entry : PendingInfo κ β) : SudokuTask κ β :=
  ⟨entry.key,entry.sequenceNo,entry.board⟩

namespace SudokuSolverRankInfo

variable {κ β : Type} [LinearOrder κ]

def Queued (s : SudokuSolverRankInfo κ β) (key : κ) (board : β) : Prop :=
  ∃ queue, s.keyBoards.find? key = some queue ∧ board ∈ queue

def Pending (s : SudokuSolverRankInfo κ β) (t : SudokuTask κ β) : Prop :=
  t ∈ s.pending.map PendingInfo.task

def Remaining (s : SudokuSolverRankInfo κ β) (t : SudokuTask κ β) : Prop :=
  t ∈ s.remaining.map PendingInfo.task

/-- An answer that comes for the task is taken. -/
def Open (s : SudokuSolverRankInfo κ β) (t : SudokuTask κ β) : Prop :=
  s.Pending t ∨ s.Remaining t

def Reported (s : SudokuSolverRankInfo κ β) (key : κ) : Prop :=
  key ∈ s.solutions.map SolvedSudokuBoard.key

/-- Tasks, solutions and the count of numbers are left as they are. -/
structure SameTasks (s s' : SudokuSolverRankInfo κ β) : Prop where
  pending : s'.pending.map PendingInfo.task = s.pending.map PendingInfo.task
  remaining : s'.remaining.map PendingInfo.task = s.remaining.map PendingInfo.task
  solutions : s'.solutions = s.solutions
  sequence : s'.querySequence = s.querySequence
  turns : s'.turns = s.turns

section Same

variable {s s' : SudokuSolverRankInfo κ β}

theorem sameTasks_refl (s : SudokuSolverRankInfo κ β) : SameTasks s s := ⟨rfl,rfl,rfl,rfl,rfl⟩

theorem pending_same (h : SameTasks s s') (t : SudokuTask κ β) :
    s'.Pending t ↔ s.Pending t := by
  rw [Pending, h.pending, Pending]

theorem remaining_same (h : SameTasks s s') (t : SudokuTask κ β) :
    s'.Remaining t ↔ s.Remaining t := by
  rw [Remaining, h.remaining, Remaining]

theorem open_same (h : SameTasks s s') (t : SudokuTask κ β) : s'.Open t ↔ s.Open t :=
  or_congr (pending_same h t) (remaining_same h t)

theorem reported_solutions (h : s'.solutions = s.solutions) (key : κ) :
    s'.Reported key ↔ s.Reported key := by
  rw [Reported, h, Reported]

end Same

/-! ## Queued boards -/

theorem mem_emplace {boards : SudokuBoards β} {board b : β} {queue : List β} :
    b ∈ emplace boards board queue ↔ b = board ∨ b ∈ queue := by
  have htake := List.prefix_iff_eq_take.mp (List.takeWhile_prefix (l := queue)
    (fun e => decide (boards.alternativeCount board ≤ boards.alternativeCount e)))
  have hqueue := List.take_append_drop (queue.takeWhile (fun e =>
    decide (boards.alternativeCount board ≤ boards.alternativeCount e))).length queue
  rw [← htake] at hqueue
  rw [emplace, ← hqueue]
  simp only [List.mem_append, List.mem_cons]
  rw [hqueue]
  tauto

variable (env : SudokuEnv β) (now : ℕ) (alreadyDone : κ → Bool)

theorem addBoard_same (s : SudokuSolverRankInfo κ β) (key : κ) (board : β) :
    SameTasks s (s.addBoard env now key board) := ⟨rfl,rfl,rfl,rfl,rfl⟩

theorem queued_addBoard (s : SudokuSolverRankInfo κ β) (key k : κ) (board b : β) :
    (s.addBoard env now key board).Queued k b ↔ s.Queued k b ∨ k = key ∧ b = board := by
  rw [Queued, addBoard, Queued]
  by_cases hk : key = k
  · subst hk
    cases s.keyBoards.find? key <;> simp [mem_emplace, or_comm]
  · simp [hk, Ne.symm hk]

/-- Entries that are too late are queued, those of keys that are done already
are dropped. -/
theorem replaced_spec (s : SudokuSolverRankInfo κ β) (entries : List (PendingInfo κ β)) :
    SameTasks s (entries.foldl (replaceTimeouted env now alreadyDone) s) ∧
    ∀ k b, (entries.foldl (replaceTimeouted env now alreadyDone) s).Queued k b ↔ s.Queued k b ∨
      ∃ e ∈ entries, alreadyDone e.key = false ∧ e.key = k ∧ e.board = b := by
  induction entries generalizing s with
  | nil => exact ⟨sameTasks_refl s,by simp⟩
  | cons e entries ih =>
    have hone : SameTasks s (replaceTimeouted env now alreadyDone s e) ∧
        ∀ k b, (replaceTimeouted env now alreadyDone s e).Queued k b ↔ s.Queued k b ∨
          alreadyDone e.key = false ∧ e.key = k ∧ e.board = b := by
      rw [replaceTimeouted]
      cases hd : alreadyDone e.key with
      | true => exact ⟨⟨rfl,rfl,rfl,rfl,rfl⟩,fun k b => by simp [Queued]⟩
      | false =>
        refine ⟨⟨rfl,rfl,rfl,rfl,rfl⟩,fun k b => ?_⟩
        show (s.addBoard env now e.key e.board).Queued k b ↔ _
        rw [queued_addBoard, eq_comm (a := k), eq_comm (a := b)]
        simp
    obtain ⟨hs,hq⟩ := ih (replaceTimeouted env now alreadyDone s e)
    rw [List.foldl_cons]
    constructor
    · exact ⟨hs.pending.trans hone.1.pending,hs.remaining.trans hone.1.remaining,
        hs.solutions.trans hone.1.solutions,hs.sequence.trans hone.1.sequence,
        hs.turns.trans hone.1.turns⟩
    · intro k b
      rw [hq, hone.2]
      simp [or_assoc]

/-- What is pending stays so or is queued. -/
structure Replaces (alreadyDone : κ → Bool) (s s' : SudokuSolverRankInfo κ β) : Prop where
  queued : ∀ k b, s.Queued k b → s'.Queued k b
  queued_from : ∀ k b, s'.Queued k b → s.Queued k b ∨
    ∃ t, s.Pending t ∧ t.key = k ∧ t.board = b
  pending : ∀ t, s.Pending t → s'.Pending t ∨ alreadyDone t.key = true ∨
    s'.Queued t.key t.board
  pending_from : ∀ t, s'.Pending t → s.Pending t
  remaining : ∀ t, s'.Remaining t ↔ s.Remaining t
  solutions : s'.solutions = s.solutions
  sequence : s'.querySequence = s.querySequence
  turns : s'.turns = s.turns

theorem handleTimeouted_spec (s : SudokuSolverRankInfo κ β) :
    Replaces alreadyDone s (s.handleTimeouted env now alreadyDone) := by
  obtain ⟨hs,hq⟩ := replaced_spec env now alreadyDone s
    (s.pending.filter (fun entry => entry.tooLate.isExpired now))
  constructor
  case queued => exact fun k b hb => (hq k b).mpr (Or.inl hb)
  case queued_from =>
    intro k b hb
    rcases (hq k b).mp hb with hb | ⟨e,he,_,hk,hb⟩
    · exact Or.inl hb
    · exact Or.inr ⟨e.task,List.mem_map_of_mem (List.mem_filter.mp he).1,hk,hb⟩
  case pending =>
    intro t ht
    obtain ⟨e,he,rfl⟩ := List.mem_map.mp ht
    cases hx : e.tooLate.isExpired now with
    | false => exact Or.inl (List.mem_map_of_mem (List.mem_filter.mpr ⟨he,by simp [hx]⟩))
    | true =>
      cases hd : alreadyDone e.key with
      | true => exact Or.inr (Or.inl hd)
      | false =>
        exact Or.inr (Or.inr ((hq _ _).mpr (Or.inr ⟨e,List.mem_filter.mpr ⟨he,hx⟩,hd,rfl,rfl⟩)))
  case pending_from =>
    intro t ht
    obtain ⟨e,he,rfl⟩ := List.mem_map.mp ht
    exact List.mem_map_of_mem (List.mem_filter.mp he).1
  case remaining =>
    have hsame := remaining_same hs
    exact hsame
  case solutions => exact hs.solutions
  case sequence => exact hs.sequence
  case turns => exact hs.turns

/-! ## Answers -/

omit [LinearOrder κ] in
theorem map_restarted (entries : List (PendingInfo κ β)) (pos : ℕ) :
    (entries.modify pos (restarted now)).map PendingInfo.task =
      entries.map PendingInfo.task := by
  induction entries generalizing pos with
  | nil => cases pos <;> rfl
  | cons e entries ih =>
    cases pos with
    | zero => rfl
    | succ pos => simp [List.modify_succ_cons, ih]

omit [LinearOrder κ] in
/-- The first entry with the number. -/
theorem hasSequence_found {entries : List (PendingInfo κ β)} {n : MessageSequence} {pos : ℕ}
    (h : entries.findIdx? (hasSequence n) = some pos) :
    ∃ e, entries[pos]? = some e ∧ e ∈ entries ∧ e.task.sequenceNo = n := by
  obtain ⟨hlt,hn,_⟩ := List.findIdx?_eq_some_iff_getElem.mp h
  exact ⟨entries[pos],List.getElem?_eq_getElem hlt,List.getElem_mem hlt,of_decide_eq_true hn⟩

omit [LinearOrder κ] in
theorem hasSequence_absent {entries : List (PendingInfo κ β)} {n : MessageSequence}
    (h : entries.findIdx? (hasSequence n) = none) {t : SudokuTask κ β}
    (ht : t ∈ entries.map PendingInfo.task) : t.sequenceNo ≠ n := by
  obtain ⟨e,he,rfl⟩ := List.mem_map.mp ht
  have hn := List.findIdx?_eq_none_iff.mp h e he
  exact of_decide_eq_false hn

omit [LinearOrder κ] in
theorem task_of_eraseIdx {entries : List (PendingInfo κ β)} {pos : ℕ} {t : SudokuTask κ β}
    (ht : t ∈ (entries.eraseIdx pos).map PendingInfo.task) :
    t ∈ entries.map PendingInfo.task := by
  obtain ⟨e,he,rfl⟩ := List.mem_map.mp ht
  exact List.mem_map_of_mem (List.mem_of_mem_eraseIdx he)

omit [LinearOrder κ] in
theorem task_eraseIdx {entries : List (PendingInfo κ β)} {pos : ℕ} {e : PendingInfo κ β}
    (hpos : entries[pos]? = some e) {t : SudokuTask κ β}
    (ht : t ∈ entries.map PendingInfo.task) :
    t = e.task ∨ t ∈ (entries.eraseIdx pos).map PendingInfo.task := by
  obtain ⟨d,hd,rfl⟩ := List.mem_map.mp ht
  obtain ⟨i,hi⟩ := List.mem_iff_getElem?.mp hd
  by_cases hip : i = pos
  · subst hip
    rw [hpos] at hi
    exact Or.inl (Option.some.inj hi ▸ rfl)
  · exact Or.inr (List.mem_map_of_mem (List.mem_eraseIdx_iff_getElem?.mpr ⟨i,hip,hi⟩))

/-- No task has the number. -/
def Unasked (s : SudokuSolverRankInfo κ β) (n : MessageSequence) : Prop :=
  ∀ t, s.Open t → t.sequenceNo ≠ n

/-- A response is for no task, for the first pending entry with its number or,
where there is none, for the first remaining one. -/
theorem handleResponse_cases (isSolved : Bool) (s : SudokuSolverRankInfo κ β)
    (n : MessageSequence) (c : β) :
    (s.Unasked n ∧ s.handleResponse env now isSolved n c = s) ∨
    (∃ e pos, e ∈ s.pending ∧ e.task.sequenceNo = n ∧
      s.handleResponse env now isSolved n c =
        { s.processPendingEntry env now isSolved e c with
          pending := s.pending.modify pos (restarted now) }) ∨
    ∃ e pos, s.remaining[pos]? = some e ∧ e.task.sequenceNo = n ∧
      s.handleResponse env now isSolved n c =
        { s.processPendingEntry env now isSolved e c with
          remaining := if isSolved then s.remaining.eraseIdx pos
            else s.remaining.modify pos (restarted now) } := by
  rw [handleResponse]
  cases hp : s.pending.findIdx? (hasSequence n) with
  | some pos =>
    obtain ⟨e,hpos,hmem,hn⟩ := hasSequence_found hp
    simp only [hpos]
    exact .inr (.inl ⟨e,pos,hmem,hn,rfl⟩)
  | none =>
    cases hr : s.remaining.findIdx? (hasSequence n) with
    | none =>
      exact .inl ⟨fun t ht => ht.elim (hasSequence_absent hp) (hasSequence_absent hr),rfl⟩
    | some pos =>
      obtain ⟨e,hpos,_,hn⟩ := hasSequence_found hr
      simp only [hpos]
      exact .inr (.inr ⟨e,pos,hpos,hn,rfl⟩)

/-- A candidate is queued for the key of its task. -/
theorem handleResponse_candidate (s : SudokuSolverRankInfo κ β) (n : MessageSequence) (c : β) :
    (s.Unasked n ∧ s.handleResponse env now false n c = s) ∨
    ∃ t, s.Open t ∧ t.sequenceNo = n ∧ SameTasks s (s.handleResponse env now false n c) ∧
      ∀ k b, (s.handleResponse env now false n c).Queued k b ↔
        s.Queued k b ∨ k = t.key ∧ b = c := by
  rcases handleResponse_cases env now false s n c with
    h | ⟨e,pos,hmem,hn,hs⟩ | ⟨e,pos,hpos,hn,hs⟩
  · exact .inl h
  · rw [hs]
    refine .inr ⟨e.task,.inl (List.mem_map_of_mem hmem),hn,
      ⟨map_restarted now _ _,rfl,rfl,rfl,rfl⟩,?_⟩
    intro k b
    exact queued_addBoard env now s e.key k c b
  · rw [hs]
    refine .inr ⟨e.task,.inr (List.mem_map_of_mem (List.mem_of_getElem? hpos)),hn,
      ⟨rfl,map_restarted now _ _,rfl,rfl,rfl⟩,?_⟩
    intro k b
    exact queued_addBoard env now s e.key k c b

/-- The key is reported, its queue is dropped and other keys are left as they are. -/
structure Reports (t : SudokuTask κ β) (s s' : SudokuSolverRankInfo κ β) : Prop where
  queued : ∀ k b, s'.Queued k b ↔ s.Queued k b ∧ k ≠ t.key
  pending : ∀ u, s'.Pending u ↔ s.Pending u
  remaining : ∀ u, s.Remaining u → u.key ≠ t.key → s'.Remaining u
  remaining_from : ∀ u, s'.Remaining u → s.Remaining u
  reported : ∀ k, s'.Reported k ↔ s.Reported k ∨ k = t.key
  sequence : s'.querySequence = s.querySequence
  turns : s'.turns = s.turns

theorem queued_processSolved (s : SudokuSolverRankInfo κ β) (e : PendingInfo κ β) (board : β)
    (k : κ) (b : β) : (s.processSolved now e board).Queued k b ↔ s.Queued k b ∧ k ≠ e.key := by
  show (∃ queue, (s.keyBoards.eraseIf (fun key _ => e.key = key)).find? k = some queue ∧ _) ↔ _
  rw [OrderedMap.eraseIf, OrderedMap.find?_filter, Queued]
  cases s.keyBoards.find? k with
  | none => simp
  | some queue =>
    by_cases hk : e.key = k
    · simp [Option.filter, hk]
    · simp [Option.filter, hk, Ne.symm hk]

theorem reported_processSolved (s : SudokuSolverRankInfo κ β) (e : PendingInfo κ β) (board : β)
    (k : κ) : (s.processSolved now e board).Reported k ↔ s.Reported k ∨ k = e.key := by
  simp [Reported, processSolved]

theorem handleResponse_solved (s : SudokuSolverRankInfo κ β) (n : MessageSequence) (c : β) :
    (s.Unasked n ∧ s.handleResponse env now true n c = s) ∨
    ∃ t, s.Open t ∧ t.sequenceNo = n ∧ Reports t s (s.handleResponse env now true n c) := by
  rcases handleResponse_cases env now true s n c with
    h | ⟨e,pos,hmem,hn,hs⟩ | ⟨e,pos,hpos,hn,hs⟩
  · exact .inl h
  · rw [hs]
    refine .inr ⟨e.task,.inl (List.mem_map_of_mem hmem),hn,queued_processSolved now s e c,?_,
      fun u hu _ => hu,fun u hu => hu,reported_processSolved now s e c,rfl,rfl⟩
    intro u
    rw [Pending, map_restarted, Pending]
  · rw [hs]
    refine .inr ⟨e.task,.inr (List.mem_map_of_mem (List.mem_of_getElem? hpos)),hn,
      queued_processSolved now s e c,fun u => Iff.rfl,?_,?_,reported_processSolved now s e c,
      rfl,rfl⟩
    · intro u hu hne
      apply (task_eraseIdx hpos hu).resolve_left
      intro he
      apply hne
      rw [he]
    · intro u hu
      exact task_of_eraseIdx hu

/-- The task remains unless its key is done already. -/
structure Closes (alreadyDone : κ → Bool) (t : SudokuTask κ β)
    (s s' : SudokuSolverRankInfo κ β) : Prop where
  queued : ∀ k b, s'.Queued k b ↔ s.Queued k b
  pending : ∀ u, s.Pending u → u = t ∨ s'.Pending u
  pending_from : ∀ u, s'.Pending u → s.Pending u
  closed : alreadyDone t.key = false → s'.Remaining t
  remaining : ∀ u, s.Remaining u → alreadyDone u.key = false → s'.Remaining u
  remaining_from : ∀ u, s'.Remaining u → s.Remaining u ∨ u = t
  solutions : s'.solutions = s.solutions
  sequence : s'.querySequence = s.querySequence
  turns : s'.turns = s.turns

theorem pendingDone_spec (s : SudokuSolverRankInfo κ β) (n : MessageSequence) :
    s.pendingDone alreadyDone n = s ∨
    ∃ t, s.Pending t ∧ t.sequenceNo = n ∧ Closes alreadyDone t s (s.pendingDone alreadyDone n) := by
  rw [pendingDone]
  cases hp : s.pending.findIdx? (hasSequence n) with
  | none => exact Or.inl rfl
  | some pos =>
    obtain ⟨e,hpos,hmem,hn⟩ := hasSequence_found hp
    simp only [hpos]
    refine Or.inr ⟨e.task,List.mem_map_of_mem hmem,hn,?_⟩
    cases hd : alreadyDone e.key with
    | true =>
      refine ⟨fun k b => Iff.rfl,fun u => task_eraseIdx hpos,fun u => task_of_eraseIdx,
        ?_,?_,?_,rfl,rfl,rfl⟩
      · intro hk
        rw [show e.task.key = e.key from rfl, hd] at hk
        cases hk
      · intro u hu hk
        obtain ⟨d,hdm,rfl⟩ := List.mem_map.mp hu
        apply List.mem_map_of_mem
        apply List.mem_filter.mpr
        refine ⟨hdm,?_⟩
        have hne : d.key ≠ e.key := by
          intro he
          rw [show d.task.key = d.key from rfl, he, hd] at hk
          cases hk
        simpa using hne
      · intro u hu
        obtain ⟨d,hdm,rfl⟩ := List.mem_map.mp hu
        exact Or.inl (List.mem_map_of_mem (List.mem_filter.mp hdm).1)
    | false =>
      have hmap : (s.remaining ++ [e]).map PendingInfo.task =
          s.remaining.map PendingInfo.task ++ [e.task] := List.map_append
      refine ⟨fun k b => Iff.rfl,fun u => task_eraseIdx hpos,fun u => task_of_eraseIdx,
        ?_,?_,?_,rfl,rfl,rfl⟩
      · intro _
        show e.task ∈ (s.remaining ++ [e]).map PendingInfo.task
        rw [hmap]
        exact List.mem_append_right _ (List.mem_singleton_self _)
      · intro u hu _
        show u ∈ (s.remaining ++ [e]).map PendingInfo.task
        rw [hmap]
        exact List.mem_append_left _ hu
      · intro u hu
        have hu : u ∈ (s.remaining ++ [e]).map PendingInfo.task := hu
        rw [hmap] at hu
        exact (List.mem_append.mp hu).imp id List.mem_singleton.mp

/-! ## Queries -/

/-- The board at the back of a queue is pending under the number. -/
structure Asks (t : SudokuTask κ β) (s s' : SudokuSolverRankInfo κ β) : Prop where
  queued_before : s.Queued t.key t.board
  queued : ∀ k b, s.Queued k b → s'.Queued k b ∨ k = t.key ∧ b = t.board
  queued_from : ∀ k b, s'.Queued k b → s.Queued k b
  pending : ∀ u, s'.Pending u ↔ s.Pending u ∨ u = t
  remaining : s'.remaining = s.remaining
  solutions : s'.solutions = s.solutions

/-- The board at the back of the queue is taken off. -/
theorem queued_dropLast {s s' : SudokuSolverRankInfo κ β} {key : κ} {rest : List β} {board : β}
    (hfind : s.keyBoards.find? key = some (rest ++ [board]))
    (hs' : s'.keyBoards = s.keyBoards.assign key rest) (k : κ) (b : β) :
    (s.Queued k b → s'.Queued k b ∨ k = key ∧ b = board) ∧ (s'.Queued k b → s.Queued k b) := by
  rw [Queued, Queued, hs', OrderedMap.find?_assign]
  by_cases hk : key = k
  · subst hk
    rw [hfind, if_pos rfl]
    simp only [Option.some.injEq, exists_eq_left', List.mem_append, List.mem_singleton]
    tauto
  · rw [if_neg hk]
    exact ⟨fun h => Or.inl h,fun h => h⟩

theorem sendBoardTo_spec {solverId helperId : EndpointId} {s : SudokuSolverRankInfo κ β}
    {out : SudokuSolverRankInfo κ β × List (SudokuPacket β)}
    (h : s.sendBoardTo env now solverId helperId = some out) :
    out.1.querySequence = (s.querySequence+1) % sequenceCount ∧ out.1.turns = s.turns+1 ∧
    ((out.2 = [] ∧ out.1.pending = s.pending ∧ out.1.remaining = s.remaining ∧
        out.1.solutions = s.solutions ∧ ∀ k b, out.1.Queued k b ↔ s.Queued k b) ∨
      ∃ e, e.sequenceNo = (s.querySequence+1) % sequenceCount ∧
        out.2 = [⟨solverId,helperId,.query e.sequenceNo e.board⟩] ∧
        out.1.pending = s.pending ++ [e] ∧ Asks e.task s out.1) := by
  rw [sendBoardTo] at h
  cases he : s.keyBoards.entries[s.querySequence % s.keyBoards.size]? with
  | none =>
    rw [he] at h
    cases h
  | some entry =>
    obtain ⟨key,queue⟩ := entry
    have hfind : s.keyBoards.find? key = some queue :=
      OrderedMap.find?_eq_some.mpr (List.mem_of_getElem? he)
    simp only [he] at h
    cases hq : queue.getLast? with
    | none =>
      obtain rfl : queue = [] := List.getLast?_eq_none_iff.mp hq
      simp only [List.getLast?_nil, Option.some.injEq] at h
      subst h
      refine ⟨rfl,rfl,Or.inl ⟨rfl,rfl,rfl,rfl,?_⟩⟩
      intro k b
      by_cases hk : k = key
      · subst hk
        simp [Queued, hfind]
      · simp [Queued, hk]
    | some board =>
      obtain ⟨rest,rfl⟩ := List.getLast?_eq_some_iff.mp hq
      simp only [hq, Option.some.injEq, List.dropLast_concat] at h
      subst h
      refine ⟨rfl,rfl,Or.inr
        ⟨sent env now helperId ((s.querySequence+1) % sequenceCount) key board,rfl,rfl,rfl,?_⟩⟩
      constructor
      case queued_before => exact ⟨_,hfind,List.mem_append_right _ (List.mem_singleton_self _)⟩
      case queued => exact fun k b => (queued_dropLast hfind rfl k b).1
      case queued_from => exact fun k b => (queued_dropLast hfind rfl k b).2
      case pending =>
        intro u
        simp [Pending, sent, PendingInfo.task]
      case remaining => rfl
      case solutions => rfl

end SudokuSolverRankInfo

/-- The rule for the loop over the ready helpers. -/
theorem SudokuSystem.sendBoardsTo_keeps {κ β : Type} [LinearOrder κ] (env : SudokuEnv β) (now : ℕ)
    {P : SudokuSystem κ β → Prop}
    (hstep : ∀ s s' helperId, P s → s.sendBoardTo env now helperId = some s' → P s')
    (ids : List EndpointId) {s : SudokuSystem κ β} (h : P s) : P (s.sendBoardsTo env now ids) := by
  induction ids generalizing s with
  | nil => exact h
  | cons helperId ids ih =>
    rw [SudokuSystem.sendBoardsTo]
    cases hs : s.sendBoardTo env now helperId with
    | none => exact h
    | some s' => exact ih (hstep s s' helperId h hs)

end MsgBus
