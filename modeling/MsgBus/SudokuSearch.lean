import MsgBus.Lib.StepRun
import MsgBus.SudokuCoverage

/-!
# A distributed search loses no branch

Queries and answers name tasks by the numbers that the solver takes. As long as
the numbers do not run out a number stands for one task, so what a helper
answers is about the board of the task that takes the answer. Each step then
keeps the fillings of the enqueued boards covered.
-/

set_option autoImplicit false

namespace MsgBus.SudokuSystem

open SudokuSolverRankInfo SudokuHelperRankInfo

variable {κ β φ : Type} [LinearOrder κ] {boards : SudokuBoards β}

/-! ## Numbers and tasks -/

variable (boards) in
/-- The board is the one of each task with the number. -/
structure Asked (s : SudokuSystem κ β) (n : MessageSequence) (b : β) : Prop where
  unsolved : boards.isSolved b = false
  taken : n ≤ s.solver.querySequence
  same : ∀ t, s.solver.Open t → t.sequenceNo = n → t.board = b

variable (en : Enumeration boards φ)

/-- The board refines the one of each task with the number. -/
structure Proposed (s : SudokuSystem κ β) (n : MessageSequence) (c : β) : Prop where
  unsolved : boards.isSolved c = false
  taken : n ≤ s.solver.querySequence
  refines : ∀ t, s.solver.Open t → t.sequenceNo = n → en.Refines t.board c

def Fits (s : SudokuSystem κ β) (packet : SudokuPacket β) : Prop :=
  match packet.message with
  | .search => True
  | .alive => True
  | .query n b => packet.sourceId = s.solverId ∧ Asked boards s n b
  | .candidate n c => packet.targetId = s.solverId ∧ Proposed en s n c
  | .solved n _ => packet.targetId = s.solverId ∧ n ≤ s.solver.querySequence
  | .done n => packet.targetId = s.solverId ∧ n ≤ s.solver.querySequence

structure Tied (s : SudokuSystem κ β) : Prop where
  turns : s.solver.querySequence = s.solver.turns
  issued : ∀ t, s.solver.Open t → t.sequenceNo ≤ s.solver.querySequence
  unique : ∀ t u, s.solver.Open t → s.solver.Open u → t.sequenceNo = u.sequenceNo → t = u
  unsolved : ∀ t, s.solver.Open t → boards.isSolved t.board = false
  queued : ∀ k b, s.solver.Queued k b → boards.isSolved b = false
  flight : ∀ p ∈ s.flight, Fits en s p
  helpers : ∀ id, ∀ task ∈ (s.helpers id).boards,
    task.sourceId = s.solverId ∧ Asked boards s task.sequenceNo task.board

variable (boards) in
/-- Numbers are taken and at most one task is opened, under a number of its own. -/
structure Later (asked : Option (SudokuTask κ β)) (s s' : SudokuSystem κ β) : Prop where
  solverId : s'.solverId = s.solverId
  sequence : s.solver.querySequence ≤ s'.solver.querySequence
  turns : s'.solver.querySequence = s'.solver.turns
  opened : ∀ t, s'.solver.Open t → s.solver.Open t ∨ t ∈ asked
  fresh : ∀ t ∈ asked, s.solver.querySequence < t.sequenceNo ∧
    t.sequenceNo ≤ s'.solver.querySequence ∧ boards.isSolved t.board = false

variable {en} {asked : Option (SudokuTask κ β)} {s s' : SudokuSystem κ β}

/-- A task with a number that had been taken was open. -/
theorem later_open (hl : Later boards asked s s') {t : SudokuTask κ β} {n : MessageSequence}
    (ht : s'.solver.Open t) (hn : t.sequenceNo = n) (htaken : n ≤ s.solver.querySequence) :
    s.solver.Open t := by
  rcases hl.opened t ht with ho | ha
  · exact ho
  · have hfresh := (hl.fresh t ha).1
    rw [hn] at hfresh
    exact absurd htaken (not_le_of_gt hfresh)

theorem asked_later (hl : Later boards asked s s') {n : MessageSequence} {b : β}
    (h : Asked boards s n b) : Asked boards s' n b :=
  ⟨h.unsolved,h.taken.trans hl.sequence,
    fun t ht hn => h.same t (later_open hl ht hn h.taken) hn⟩

theorem fits_later (hl : Later boards asked s s') {packet : SudokuPacket β}
    (h : Fits en s packet) : Fits en s' packet := by
  rw [Fits] at h ⊢
  cases hm : packet.message with
  | search => trivial
  | alive => trivial
  | query n b =>
    rw [hm] at h
    exact ⟨h.1.trans hl.solverId.symm,asked_later hl h.2⟩
  | candidate n c =>
    rw [hm] at h
    exact ⟨h.1.trans hl.solverId.symm,h.2.unsolved,h.2.taken.trans hl.sequence,
      fun t ht hn => h.2.refines t (later_open hl ht hn h.2.taken) hn⟩
  | solved n c =>
    rw [hm] at h
    exact ⟨h.1.trans hl.solverId.symm,h.2.trans hl.sequence⟩
  | done n =>
    rw [hm] at h
    exact ⟨h.1.trans hl.solverId.symm,h.2.trans hl.sequence⟩

theorem tied_later (h : Tied en s) (hl : Later boards asked s s')
    (hq : ∀ k b, s'.solver.Queued k b → s.solver.Queued k b ∨ boards.isSolved b = false)
    (hflight : ∀ p ∈ s'.flight, p ∈ s.flight ∨ Fits en s' p)
    (hhelpers : ∀ id, ∀ task ∈ (s'.helpers id).boards, task ∈ (s.helpers id).boards ∨
      task.sourceId = s.solverId ∧ Asked boards s task.sequenceNo task.board) : Tied en s' := by
  constructor
  case turns => exact hl.turns
  case issued =>
    intro t ht
    rcases hl.opened t ht with ho | ha
    · exact (h.issued t ho).trans hl.sequence
    · exact (hl.fresh t ha).2.1
  case unique =>
    intro t u ht hu heq
    rcases hl.opened t ht with ho | ha
    · exact h.unique t u ho (later_open hl hu heq.symm (h.issued t ho)) heq
    · rcases hl.opened u hu with ho | ha'
      · exact absurd (h.issued u ho) (not_le_of_gt (heq ▸ (hl.fresh t ha).1))
      · exact Option.mem_unique ha ha'
  case unsolved =>
    intro t ht
    rcases hl.opened t ht with ho | ha
    · exact h.unsolved t ho
    · exact (hl.fresh t ha).2.2
  case queued =>
    intro k b hb
    exact (hq k b hb).elim (h.queued k b) id
  case flight =>
    intro p hp
    exact (hflight p hp).elim (fun hp => fits_later hl (h.flight p hp)) id
  case helpers =>
    intro id task ht
    have ha : task.sourceId = s.solverId ∧ Asked boards s task.sequenceNo task.board :=
      (hhelpers id task ht).elim (h.helpers id task) (fun ha => ha)
    exact ⟨ha.1.trans hl.solverId.symm,asked_later hl ha.2⟩

theorem sent_fits (h : Tied en s) {m : SudokuMessage β} (hs : s.Sent m) :
    ∃ p, p.message = m ∧ Fits en s p := by
  obtain ⟨p,hp,hm⟩ := List.mem_map.mp hs
  exact ⟨p,hm,h.flight p hp⟩

theorem tied_refining (h : Tied en s) : Refining en s := by
  intro t c ho hs
  obtain ⟨p,hm,hf⟩ := sent_fits h hs
  rw [Fits, hm] at hf
  exact hf.2.refines t ho rfl

/-! ## The invariant and the solver's own steps -/

variable (en) in
structure Inv (s : SudokuSystem κ β) : Prop where
  tied : Tied en s
  covers : Covers en s
  finished : Finished en s

theorem inv_kept (closing : Option (SudokuTask κ β)) (h : Inv en s) (ht : Tied en s')
    (hk : Keeps en closing s s')
    (hclosing : ∀ t ∈ closing, s.solver.Pending t ∧ s.Sent (.done t.sequenceNo)) : Inv en s' :=
  ⟨ht,covers_kept hk (tied_refining h.tied) h.finished hclosing h.covers,
    finished_kept hk (tied_refining h.tied) h.finished hclosing⟩

/-- No number is taken. -/
theorem later_of_sequence (h : Tied en s) (hid : s'.solverId = s.solverId)
    (hseq : s'.solver.querySequence = s.solver.querySequence)
    (hturns : s'.solver.turns = s.solver.turns)
    (hopen : ∀ t, s'.solver.Open t → s.solver.Open t) : Later boards none s s' := by
  refine ⟨hid,hseq.ge,?_,fun t ht => Or.inl (hopen t ht),by simp⟩
  rw [hseq, hturns]
  exact h.turns

theorem later_same (h : Tied en s) (hs : SameTasks s.solver s'.solver)
    (hid : s'.solverId = s.solverId) : Later boards none s s' :=
  later_of_sequence h hid hs.sequence hs.turns (fun t => (open_same hs t).mp)

variable {env : SudokuEnv β} (now : ℕ) {alreadyDone : κ → Bool}

theorem inv_enqueue (h : Inv en s) (key : κ) {board : β}
    (hb : boards.isSolved board = false) : Inv en (s.enqueue env now key board) := by
  have hs : SameTasks s.solver (s.enqueue env now key board).solver :=
    addBoard_same env now s.solver key board
  have hq := queued_addBoard env now s.solver key
  apply inv_kept none h
  · apply tied_later h.tied (later_same h.tied hs rfl)
    · intro k b hkb
      rcases (hq k board b).mp hkb with hkb | ⟨_,rfl⟩
      · exact Or.inl hkb
      · exact Or.inr hb
    · exact fun p hp => Or.inl hp
    · exact fun id task ht => Or.inl ht
  · constructor
    case reported => exact fun k hr => hr
    case queued => exact fun k b hkb _ => Or.inl ((hq k board b).mpr (Or.inl hkb))
    case pending => exact fun t ht _ => Or.inl ht
    case remaining => exact fun t ht _ => ht
    case candidate => exact fun t c _ hc _ => Or.inl hc
    case solved => exact fun t c _ hc _ => hc
    case done => exact fun t ht hd => Or.inl ⟨ht,hd⟩
    case enqueued =>
      intro e he
      rcases List.mem_append.mp he with he | he
      · exact Or.inl he
      · obtain rfl := List.mem_singleton.mp he
        exact Or.inr ((hq key board board).mpr (Or.inr ⟨rfl,rfl⟩))
  · simp

/-- The driver says of a key that it is done only when a solution for it has
been reported. -/
def Knows (s : SudokuSystem κ β) (alreadyDone : κ → Bool) : Prop :=
  ∀ key, alreadyDone key = true → s.solver.Reported key

theorem inv_timeouted (h : Inv en s) (hd : s.Knows alreadyDone) :
    Inv en (s.onSolver (fun solver => solver.handleTimeouted env now alreadyDone)) := by
  have hr := handleTimeouted_spec env now alreadyDone s.solver
  have hreported := reported_solutions hr.solutions
  have hl : Later boards none s
      (s.onSolver (fun solver => solver.handleTimeouted env now alreadyDone)) :=
    later_of_sequence h.tied rfl hr.sequence hr.turns
      (fun t ht => ht.imp (hr.pending_from t) (hr.remaining t).mp)
  apply inv_kept none h
  · apply tied_later h.tied hl
    · intro k b hkb
      rcases hr.queued_from k b hkb with hkb | ⟨t,ht,_,rfl⟩
      · exact Or.inl hkb
      · exact Or.inr (h.tied.unsolved t (Or.inl ht))
    · exact fun p hp => Or.inl hp
    · exact fun id task ht => Or.inl ht
  · constructor
    case reported => exact fun k hk => (hreported k).mpr hk
    case queued => exact fun k b hkb _ => Or.inl (hr.queued k b hkb)
    case pending =>
      intro t ht hn
      rcases hr.pending t ht with hp | hk | hq
      · exact Or.inl hp
      · exact absurd ((hreported t.key).mpr (hd t.key hk)) hn
      · exact Or.inr (Or.inl hq)
    case remaining => exact fun t ht _ => (hr.remaining t).mpr ht
    case candidate => exact fun t c _ hc _ => Or.inl hc
    case solved => exact fun t c _ hc _ => hc
    case done => exact fun t ht hs => Or.inl ⟨hr.pending_from t ht,hs⟩
    case enqueued => exact fun e he => Or.inl he
  · simp

/-- An empty queue is dropped, which takes a number. -/
theorem inv_dropped {solver : SudokuSolverRankInfo κ β} (h : Inv en s)
    (hseq : solver.querySequence = s.solver.querySequence+1)
    (hturns : solver.turns = s.solver.turns+1) (hp : solver.pending = s.solver.pending)
    (hm : solver.remaining = s.solver.remaining) (hsol : solver.solutions = s.solver.solutions)
    (hq : ∀ k b, solver.Queued k b ↔ s.solver.Queued k b) :
    Inv en { s with solver := solver } := by
  have hpending : ∀ t, solver.Pending t ↔ s.solver.Pending t := by
    intro t
    rw [Pending, hp, Pending]
  have hremaining : ∀ t, solver.Remaining t ↔ s.solver.Remaining t := by
    intro t
    rw [Remaining, hm, Remaining]
  have hl : Later boards none s { s with solver := solver } := by
    refine ⟨rfl,?_,?_,?_,by simp⟩
    · show _ ≤ solver.querySequence
      rw [hseq]
      exact Nat.le_succ _
    · show solver.querySequence = solver.turns
      rw [hseq, hturns, h.tied.turns]
    · exact fun t ht => Or.inl (ht.imp (hpending t).mp (hremaining t).mp)
  apply inv_kept none h
  · apply tied_later h.tied hl
    · exact fun k b hkb => Or.inl ((hq k b).mp hkb)
    · exact fun p hp => Or.inl hp
    · exact fun id task ht => Or.inl ht
  · constructor
    case reported => exact fun k hk => (reported_solutions hsol k).mpr hk
    case queued => exact fun k b hkb _ => Or.inl ((hq k b).mpr hkb)
    case pending => exact fun t ht _ => Or.inl ((hpending t).mpr ht)
    case remaining => exact fun t ht _ => (hremaining t).mpr ht
    case candidate => exact fun t c _ hc _ => Or.inl hc
    case solved => exact fun t c _ hc _ => hc
    case done => exact fun t ht hd => Or.inl ⟨(hpending t).mp ht,hd⟩
    case enqueued => exact fun e he => Or.inl he
  · simp

/-- No helper has been asked for a task whose number is new. -/
theorem done_taken (h : Tied en s) {n : MessageSequence} (hs : s.Sent (.done n)) :
    n ≤ s.solver.querySequence := by
  obtain ⟨p,hm,hf⟩ := sent_fits h hs
  rw [Fits, hm] at hf
  exact hf.2

/-- A queue is shortened by the board that becomes pending. -/
theorem inv_asks {solver : SudokuSolverRankInfo κ β} {t : SudokuTask κ β} (h : Inv en s)
    (helperId : EndpointId) (hseq : solver.querySequence = s.solver.querySequence+1)
    (hturns : solver.turns = s.solver.turns+1) (hn : t.sequenceNo = s.solver.querySequence+1)
    (ha : Asks t s.solver solver) :
    Inv en { s with
      solver := solver
      flight := s.flight ++ [⟨s.solverId,helperId,.query t.sequenceNo t.board⟩] } := by
  have hsent : ∀ m, m ∈ (s.flight ++ [(⟨s.solverId,helperId,.query t.sequenceNo t.board⟩ :
      SudokuPacket β)]).map SudokuPacket.message ↔
        s.Sent m ∨ m = .query t.sequenceNo t.board := by
    intro m
    rw [List.map_append, List.mem_append, Sent]
    simp
  have hopen : ∀ u, solver.Open u ↔ s.solver.Open u ∨ u = t := by
    intro u
    rw [Open, ha.pending, Remaining, ha.remaining, Open, Remaining]
    tauto
  have hfresh : s.solver.querySequence < t.sequenceNo := by
    rw [hn]
    exact Nat.lt_succ_self _
  have htaken : t.sequenceNo ≤ solver.querySequence := by rw [hn, hseq]
  have hunsolved := h.tied.queued _ _ ha.queued_before
  have hl : Later boards (some t) s { s with
      solver := solver
      flight := s.flight ++ [⟨s.solverId,helperId,.query t.sequenceNo t.board⟩] } := by
    refine ⟨rfl,hfresh.le.trans htaken,?_,?_,?_⟩
    · show solver.querySequence = solver.turns
      rw [hseq, hturns, h.tied.turns]
    · exact fun u hu => ((hopen u).mp hu).imp id (fun he => Option.mem_some.mpr he.symm)
    · intro u hu
      obtain rfl := Option.some.inj hu
      exact ⟨hfresh,htaken,hunsolved⟩
  apply inv_kept none h
  · apply tied_later h.tied hl
    · exact fun k b hkb => Or.inl (ha.queued_from k b hkb)
    · intro p hp
      rcases List.mem_append.mp hp with hp | hp
      · exact Or.inl hp
      · obtain rfl := List.mem_singleton.mp hp
        refine Or.inr ⟨rfl,hunsolved,htaken,?_⟩
        intro u hu he
        rcases (hopen u).mp hu with ho | rfl
        · exact absurd (he ▸ h.tied.issued u ho) (not_le_of_gt hfresh)
        · rfl
    · exact fun id task ht => Or.inl ht
  · constructor
    case reported => exact fun k hk => (reported_solutions ha.solutions k).mpr hk
    case queued =>
      intro k b hkb _
      rcases ha.queued k b hkb with hq | ⟨rfl,rfl⟩
      · exact Or.inl hq
      · exact Or.inr ⟨t,(ha.pending t).mpr (Or.inr rfl),rfl,rfl⟩
    case pending => exact fun u hu _ => Or.inl ((ha.pending u).mpr (Or.inl hu))
    case remaining =>
      intro u hu _
      show u ∈ solver.remaining.map PendingInfo.task
      rw [ha.remaining]
      exact hu
    case candidate => exact fun u c _ hc _ => Or.inl ((hsent _).mpr (Or.inl hc))
    case solved => exact fun u c _ hc _ => (hsent _).mpr (Or.inl hc)
    case done =>
      intro u hu hd
      have hold : s.Sent (.done u.sequenceNo) := ((hsent _).mp hd).resolve_right (by simp)
      rcases (ha.pending u).mp hu with hp | rfl
      · exact Or.inl ⟨hp,hold⟩
      · exact absurd (done_taken h.tied hold) (not_le_of_gt hfresh)
    case enqueued => exact fun e he => Or.inl he
  · simp

theorem inv_sendBoardTo {helperId : EndpointId} (h : Inv en s)
    (hs : s.sendBoardTo env now helperId = some s') (hturns : s'.solver.turns < sequenceCount) :
    Inv en s' := by
  obtain ⟨out,hout,rfl⟩ := Option.map_eq_some_iff.mp hs
  obtain ⟨hseq,hturn,hcases⟩ := sendBoardTo_spec env now hout
  have hnext : (s.solver.querySequence+1) % sequenceCount = s.solver.querySequence+1 := by
    apply Nat.mod_eq_of_lt
    rw [h.tied.turns, ← hturn]
    exact hturns
  rw [hnext] at hseq hcases
  rcases hcases with ⟨hout2,hp,hm,hsol,hq⟩ | ⟨e,hn,hout2,-,ha⟩
  · rw [hout2, List.append_nil]
    exact inv_dropped h hseq hturn hp hm hsol hq
  · rw [hout2]
    exact inv_asks h helperId hseq hturn hn ha

theorem sendBoardTo_turns {helperId : EndpointId}
    (hs : s.sendBoardTo env now helperId = some s') : s'.solver.turns = s.solver.turns+1 := by
  obtain ⟨out,hout,rfl⟩ := Option.map_eq_some_iff.mp hs
  exact (sendBoardTo_spec env now hout).2.1

variable (env) in
theorem sendBoardsTo_turns (ids : List EndpointId) (s : SudokuSystem κ β) :
    s.solver.turns ≤ (s.sendBoardsTo env now ids).solver.turns := by
  induction ids generalizing s with
  | nil => exact le_rfl
  | cons helperId ids ih =>
    rw [sendBoardsTo]
    cases hs : s.sendBoardTo env now helperId with
    | none => exact le_rfl
    | some s' =>
      have hone := sendBoardTo_turns now hs
      exact le_trans (by omega) (ih s')

theorem inv_sendBoardsTo (ids : List EndpointId) (h : Inv en s)
    (hturns : (s.sendBoardsTo env now ids).solver.turns < sequenceCount) :
    Inv en (s.sendBoardsTo env now ids) := by
  induction ids generalizing s with
  | nil => exact h
  | cons helperId ids ih =>
    rw [sendBoardsTo] at hturns ⊢
    cases hs : s.sendBoardTo env now helperId with
    | none => exact h
    | some s' =>
      rw [hs] at hturns
      have hle := sendBoardsTo_turns env now ids s'
      exact ih (inv_sendBoardTo now h hs (hle.trans_lt hturns)) hturns

/-! ## Helpers and messages -/

/-- Tasks, queues and answers on their way are left as they are; who says that
it is done has answered. -/
theorem inv_quiet (h : Inv en s) (hid : s'.solverId = s.solverId)
    (hsame : SameTasks s.solver s'.solver)
    (hq : ∀ k b, s'.solver.Queued k b ↔ s.solver.Queued k b) (henq : s'.enqueued = s.enqueued)
    (hcandidate : ∀ n c, s.Sent (.candidate n c) → s'.Sent (.candidate n c))
    (hsolved : ∀ n c, s.Sent (.solved n c) → s'.Sent (.solved n c))
    (hdone : ∀ t, s.solver.Pending t → s'.Sent (.done t.sequenceNo) →
      s.Sent (.done t.sequenceNo) ∨ Explored en s' t)
    (hflight : ∀ p ∈ s'.flight, p ∈ s.flight ∨ Fits en s p)
    (hhelpers : ∀ id, ∀ task ∈ (s'.helpers id).boards, task ∈ (s.helpers id).boards ∨
      task.sourceId = s.solverId ∧ Asked boards s task.sequenceNo task.board) : Inv en s' := by
  have hl := later_same h.tied hsame hid
  apply inv_kept none h
  · apply tied_later h.tied hl
    · exact fun k b hkb => Or.inl ((hq k b).mp hkb)
    · exact fun p hp => (hflight p hp).imp id (fits_later hl)
    · exact hhelpers
  · constructor
    case reported => exact fun k hk => (reported_solutions hsame.solutions k).mpr hk
    case queued => exact fun k b hkb _ => Or.inl ((hq k b).mpr hkb)
    case pending => exact fun t ht _ => Or.inl ((pending_same hsame t).mpr ht)
    case remaining => exact fun t ht _ => (remaining_same hsame t).mpr ht
    case candidate => exact fun t c _ hc _ => Or.inl (hcandidate _ c hc)
    case solved => exact fun t c _ hc _ => hsolved _ c hc
    case done =>
      intro t ht hd
      have hp := (pending_same hsame t).mp ht
      exact (hdone t hp hd).imp (fun hs => ⟨hp,hs⟩) id
    case enqueued =>
      intro e he
      rw [henq] at he
      exact Or.inl he
  · simp

theorem searchHelpers_turns (s : SudokuSystem κ β) :
    (s.searchHelpers now).solver.turns = s.solver.turns := by
  rw [searchHelpers]
  split_ifs
  · rfl
  · rfl

theorem inv_searchHelpers (h : Inv en s) : Inv en (s.searchHelpers now) := by
  rw [searchHelpers]
  split_ifs
  · have hsent : ∀ m, s.Sent m → m ∈ (s.flight ++ [({ sourceId := s.solverId, message := .search } :
        SudokuPacket β)]).map SudokuPacket.message := by
      intro m hm
      rw [List.map_append]
      exact List.mem_append_left _ hm
    apply inv_quiet h
    · rfl
    · exact ⟨rfl,rfl,rfl,rfl,rfl⟩
    · exact fun k b => Iff.rfl
    · rfl
    · exact fun n c hc => hsent _ hc
    · exact fun n c hc => hsent _ hc
    · intro t _ hd
      simp only [Sent, List.map_append, List.mem_append] at hd
      exact Or.inl (hd.resolve_right (by simp))
    · intro p hp
      rcases List.mem_append.mp hp with hp | hp
      · exact Or.inl hp
      · obtain rfl := List.mem_singleton.mp hp
        exact Or.inr trivial
    · exact fun id task ht => Or.inl ht
  · exact h

/-- A helper posts that it is alive and the answers for one board of its backlog. -/
theorem update_posts (boards : SudokuBoards β) (info : SudokuHelperRankInfo β)
    (helperId : EndpointId) :
    (∀ task ∈ (info.update boards helperId).1.boards, task ∈ info.boards) ∧
    ∀ p ∈ (info.update boards helperId).2, p.message = .alive ∨
      ∃ task ∈ info.boards, p ∈ answers boards info.maxRecursion helperId task ∧
        ∀ q ∈ answers boards info.maxRecursion helperId task,
          q ∈ (info.update boards helperId).2 := by
  have halive : ∀ p ∈ (if info.boards.length < 6 then info.searches.entries.map
      (fun e => (⟨helperId,e.1,.alive⟩ : SudokuPacket β)) else []), p.message = .alive := by
    intro p hp
    split_ifs at hp
    · obtain ⟨_,_,rfl⟩ := List.mem_map.mp hp
      rfl
    · cases hp
  rw [update]
  cases hb : info.boards.getLast? with
  | none =>
    exact ⟨fun task ht => ht,fun p hp => Or.inl (halive p hp)⟩
  | some task =>
    simp only
    refine ⟨fun task ht => List.dropLast_subset _ ht,fun p hp => ?_⟩
    rcases List.mem_append.mp hp with hp | hp
    · exact Or.inl (halive p hp)
    · exact Or.inr ⟨task,List.mem_of_getLast? hb,hp,fun q hq => List.mem_append_right _ hq⟩

theorem answers_fit {levels : ℕ} {helperId : EndpointId} {task : HelperBoard β}
    (hid : task.sourceId = s.solverId) (ha : Asked boards s task.sequenceNo task.board) :
    ∀ p ∈ answers boards levels helperId task, Fits en s p := by
  intro p hp
  rcases List.mem_append.mp hp with hp | hp
  · obtain ⟨⟨solved,c⟩,hc,rfl⟩ := List.mem_map.mp hp
    cases solved with
    | true => exact ⟨hid,ha.taken⟩
    | false =>
      obtain ⟨hs,href⟩ :=
        (processBoard_answered en levels task.board ha.unsolved).candidates c hc
      refine ⟨hid,hs,ha.taken,?_⟩
      intro t ht hn
      rw [ha.same t ht hn]
      exact href
  · obtain rfl := List.mem_singleton.mp hp
    exact ⟨hid,ha.taken⟩

/-- What has been answered for the board of a task leaves out none of its fillings. -/
theorem answers_explore {levels : ℕ} {helperId : EndpointId} {task : HelperBoard β}
    {t : SudokuTask κ β} (hb : boards.isSolved task.board = false) (heq : t.board = task.board)
    (hn : t.sequenceNo = task.sequenceNo)
    (hs : ∀ q ∈ answers boards levels helperId task, q ∈ s.flight) : Explored en s t := by
  have hsent : ∀ x ∈ (processBoard boards levels task.board ⟨false,[]⟩).sent,
      s.Sent (responseMessage t.sequenceNo x) := by
    intro x hx
    rw [hn]
    exact List.mem_map.mpr ⟨_,hs _ (List.mem_append_left _ (List.mem_map_of_mem hx)),rfl⟩
  intro F hF
  rw [heq] at hF
  rcases (processBoard_answered en levels task.board hb).covers F hF with
    ⟨c,hc⟩ | ⟨c,hc,hFc⟩
  · exact Or.inl ⟨c,hsent _ hc⟩
  · exact Or.inr ⟨c,hsent _ hc,hFc⟩

theorem inv_helperUpdate (h : Inv en s) (helperId : EndpointId) (henv : env.boards = boards) :
    Inv en (s.helperUpdate env helperId) := by
  subst henv
  obtain ⟨hboards,hposts⟩ := update_posts env.boards (s.helpers helperId) helperId
  have hsent : ∀ m, s.Sent m → (s.helperUpdate env helperId).Sent m := by
    intro m hm
    rw [Sent, helperUpdate, List.map_append]
    exact List.mem_append_left _ hm
  apply inv_quiet h
  · rfl
  · exact sameTasks_refl _
  · exact fun k b => Iff.rfl
  · rfl
  · exact fun n c hc => hsent _ hc
  · exact fun n c hc => hsent _ hc
  · intro t ht hd
    obtain ⟨p,hp,hm⟩ := List.mem_map.mp hd
    rcases List.mem_append.mp hp with hp | hp
    · exact Or.inl (List.mem_map.mpr ⟨p,hp,hm⟩)
    · rcases hposts p hp with halive | ⟨task,htask,hp,hall⟩
      · rw [hm] at halive
        cases halive
      · right
        obtain ⟨_,ha⟩ := h.tied.helpers helperId task htask
        have hn : t.sequenceNo = task.sequenceNo := by
          rcases List.mem_append.mp hp with hp | hp
          · obtain ⟨⟨solved,c⟩,_,rfl⟩ := List.mem_map.mp hp
            cases solved <;> cases hm
          · obtain rfl := List.mem_singleton.mp hp
            exact (SudokuMessage.done.inj hm).symm
        exact answers_explore ha.unsolved (ha.same t (Or.inl ht) hn) hn
          (fun q hq => List.mem_append_right _ (hall q hq))
  · intro p hp
    rcases List.mem_append.mp hp with hp | hp
    · exact Or.inl hp
    · right
      rcases hposts p hp with halive | ⟨task,htask,hp,_⟩
      · rw [Fits, halive]
        trivial
      · obtain ⟨hid,ha⟩ := h.tied.helpers helperId task htask
        exact answers_fit hid ha p hp
  · intro id task ht
    left
    simp only [helperUpdate, onHelper] at ht
    split_ifs at ht with hid
    · subst hid
      exact hboards task ht
    · exact ht

/-! ## Messages that arrive -/

/-- The packet that arrives may go; the others stay. -/
structure Arrives (packet : SudokuPacket β) (s : SudokuSystem κ β)
    (flight : List (SudokuPacket β)) : Prop where
  before : packet ∈ s.flight
  from_before : ∀ p ∈ flight, p ∈ s.flight
  others : ∀ p ∈ s.flight, p ∈ flight ∨ p = packet

variable {packet : SudokuPacket β} {flight : List (SudokuPacket β)}

theorem arrives_eraseIdx {index : ℕ} (hp : s.flight[index]? = some packet) (again : Bool) :
    Arrives packet s (if again then s.flight else s.flight.eraseIdx index) := by
  cases again with
  | true => exact ⟨List.mem_of_getElem? hp,fun p h => h,fun p h => Or.inl h⟩
  | false =>
    refine ⟨List.mem_of_getElem? hp,fun p h => List.mem_of_mem_eraseIdx h,?_⟩
    intro p h
    obtain ⟨i,hi⟩ := List.mem_iff_getElem?.mp h
    by_cases he : i = index
    · subst he
      rw [hp] at hi
      exact Or.inr (Option.some.inj hi).symm
    · exact Or.inl (List.mem_eraseIdx_iff_getElem?.mpr ⟨i,he,hi⟩)

theorem arrives_sent (ha : Arrives packet s flight) {m : SudokuMessage β} (hm : s.Sent m) :
    m ∈ flight.map SudokuPacket.message ∨ m = packet.message := by
  obtain ⟨p,hp,rfl⟩ := List.mem_map.mp hm
  exact (ha.others p hp).imp (fun h => List.mem_map_of_mem h) (fun h => by rw [h])

theorem arrives_from (ha : Arrives packet s flight) {m : SudokuMessage β}
    (hm : m ∈ flight.map SudokuPacket.message) : s.Sent m := by
  obtain ⟨p,hp,rfl⟩ := List.mem_map.mp hm
  exact List.mem_map_of_mem (ha.from_before p hp)

/-- A message that is not an answer goes to a helper or tells of one. -/
theorem inv_noAnswer (h : Inv en s) (ha : Arrives packet s flight)
    (hpacket : packet.message = .search ∨ packet.message = .alive ∨
      ∃ n b, packet.message = .query n b)
    {solver : SudokuSolverRankInfo κ β} {helpers : EndpointId → SudokuHelperRankInfo β}
    (hs : SameTasks s.solver solver) (hkb : solver.keyBoards = s.solver.keyBoards)
    (hhelpers : ∀ id, ∀ task ∈ (helpers id).boards, task ∈ (s.helpers id).boards ∨
      task.sourceId = s.solverId ∧ Asked boards s task.sequenceNo task.board) :
    Inv en { s with
      solver := solver
      helpers := helpers
      flight := flight } := by
  have hother : ∀ m, s.Sent m → m ≠ packet.message → m ∈ flight.map SudokuPacket.message :=
    fun m hm hne => (arrives_sent ha hm).resolve_right hne
  apply inv_quiet h
  · rfl
  · exact hs
  · intro k b
    show (∃ queue, solver.keyBoards.find? k = some queue ∧ b ∈ queue) ↔ _
    rw [hkb, Queued]
  · rfl
  · intro n c hc
    apply hother _ hc
    rcases hpacket with he | he | ⟨_,_,he⟩ <;> simp [he]
  · intro n c hc
    apply hother _ hc
    rcases hpacket with he | he | ⟨_,_,he⟩ <;> simp [he]
  · exact fun t _ hd => Or.inl (arrives_from ha hd)
  · exact fun p hp => Or.inl (ha.from_before p hp)
  · exact hhelpers

/-- A message that no task takes. -/
theorem inv_untaken (h : Inv en s) (ha : Arrives packet s flight)
    (hcandidate : ∀ t c, s.solver.Open t → packet.message ≠ .candidate t.sequenceNo c)
    (hsolved : ∀ t c, s.solver.Open t → packet.message ≠ .solved t.sequenceNo c) :
    Inv en { s with flight := flight } := by
  have hother : ∀ m, s.Sent m → packet.message ≠ m → m ∈ flight.map SudokuPacket.message :=
    fun m hm hne => (arrives_sent ha hm).resolve_right (Ne.symm hne)
  have hl : Later boards none s { s with flight := flight } :=
    later_same h.tied (sameTasks_refl _) rfl
  apply inv_kept none h
  · apply tied_later h.tied hl
    · exact fun k b hkb => Or.inl hkb
    · exact fun p hp => Or.inl (ha.from_before p hp)
    · exact fun id task ht => Or.inl ht
  · constructor
    case reported => exact fun k hk => hk
    case queued => exact fun k b hkb _ => Or.inl hkb
    case pending => exact fun t ht _ => Or.inl ht
    case remaining => exact fun t ht _ => ht
    case candidate => exact fun t c ho hc _ => Or.inl (hother _ hc (hcandidate t c ho))
    case solved => exact fun t c ho hc _ => hother _ hc (hsolved t c ho)
    case done => exact fun t ht hd => Or.inl ⟨ht,arrives_from ha hd⟩
    case enqueued => exact fun e he => Or.inl he
  · simp

theorem inv_candidate (h : Inv en s) (ha : Arrives packet s flight) {n : MessageSequence} {c : β}
    (hm : packet.message = .candidate n c) :
    Inv en { s with
      solver := s.solver.handleResponse env now false n c
      flight := flight } := by
  have hfits := h.tied.flight packet ha.before
  rw [Fits, hm] at hfits
  rcases handleResponse_candidate env now s.solver n c with ⟨hnone,heq⟩ | ⟨t,ho,hn,hs,hq⟩
  · rw [heq]
    apply inv_untaken h ha
    · rintro t d ho he
      rw [hm] at he
      exact hnone t ho (SudokuMessage.candidate.inj he).1.symm
    · rintro t d ho he
      rw [hm] at he
      cases he
  · have hl : Later boards none s { s with
        solver := s.solver.handleResponse env now false n c
        flight := flight } := later_same h.tied hs rfl
    apply inv_kept none h
    · apply tied_later h.tied hl
      · intro k b hkb
        rcases (hq k b).mp hkb with hkb | ⟨_,rfl⟩
        · exact Or.inl hkb
        · exact Or.inr hfits.2.unsolved
      · exact fun p hp => Or.inl (ha.from_before p hp)
      · exact fun id task ht => Or.inl ht
    · constructor
      case reported => exact fun k hk => (reported_solutions hs.solutions k).mpr hk
      case queued => exact fun k b hkb _ => Or.inl ((hq k b).mpr (Or.inl hkb))
      case pending => exact fun t ht _ => Or.inl ((pending_same hs t).mpr ht)
      case remaining => exact fun t ht _ => (remaining_same hs t).mpr ht
      case candidate =>
        intro u d hu hd _
        rcases arrives_sent ha hd with hd | hd
        · exact Or.inl hd
        · rw [hm] at hd
          obtain ⟨hun,rfl⟩ := SudokuMessage.candidate.inj hd
          obtain rfl := h.tied.unique u t hu ho (hun.trans hn.symm)
          exact Or.inr ((hq _ _).mpr (Or.inr ⟨rfl,rfl⟩))
      case solved =>
        intro u d _ hd _
        exact (arrives_sent ha hd).resolve_right (by simp [hm])
      case done => exact fun u hu hd => Or.inl ⟨(pending_same hs u).mp hu,arrives_from ha hd⟩
      case enqueued => exact fun e he => Or.inl he
    · simp

theorem inv_solved (h : Inv en s) (ha : Arrives packet s flight) {n : MessageSequence} {c : β}
    (hm : packet.message = .solved n c) :
    Inv en { s with
      solver := s.solver.handleResponse env now true n c
      flight := flight } := by
  rcases handleResponse_solved env now s.solver n c with ⟨hnone,heq⟩ | ⟨t,ho,hn,hr⟩
  · rw [heq]
    apply inv_untaken h ha
    · rintro t d ho he
      rw [hm] at he
      cases he
    · rintro t d ho he
      rw [hm] at he
      exact hnone t ho (SudokuMessage.solved.inj he).1.symm
  · have hl : Later boards none s { s with
        solver := s.solver.handleResponse env now true n c
        flight := flight } :=
      later_of_sequence h.tied rfl hr.sequence hr.turns
        (fun u hu => hu.imp (hr.pending u).mp (hr.remaining_from u))
    have hother : ∀ k, ¬(s.solver.handleResponse env now true n c).Reported k → k ≠ t.key :=
      fun k hk he => hk ((hr.reported k).mpr (Or.inr he))
    apply inv_kept none h
    · apply tied_later h.tied hl
      · exact fun k b hkb => Or.inl ((hr.queued k b).mp hkb).1
      · exact fun p hp => Or.inl (ha.from_before p hp)
      · exact fun id task ht => Or.inl ht
    · constructor
      case reported => exact fun k hk => (hr.reported k).mpr (Or.inl hk)
      case queued => exact fun k b hkb hk => Or.inl ((hr.queued k b).mpr ⟨hkb,hother k hk⟩)
      case pending => exact fun u hu _ => Or.inl ((hr.pending u).mpr hu)
      case remaining => exact fun u hu hk => hr.remaining u hu (hother u.key hk)
      case candidate =>
        intro u d _ hd _
        exact Or.inl ((arrives_sent ha hd).resolve_right (by simp [hm]))
      case solved =>
        intro u d hu hd hk
        rcases arrives_sent ha hd with hd | hd
        · exact hd
        · rw [hm] at hd
          obtain ⟨hun,_⟩ := SudokuMessage.solved.inj hd
          obtain rfl := h.tied.unique u t hu ho (hun.trans hn.symm)
          exact absurd rfl (hother u.key hk)
      case done => exact fun u hu hd => Or.inl ⟨(hr.pending u).mp hu,arrives_from ha hd⟩
      case enqueued => exact fun e he => Or.inl he
    · simp

/-- The task that a helper is done with remains. -/
theorem inv_done (h : Inv en s) (ha : Arrives packet s flight) {n : MessageSequence}
    (hm : packet.message = .done n) (hd : s.Knows alreadyDone) :
    Inv en { s with
      solver := s.solver.pendingDone alreadyDone n
      flight := flight } := by
  rcases pendingDone_spec alreadyDone s.solver n with heq | ⟨t,ht,hn,hc⟩
  · rw [heq]
    apply inv_untaken h ha
    · rintro t d _ he
      rw [hm] at he
      cases he
    · rintro t d _ he
      rw [hm] at he
      cases he
  · have hreported := reported_solutions hc.solutions
    have hlive : ∀ k, ¬(s.solver.pendingDone alreadyDone n).Reported k →
        alreadyDone k = false := by
      intro k hk
      cases hdk : alreadyDone k with
      | false => rfl
      | true => exact absurd ((hreported k).mpr (hd k hdk)) hk
    have hopen : ∀ u, (s.solver.pendingDone alreadyDone n).Open u → s.solver.Open u := by
      intro u hu
      rcases hu with hu | hu
      · exact Or.inl (hc.pending_from u hu)
      · rcases hc.remaining_from u hu with hu | rfl
        · exact Or.inr hu
        · exact Or.inl ht
    have hl : Later boards none s { s with
        solver := s.solver.pendingDone alreadyDone n
        flight := flight } := later_of_sequence h.tied rfl hc.sequence hc.turns hopen
    apply inv_kept (some t) h
    · apply tied_later h.tied hl
      · exact fun k b hkb => Or.inl ((hc.queued k b).mp hkb)
      · exact fun p hp => Or.inl (ha.from_before p hp)
      · exact fun id task ht => Or.inl ht
    · constructor
      case reported => exact fun k hk => (hreported k).mpr hk
      case queued => exact fun k b hkb _ => Or.inl ((hc.queued k b).mpr hkb)
      case pending =>
        intro u hu hk
        rcases hc.pending u hu with rfl | hp
        · exact Or.inr (Or.inr ⟨rfl,hc.closed (hlive u.key hk)⟩)
        · exact Or.inl hp
      case remaining => exact fun u hu hk => hc.remaining u hu (hlive u.key hk)
      case candidate =>
        intro u d _ hs _
        exact Or.inl ((arrives_sent ha hs).resolve_right (by simp [hm]))
      case solved =>
        intro u d _ hs _
        exact (arrives_sent ha hs).resolve_right (by simp [hm])
      case done => exact fun u hu hs => Or.inl ⟨hc.pending_from u hu,arrives_from ha hs⟩
      case enqueued => exact fun e he => Or.inl he
    · intro u hu
      obtain rfl := Option.some.inj hu
      refine ⟨ht,?_⟩
      rw [hn, ← hm]
      exact List.mem_map_of_mem ha.before

/-- What is for a receiver other than the solver is no answer. -/
theorem inv_receive (h : Inv en s) (ha : Arrives packet s flight) (hd : s.Knows alreadyDone)
    {receiverId : EndpointId} (hfor : isFor packet receiverId = true) :
    Inv en (receive env now alreadyDone { s with flight := flight } receiverId packet) := by
  have hfits := h.tied.flight packet ha.before
  have hself : ∀ {m : SudokuMessage β}, packet.message = m → m ≠ .search →
      packet.targetId = receiverId := by
    intro m hm hne
    rw [isFor, hm] at hfor
    cases m with
    | search => exact absurd rfl hne
    | alive => exact of_decide_eq_true hfor
    | query n b => exact of_decide_eq_true hfor
    | candidate n c => exact of_decide_eq_true hfor
    | solved n c => exact of_decide_eq_true hfor
    | done n => exact of_decide_eq_true hfor
  rw [receive]
  cases hm : packet.message with
  | search =>
    apply inv_noAnswer h ha (Or.inl hm) (sameTasks_refl _) rfl
    intro id task ht
    left
    split_ifs at ht with hid
    · exact ht
    · exact ht
  | query n b =>
    rw [Fits, hm] at hfits
    apply inv_noAnswer h ha (Or.inr (Or.inr ⟨n,b,hm⟩)) (sameTasks_refl _) rfl
    intro id task ht
    split_ifs at ht with hid
    · simp only [SudokuHelperRankInfo.addBoard] at ht
      split_ifs at ht
      · rcases List.mem_append.mp ht with ht | ht
        · exact Or.inl ht
        · obtain rfl := List.mem_singleton.mp ht
          exact Or.inr hfits
      · exact Or.inl ht
    · exact Or.inl ht
  | alive =>
    have hothers : ∀ id, ∀ task ∈ (s.helpers id).boards, task ∈ (s.helpers id).boards ∨
        task.sourceId = s.solverId ∧ Asked boards s task.sequenceNo task.board :=
      fun id task ht => Or.inl ht
    simp only
    split_ifs
    · exact inv_noAnswer h ha (Or.inr (Or.inl hm)) ⟨rfl,rfl,rfl,rfl,rfl⟩ rfl hothers
    · exact inv_noAnswer h ha (Or.inr (Or.inl hm)) (sameTasks_refl _) rfl hothers
  | candidate n c =>
    rw [Fits, hm] at hfits
    have hid : receiverId = s.solverId := (hself hm (by simp)).symm.trans hfits.1
    simp only [hid, if_true]
    exact inv_candidate now h ha hm
  | solved n c =>
    rw [Fits, hm] at hfits
    have hid : receiverId = s.solverId := (hself hm (by simp)).symm.trans hfits.1
    simp only [hid, if_true]
    exact inv_solved now h ha hm
  | done n =>
    rw [Fits, hm] at hfits
    have hid : receiverId = s.solverId := (hself hm (by simp)).symm.trans hfits.1
    simp only [hid, if_true]
    exact inv_done h ha hm hd

theorem inv_deliver (h : Inv en s) (hd : s.Knows alreadyDone) (index : ℕ)
    (receiverId : EndpointId) (again : Bool) :
    Inv en (s.deliver env now alreadyDone index receiverId again) := by
  rw [deliver]
  cases hp : s.flight[index]? with
  | none => exact h
  | some packet =>
    simp only
    split_ifs with hfor
    · exact inv_receive now h (arrives_eraseIdx hp true) hd hfor
    · exact inv_receive now h (arrives_eraseIdx hp false) hd hfor
    · exact h

theorem inv_solverUpdate (h : Inv en s) (hd : s.Knows alreadyDone)
    {canWork shouldSendBoards : Bool} {order : List EndpointId}
    (hturns : (s.solverUpdate env now alreadyDone canWork shouldSendBoards order).solver.turns <
      sequenceCount) :
    Inv en (s.solverUpdate env now alreadyDone canWork shouldSendBoards order) := by
  have ht : Inv en (s.onSolver (fun solver => solver.handleTimeouted env now alreadyDone)) :=
    inv_timeouted now h hd
  rw [solverUpdate] at hturns ⊢
  cases canWork with
  | false => exact ht
  | true =>
    cases shouldSendBoards with
    | false => exact inv_searchHelpers now ht
    | true =>
      apply inv_searchHelpers now
      apply inv_sendBoardsTo now _ ht
      rw [← searchHelpers_turns now]
      exact hturns

/-! ## Runs -/

/-- A search begins with nothing enqueued, nothing asked and no backlog. -/
def initial (solverId : EndpointId) (maxRecursion : EndpointId → ℕ) : SudokuSystem κ β :=
  { solverId, helpers := fun id => { maxRecursion := maxRecursion id } }

/-- Boards that are enqueued are not solved, the driver says of no key without a
reported solution that it is done, and the numbers do not run out. -/
def Admitted (env : SudokuEnv β) (s : SudokuSystem κ β) (e : SudokuEvent κ β) : Prop :=
  (match e with
    | .enqueue _ _ board => env.boards.isSolved board = false
    | .solverUpdate _ alreadyDone _ _ _ => s.Knows alreadyDone
    | .helperUpdate _ => True
    | .deliver _ alreadyDone _ _ _ => s.Knows alreadyDone) ∧
  (s.step env e).solver.turns < sequenceCount

theorem inv_step {env : SudokuEnv β} {en : Enumeration env.boards φ} {s : SudokuSystem κ β}
    {e : SudokuEvent κ β} (h : Inv en s) (ha : Admitted env s e) : Inv en (s.step env e) := by
  obtain ⟨hok,hturns⟩ := ha
  cases e with
  | enqueue now key board => exact inv_enqueue now h key hok
  | solverUpdate now alreadyDone canWork shouldSendBoards order =>
    exact inv_solverUpdate now h hok hturns
  | helperUpdate helperId => exact inv_helperUpdate h helperId rfl
  | deliver now alreadyDone index receiverId again =>
    exact inv_deliver now h hok index receiverId again

theorem inv_initial (en : Enumeration boards φ) (solverId : EndpointId)
    (maxRecursion : EndpointId → ℕ) :
    Inv en (initial solverId maxRecursion : SudokuSystem κ β) := by
  have hnone : ∀ t, ¬(initial solverId maxRecursion : SudokuSystem κ β).solver.Open t := by
    rintro t (ht | ht)
    · cases ht
    · cases ht
  constructor
  case tied =>
    constructor
    case turns => rfl
    case issued => exact fun t ht => absurd ht (hnone t)
    case unique => exact fun t u ht => absurd ht (hnone t)
    case unsolved => exact fun t ht => absurd ht (hnone t)
    case queued =>
      rintro k b ⟨queue,hq,_⟩
      cases hq
    case flight => exact fun p hp => by cases hp
    case helpers => exact fun id task ht => by cases ht
  case covers => exact fun e he => by cases he
  case finished => exact fun t ht => absurd (Or.inl ht) (hnone t)

/-- Whatever the helpers drop and in whatever order messages arrive, early, late
or again: the fillings of an enqueued board stay below a board that is queued, a
pending task, a candidate on its way or the task of a solution on its way. -/
theorem search_covers (env : SudokuEnv β) (en : Enumeration env.boards φ) (solverId : EndpointId)
    (maxRecursion : EndpointId → ℕ) (es : List (SudokuEvent κ β))
    (h : StepRun.Steps (step env) (Admitted env) (initial solverId maxRecursion) es) :
    StepRun.Always (step env) (Covers en) (initial solverId maxRecursion) es :=
  StepRun.always_mono (fun _ hs => hs.covers)
    (StepRun.always_of_invariant (fun _ _ => inv_step) (inv_initial en solverId maxRecursion) h)

/-! ## A helper that has found a solution -/

variable (en) in
/-- The filling extends a board of the key that is queued or pending, or the
board of a candidate or of a solution on its way. -/
def Located (s : SudokuSystem κ β) (key : κ) (F : φ) : Prop :=
  (∃ b, s.solver.Queued key b ∧ en.Extends F b) ∨
  (∃ t, s.solver.Pending t ∧ t.key = key ∧ en.Extends F t.board) ∨
  ∃ n b, (s.Sent (.candidate n b) ∨ s.Sent (.solved n b)) ∧ en.Extends F b

variable (en) in
def Locates (s : SudokuSystem κ β) : Prop :=
  ∀ e ∈ s.enqueued, ¬s.solver.Reported e.1 → ∀ F, en.Extends F e.2 → Located en s e.1 F

section Rectangle

/-- Two values can be exchanged in the four empty cells. -/
def rectangle : SudokuGrid :=
  [0,3,4,0,5,6,7,8,9,
   0,5,7,0,8,9,3,4,6,
   6,8,9,3,4,7,1,2,5,
   3,1,2,4,6,5,8,9,7,
   4,6,8,7,9,1,2,5,3,
   7,9,5,8,2,3,4,6,1,
   5,2,1,6,3,4,9,7,8,
   8,7,6,9,1,2,5,3,4,
   9,4,3,5,7,8,6,1,2]

def rectangleFilled (a b : ℕ) : SudokuGrid :=
  (((rectangle.set 0 a).set 3 b).set 9 b).set 12 a

def rectangleEnv : SudokuEnv SudokuGrid := ⟨SudokuGrid.gridBoards 3,1000⟩

def nothingDone (_ : ℕ) : Bool := false

/-- The helper takes up the board, and the solver hears that it is done before
it hears of the solution. -/
def rectangleRun : List (SudokuEvent ℕ SudokuGrid) :=
  [.enqueue 0 0 rectangle,
   .solverUpdate 0 nothingDone true true [],
   .deliver 0 nothingDone 0 2 false,
   .helperUpdate 2,
   .deliver 0 nothingDone 0 1 false,
   .solverUpdate 0 nothingDone true true [2],
   .deliver 0 nothingDone 0 2 false,
   .helperUpdate 2,
   .deliver 0 nothingDone 2 1 false]

theorem knows_nothing (s : SudokuSystem ℕ SudokuGrid) : s.Knows nothingDone := by
  intro key h
  cases h

theorem rectangle_admitted : StepRun.Steps (step rectangleEnv) (Admitted rectangleEnv)
    (initial 1 (fun _ => 3)) rectangleRun := by
  refine ⟨⟨?_,?_⟩,⟨?_,?_⟩,⟨?_,?_⟩,⟨trivial,?_⟩,⟨?_,?_⟩,⟨?_,?_⟩,⟨?_,?_⟩,⟨trivial,?_⟩,⟨?_,?_⟩,
    trivial⟩
  all_goals first
    | exact knows_nothing _
    | decide +kernel

theorem search_covers_rectangle : StepRun.Always (step rectangleEnv)
    (Covers (SudokuGrid.gridEnumeration 3)) (initial 1 (fun _ => 3)) rectangleRun :=
  search_covers rectangleEnv (SudokuGrid.gridEnumeration 3) 1 (fun _ => 3) rectangleRun
    rectangle_admitted

/-- With three levels the helper passes over the second filling once it has sent
the first one. -/
theorem search_passes_over : StepRun.Steps (step rectangleEnv) (Admitted rectangleEnv)
      (initial 1 (fun _ => 3)) rectangleRun ∧
    ¬StepRun.Always (step rectangleEnv) (Locates (SudokuGrid.gridEnumeration 3))
      (initial 1 (fun _ => 3)) rectangleRun := by
  refine ⟨rectangle_admitted,?_⟩
  intro h
  have hlast := StepRun.always_last h (0,rectangle) (by decide +kernel)
    (show ¬_ ∈ List.map _ _ by decide +kernel) (rectangleFilled 2 1)
    (show SudokuGrid.Extends 3 _ _ by decide +kernel)
  have hqueue : (StepRun.run (step rectangleEnv) (initial 1 (fun _ => 3))
      rectangleRun).solver.keyBoards.find? 0 = some [] := by decide +kernel
  have hpending : (StepRun.run (step rectangleEnv) (initial 1 (fun _ => 3))
      rectangleRun).solver.pending.map PendingInfo.task = [] := by decide +kernel
  have hflight : (StepRun.run (step rectangleEnv) (initial 1 (fun _ => 3))
      rectangleRun).flight.map SudokuPacket.message = [.alive,.solved 1 (rectangleFilled 1 2)] := by
    decide +kernel
  rcases hlast with ⟨b,⟨queue,hq,hb⟩,_⟩ | ⟨t,ht,_⟩ | ⟨n,b,hs,hF⟩
  · rw [hqueue] at hq
    obtain rfl := Option.some.inj hq
    cases hb
  · rw [Pending, hpending] at ht
    cases ht
  · rw [Sent, Sent, hflight] at hs
    obtain ⟨_,rfl⟩ : n = 1 ∧ b = rectangleFilled 1 2 := by simpa using hs
    have hcell := hF.agrees 0 1 rfl (by decide)
    cases hcell

end Rectangle

end MsgBus.SudokuSystem
