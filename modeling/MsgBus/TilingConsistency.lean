import MsgBus.Lib.StepRun
import MsgBus.TilingSides

/-!
# Adjacent tiles

Tiles are stored in the order in which their solutions come. Each of them but
the first one was enqueued with the borders of the stored tiles that are nearer
to the origin, and what is stored is never replaced.
-/

set_option autoImplicit false

namespace MsgBus.SudokuTiling

variable {β γ : Type} {S : ℕ}

/-- Two tiles agree on the edge that they share, but for blocks that are left open. -/
def Agree (S : ℕ) (blocks : SudokuBlocks β γ) (s : SudokuTiling β) (c : ℤ × ℤ) (side : Side) :
    Prop :=
  ∀ a b, s.Stored c a → s.Stored (side.neighbor c) b → ∀ i < S,
    ¬LeftOpen S c (side.block S i) →
    ¬LeftOpen S (side.neighbor c) (side.opposite.block S i) →
    blocks.getBlock a (side.block S i) = blocks.getBlock b (side.opposite.block S i)

def Consistent (S : ℕ) (blocks : SudokuBlocks β γ) (s : SudokuTiling β) : Prop :=
  ∀ c side, Agree S blocks s c side

/-- What is stored is not replaced by the step. -/
def Keeps (S : ℕ) (env : TilingEnv β γ) (s : SudokuTiling β) (e : TilingEvent β) : Prop :=
  ∀ c a, s.Stored c a → (s.step S env e).Stored c a

/-- A solution extends a board that was enqueued for its tile. -/
def Admitted {blocks : SudokuBlocks β γ} (sol : BlockSolutions S blocks) (s : SudokuTiling β) :
    TilingEvent β → Prop
  | .update _ _ _ _ => True
  | .receive _ packet =>
    match packet.message with
    | .solved n board => ∀ entry ∈ s.system.solver.answered n,
      ∃ e ∈ s.system.enqueued, e.1 = entry.key ∧ sol.Extends board e.2
    | _ => True

/-- The board has the borders of stored neighbours. -/
structure Built (S : ℕ) (blocks : SudokuBlocks β γ) (s : SudokuTiling β) (c : ℤ × ℤ) (b : β) :
    Prop where
  off : c ≠ 0
  copies : ∀ side : Side, side.Inward c →
    ∃ source, s.Stored (side.neighbor c) source ∧ Copies S blocks c side b source

structure Inv {blocks : SudokuBlocks β γ} (sol : BlockSolutions S blocks) (first : ℤ × ℤ)
    (s : SudokuTiling β) : Prop where
  solved : ∀ c a, s.Stored c a → ∃ b, s.Enqueued c b ∧ sol.Extends a b
  enqueued : ∀ c b, s.Enqueued c b → c = first ∨ Built S blocks s c b
  far : ∀ c a, s.Stored c a → distance first ≤ distance c

section Blocks

variable {blocks : SudokuBlocks β γ} {sol : BlockSolutions S blocks} {first : ℤ × ℤ}
  {s s' : SudokuTiling β}

theorem built_kept {c : ℤ × ℤ} {b : β} (hkeep : ∀ c a, s.Stored c a → s'.Stored c a)
    (h : Built S blocks s c b) : Built S blocks s' c b := by
  refine ⟨h.off,?_⟩
  intro side hin
  obtain ⟨source,hsource,hcopies⟩ := h.copies side hin
  exact ⟨source,hkeep _ _ hsource,hcopies⟩

/-- The tile farther from the origin has taken its border from the other one. -/
theorem inv_agree_inward (h : Inv sol first s) {c : ℤ × ℤ} {side : Side} (hin : side.Inward c) :
    Agree S blocks s c side := by
  intro a b ha hb i hi hopen _
  obtain ⟨e,he,hext⟩ := h.solved c a ha
  obtain ⟨f,-,hextf⟩ := h.solved _ b hb
  rcases h.enqueued c e he with rfl | hbuilt
  · have hfar := h.far _ b hb
    have hdist := distance_inward hin
    omega
  · obtain ⟨source,hsource,hcopies⟩ := hbuilt.copies side hin
    obtain rfl : source = b := Option.some.inj (hsource.symm.trans hb)
    have hget := hcopies i hi hopen
    have hcomplete := sol.extends_complete source f _ hextf (side.opposite.block_inBoard hi)
    rw [← hget] at hcomplete
    rw [sol.extends_get a e _ hext (side.block_inBoard hi) hcomplete, hget]

theorem inv_consistent (h : Inv sol first s) : Consistent S blocks s := by
  intro c side
  rcases side.inward_or c with hin | hin
  · exact inv_agree_inward h hin
  · intro a b ha hb i hi hopen hopen'
    have hagree := inv_agree_inward h hin
    rw [Agree, side.neighbor_opposite, side.opposite_opposite] at hagree
    exact (hagree b a hb ha i hi hopen' hopen).symm

/-- Nothing is stored and nothing enqueued. -/
theorem inv_same (h : Inv sol first s) (hinfo : s'.info = s.info)
    (henqueued : s'.system.enqueued = s.system.enqueued) : Inv sol first s' := by
  have hstored := stored_same hinfo
  have henq := enqueued_same henqueued
  constructor
  case solved =>
    intro c a ha
    simpa only [henq] using h.solved c a ((hstored c a).mp ha)
  case enqueued =>
    intro c b hb
    exact (h.enqueued c b ((henq c b).mp hb)).imp id
      (built_kept (fun c a ha => (hstored c a).mpr ha))
  case far => exact fun c a ha => h.far c a ((hstored c a).mp ha)

theorem inv_store (h : Inv sol first s) {solved : SolvedSudokuBoard Coord β} {b : β}
    (hb : (solved.key,b) ∈ s.system.enqueued) (hext : sol.Extends solved.board b) :
    Inv sol first (s.store S solved) := by
  have hkeep (c : ℤ × ℤ) (a : β) (ha : s.Stored c a) : (s.store S solved).Stored c a :=
    (stored_store solved).mpr (Or.inl ha)
  have henq (c : ℤ × ℤ) (b : β) : (s.store S solved).Enqueued c b ↔ s.Enqueued c b :=
    enqueued_same (by rw [system_store]) c b
  constructor
  case solved =>
    intro c a ha
    simp only [henq]
    rcases (stored_store solved).mp ha with ha | ⟨hkey,rfl,-⟩
    · exact h.solved c a ha
    · exact ⟨b,by rw [Enqueued, hkey]; exact hb,hext⟩
  case enqueued =>
    intro c b hb
    exact (h.enqueued c b ((henq c b).mp hb)).imp id (built_kept hkeep)
  case far =>
    intro c a ha
    rcases (stored_store solved).mp ha with ha | ⟨hkey,-,-⟩
    · exact h.far c a ha
    · have hc : s.Enqueued c b := by
        rw [Enqueued, hkey]
        exact hb
      rcases h.enqueued c b hc with rfl | hbuilt
      · exact Nat.le_refl _
      · obtain ⟨side,hin⟩ := inward_exists hbuilt.off
        obtain ⟨source,hsource,-⟩ := hbuilt.copies side hin
        have hfar := h.far _ source hsource
        have hdist := distance_inward hin
        omega

end Blocks

section Steps

variable {env : TilingEnv β γ} {sol : BlockSolutions S env.blocks} {first : ℤ × ℤ}
  {s : SudokuTiling β} (now : ℕ)

/-- The copied blocks are complete, so they stay when the alternatives are found. -/
theorem copies_calculate (h : Inv sol first s) {c : ℤ × ℤ} {side : Side} {board source : β}
    (hsource : s.Stored (side.neighbor c) source)
    (hcopies : Copies S env.blocks c side board source) :
    Copies S env.blocks c side (env.blocks.calculateAlternatives board) source := by
  intro i hi hopen
  obtain ⟨e,-,hext⟩ := h.solved _ source hsource
  have hcomplete := sol.extends_complete source e _ hext (side.opposite.block_inBoard hi)
  rw [← hcopies i hi hopen] at hcomplete ⊢
  exact sol.calculate_get board _ (side.block_inBoard hi) hcomplete

theorem inv_enqueueTile (h : Inv sol first s) (c : ℤ × ℤ) :
    Inv sol first (s.enqueueTile S env now c) := by
  have hstored (d : ℤ × ℤ) (a : β) :
      (s.enqueueTile S env now c).Stored d a ↔ s.Stored d a :=
    stored_same (info_enqueueTile env now s c) d a
  constructor
  case solved =>
    intro d a ha
    obtain ⟨b,hb,hext⟩ := h.solved d a ((hstored d a).mp ha)
    exact ⟨b,enqueued_kept env now hb,hext⟩
  case enqueued =>
    intro d b hb
    have hkeep (d : ℤ × ℤ) (a : β) (ha : s.Stored d a) := (hstored d a).mpr ha
    rcases enqueued_enqueueTile env now hb with hb | ⟨rfl,board,hboard,rfl⟩
    · exact (h.enqueued d b hb).imp id (built_kept hkeep)
    · right
      refine ⟨tileBoard_off hboard,?_⟩
      intro side hin
      obtain ⟨source,hsource,hcopies⟩ := tileBoard_copies sol hboard hin
      exact ⟨source,hkeep _ _ hsource,copies_calculate h hsource hcopies⟩
  case far => exact fun d a ha => h.far d a ((hstored d a).mp ha)

theorem inv_handleSolved (h : Inv sol first s) {solved : SolvedSudokuBoard Coord β} {b : β}
    (hb : (solved.key,b) ∈ s.system.enqueued) (hext : sol.Extends solved.board b) :
    Inv sol first (s.handleSolved S env now solved) :=
  enqueueIncomplete_keeps env now (inv_store h hb hext)
    (fun _ c h => inv_enqueueTile now h c)

theorem inv_step (h : Inv sol first s) {e : TilingEvent β} (ha : Admitted sol s e) :
    Inv sol first (s.step S env e) := by
  cases e with
  | update now canWork shouldSendBoards order =>
    exact inv_same h rfl (enqueued_update env now canWork shouldSendBoards order s)
  | receive now packet =>
    let system := s.system.receive env.toSudokuEnv now s.alreadyDone s.system.solverId packet
    have henqueued : system.enqueued = s.system.enqueued := enqueued_receive env now _ _ packet _
    have hsystem : Inv sol first { s with system } := inv_same h rfl henqueued
    show Inv sol first ((system.solver.solutions.drop s.system.solver.solutions.length).foldl
      (handleSolved S env now) { s with system })
    rcases signalled_cases env now s.alreadyDone packet s.system with
      ⟨-,hnone⟩ | ⟨n,entry,solved,hpacket,hentry,hkey,hone⟩
    · rw [show system.solver.solutions.drop _ = [] from hnone]
      exact hsystem
    · rw [show system.solver.solutions.drop _ = [solved] from hone]
      rw [Admitted, hpacket] at ha
      obtain ⟨⟨key,b⟩,hmem,rfl,hext⟩ := ha entry hentry
      have hb : (solved.key,b) ∈ system.enqueued := by
        rw [henqueued, hkey]
        exact hmem
      exact inv_handleSolved now hsystem hb hext

theorem keeps_step (s : SudokuTiling β) (e : TilingEvent β) : Keeps S env s e := by
  intro c a ha
  cases e with
  | update now canWork shouldSendBoards order => exact ha
  | receive now packet =>
    rw [step, receive]
    generalize List.drop _ _ = sols
    generalize hs : ({ s with system := _ } : SudokuTiling β) = s'
    have ha : s'.Stored c a := by rw [← hs]; exact ha
    clear hs
    induction sols generalizing s' with
    | nil => exact ha
    | cons solved sols ih =>
      apply ih
      rw [handleSolved, Stored, info_enqueueIncomplete]
      exact (stored_store solved).mpr (Or.inl ha)

end Steps

section Runs

variable (env : TilingEnv β γ) (sol : BlockSolutions S env.blocks) (now : ℕ)
  (s : SudokuTiling β) (min max : Coord) (x y : ℤ) (board : β)

theorem inv_start : Inv sol (x,y) (s.start env now min max (coord x y) board) := by
  have hnone (c : ℤ × ℤ) (a : β) :
      ¬(s.start env now min max (coord x y) board).Stored c a := by
    intro ha
    cases ha
  constructor
  case solved => exact fun c a ha => absurd ha (hnone c a)
  case enqueued =>
    intro c b hb
    left
    have hmem : (toLex c,b) ∈ [(coord x y,board)] := hb
    exact toLex.injective (Prod.mk.inj (List.mem_singleton.mp hmem)).1
  case far => exact fun c a ha => absurd ha (hnone c a)

/-- Whatever tile is the first one and in whatever order solutions come, late
or again: adjacent tiles agree on their edge and what is stored stays. -/
theorem tiling_consistent (es : List (TilingEvent β))
    (h : StepRun.Steps (step S env) (Admitted sol)
      (s.start env now min max (coord x y) board) es) :
    StepRun.Always (step S env) (Consistent S env.blocks)
        (s.start env now min max (coord x y) board) es ∧
      StepRun.Steps (step S env) (Keeps S env)
        (s.start env now min max (coord x y) board) es := by
  have hinv := inv_start env sol now s min max x y board
  have hstep (s : SudokuTiling β) (e : TilingEvent β) (hs : Inv sol (x,y) s)
      (ha : Admitted sol s e) : Inv sol (x,y) (s.step S env e) := inv_step hs ha
  constructor
  · exact StepRun.always_mono (fun _ hs => inv_consistent hs)
      (StepRun.always_of_invariant hstep hinv h)
  · exact StepRun.steps_of_invariant hstep (fun s e _ _ => keeps_step s e) hinv h

end Runs

section Grids

open SudokuGrid

/-- Grids whose alternatives nobody asks for. -/
def gridEnv (S : ℕ) : TilingEnv (Cells S) (BlockCells S) where
  boards := {
    isSolved := fun b => (List.ofFn b).all (· ≠ 0)
    alternativeCount := fun b => alternativeCount S (List.ofFn b)
    alternatives := fun _ => [] }
  defaultSolutionTimeout := 1000
  blocks := gridBlocks S

/-- A complete grid; the shift moves its columns. -/
def shifted (S shift : ℕ) : Cells S := fun i =>
  (i/(S*S)*S+i/(S*S)/S+(i%(S*S)+shift)%(S*S))%(S*S)+1

/-- Two tiles on the axis are solved one after the other, the first one again. -/
def gridRun : List (TilingEvent (Cells 2)) :=
  [.receive 0 ⟨2,1,.alive⟩,
   .update 1 true true [2],
   .receive 2 ⟨2,1,.solved 1 (shifted 2 0)⟩,
   .receive 3 ⟨2,1,.solved 1 (shifted 2 0)⟩,
   .receive 4 ⟨2,1,.done 1⟩,
   .update 5 true true [2],
   .receive 6 ⟨2,1,.solved 2 (shifted 2 2)⟩]

def gridStart : SudokuTiling (Cells 2) :=
  start (gridEnv 2) 0 { system := SudokuSystem.initial 1 (fun _ => 3) } (coord 0 0) (coord 4 2)
    (coord 0 0) (fun _ => 0)

instance (b c : Cells 2) : Decidable ((gridSolutions 2).Extends b c) :=
  inferInstanceAs (Decidable (SudokuGrid.Extends 2 (List.ofFn b) (List.ofFn c)))

theorem gridRun_admitted : StepRun.Steps (step 2 (gridEnv 2)) (Admitted (gridSolutions 2))
    gridStart gridRun := by
  refine ⟨trivial,trivial,?_,?_,trivial,trivial,?_,trivial⟩
  · simp only [Admitted]
    decide +kernel
  · simp only [Admitted]
    decide +kernel
  · simp only [Admitted]
    decide +kernel

theorem tiling_consistent_grids :
    StepRun.Always (step 2 (gridEnv 2)) (Consistent 2 (gridEnv 2).blocks) gridStart gridRun ∧
      StepRun.Steps (step 2 (gridEnv 2)) (Keeps 2 (gridEnv 2)) gridStart gridRun :=
  tiling_consistent (gridEnv 2) (gridSolutions 2) 0
    { system := SudokuSystem.initial 1 (fun _ => 3) }
    (coord 0 0) (coord 4 2) 0 0 (fun _ => 0) gridRun gridRun_admitted

end Grids

end MsgBus.SudokuTiling
