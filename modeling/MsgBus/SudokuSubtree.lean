import Mathlib.Data.Fintype.Card
import MsgBus.SudokuHelper

/-!
# The subtree of a board

The cells of a board are here looked at one by one: a value may be put into a
cell unless one of its peers has it. Below a board lie those that come from it
by filling cells so. A helper that has taken up a board sends boards from its
subtree only, and leaves out no filling unless it has solved the board.
-/

set_option autoImplicit false

namespace MsgBus

/-- The boards cell by cell. The alternatives of a board have each legal value
of its cell that is found unsolved. -/
structure SudokuCells {β : Type} (boards : SudokuBoards β) (κ ν : Type) where
  get : β → κ → Option ν
  set : β → κ → ν → β
  findUnsolved : β → κ
  peers : κ → κ → Prop
  peers_symm : ∀ {k k'}, peers k k' → peers k' k
  peers_irrefl : ∀ k, ¬ peers k k
  get_set_self : ∀ b k v, get (set b k v) k = some v
  get_set_other : ∀ b v {k k'}, k' ≠ k → get (set b k v) k' = get b k'
  get_findUnsolved : ∀ {b}, boards.isSolved b = false → get b (findUnsolved b) = none
  alternatives : ∀ {b}, boards.isSolved b = false → ∀ c, c ∈ boards.alternatives b ↔
    ∃ v, (∀ k, peers (findUnsolved b) k → get b k ≠ some v) ∧ c = set b (findUnsolved b) v

namespace SudokuCells

variable {β κ ν : Type} {boards : SudokuBoards β} (cells : SudokuCells boards κ ν)

/-- The second board keeps the values of the first one, and those it has in
other cells differ from the values of their peers. -/
structure LegalExtension (b c : β) : Prop where
  kept : ∀ k v, cells.get b k = some v → cells.get c k = some v
  legal : ∀ k k' v, cells.peers k k' → cells.get b k = none → cells.get c k = some v →
    cells.get c k' ≠ some v

/-- The complete valid board has the values that the board has. -/
structure Extends (F : κ → ν) (b : β) : Prop where
  valid : ∀ k k', cells.peers k k' → F k ≠ F k'
  agrees : ∀ k v, cells.get b k = some v → F k = v

variable {cells} {b c d : β}

theorem LegalExtension.refl (b : β) : cells.LegalExtension b b := by
  refine ⟨fun k v h => h,?_⟩
  intro k k' v _ hnone hsome
  rw [hnone] at hsome
  cases hsome

theorem LegalExtension.trans (h : cells.LegalExtension b c) (h' : cells.LegalExtension c d) :
    cells.LegalExtension b d := by
  refine ⟨fun k v hv => h'.kept k v (h.kept k v hv),?_⟩
  intro k k' v hpeers hnone hv hv'
  cases hk : cells.get c k with
  | none => exact h'.legal k k' v hpeers hk hv hv'
  | some u =>
    have hu : cells.get d k = some u := h'.kept k u hk
    obtain rfl : v = u := Option.some.inj (hv.symm.trans hu)
    -- the peer had another value in the second board, or it has been filled after it
    cases hk' : cells.get c k' with
    | none => exact h'.legal k' k v (cells.peers_symm hpeers) hk' hv' hv
    | some w =>
      have hw : cells.get d k' = some w := h'.kept k' w hk'
      obtain rfl : v = w := Option.some.inj (hv'.symm.trans hw)
      exact h.legal k k' v hpeers hnone hk hk'

theorem legal_alternative (hb : boards.isSolved b = false) (hc : c ∈ boards.alternatives b) :
    cells.LegalExtension b c := by
  have hnone := cells.get_findUnsolved hb
  obtain ⟨v,hlegal,rfl⟩ := (cells.alternatives hb c).mp hc
  constructor
  · intro k u hu
    have hne : k ≠ cells.findUnsolved b := by
      rintro rfl
      rw [hnone] at hu
      cases hu
    rw [cells.get_set_other b v hne, hu]
  · intro k k' u hpeers hk hset
    by_cases heq : k = cells.findUnsolved b
    · subst heq
      have hne : k' ≠ cells.findUnsolved b := by
        rintro rfl
        exact cells.peers_irrefl _ hpeers
      rw [cells.get_set_self] at hset
      cases hset
      rw [cells.get_set_other b v hne]
      exact hlegal k' hpeers
    · rw [cells.get_set_other b v heq, hk] at hset
      cases hset

theorem Extends.of_legal {F : κ → ν} (h : cells.LegalExtension b c) (hF : cells.Extends F c) :
    cells.Extends F b :=
  ⟨hF.valid,fun k v hv => hF.agrees k v (h.kept k v hv)⟩

/-- The value of the filling is legal in the cell that is found unsolved. -/
theorem Extends.alternative {F : κ → ν} (hb : boards.isSolved b = false) (hF : cells.Extends F b) :
    ∃ c ∈ boards.alternatives b, cells.Extends F c := by
  refine ⟨cells.set b (cells.findUnsolved b) (F (cells.findUnsolved b)),
    (cells.alternatives hb _).mpr ⟨_,?_,rfl⟩,hF.valid,?_⟩
  · intro k hpeers hk
    exact hF.valid _ _ hpeers (hF.agrees k _ hk).symm
  · intro k v hv
    by_cases heq : k = cells.findUnsolved b
    · subst heq
      rw [cells.get_set_self] at hv
      exact Option.some.inj hv
    · rw [cells.get_set_other b _ heq] at hv
      exact hF.agrees k v hv

section Counted

variable [Fintype κ]

variable (cells) in
def filled (b : β) : ℕ := (Finset.univ.filter fun k => (cells.get b k).isSome).card

theorem filled_alternative (hb : boards.isSolved b = false) (hc : c ∈ boards.alternatives b) :
    cells.filled b < cells.filled c := by
  have hlegal : cells.LegalExtension b c := legal_alternative hb hc
  obtain ⟨v,-,rfl⟩ := (cells.alternatives hb c).mp hc
  refine Finset.card_lt_card (Finset.ssubset_iff_of_subset ?_ |>.mpr ?_)
  · intro k hk
    obtain ⟨u,hu⟩ := Option.isSome_iff_exists.mp (Finset.mem_filter.mp hk).2
    exact Finset.mem_filter.mpr ⟨Finset.mem_univ k,by rw [hlegal.kept k u hu]; rfl⟩
  · refine ⟨cells.findUnsolved b,?_,?_⟩
    · simp [cells.get_set_self]
    · simp [cells.get_findUnsolved hb]

variable (cells) in
def enumeration : Enumeration boards (κ → ν) where
  Extends := cells.Extends
  filled := cells.filled
  alternative_filled _ _ hb hc := filled_alternative hb hc
  alternative_extends _ _ _ hb hc := Extends.of_legal (legal_alternative hb hc)
  enumerates _ _ hb hF := hF.alternative hb

end Counted

end SudokuCells

namespace SudokuHelperRankInfo

open SudokuCells

variable {β κ ν : Type} {boards : SudokuBoards β} {cells : SudokuCells boards κ ν}

/-! ## What is sent -/

variable (cells) in
/-- What is sent anew has the mark that it should, and is below the board. -/
def SentBelow (b : β) (p p' : BranchProgress β) : Prop :=
  ∀ x ∈ p'.sent, x ∈ p.sent ∨ cells.LegalExtension b x.2 ∧ boards.isSolved x.2 = x.1

theorem sentBelow_append {b c : β} (hc : cells.LegalExtension b c) (p : BranchProgress β)
    (done : Bool) :
    SentBelow cells b p ⟨done,p.sent ++ [(boards.isSolved c,c)]⟩ := by
  intro x hx
  rcases List.mem_append.mp hx with hx | hx
  · exact Or.inl hx
  · obtain rfl := List.mem_singleton.mp hx
    exact Or.inr ⟨hc,rfl⟩

theorem sentBelow_foldl {descend : β → BranchProgress β → BranchProgress β}
    (hd : ∀ c p, boards.isSolved c = false → SentBelow cells c p (descend c p)) {b : β}
    {cs : List β} (hcs : ∀ c ∈ cs, cells.LegalExtension b c) (p : BranchProgress β) :
    SentBelow cells b p (cs.foldl (tryAlternative boards descend) p) := by
  induction cs generalizing p with
  | nil => exact fun x hx => Or.inl hx
  | cons c cs ih =>
    have hc := hcs c List.mem_cons_self
    have hone : SentBelow cells b p (tryAlternative boards descend p c) := by
      rw [tryAlternative]
      split_ifs with hs hdone
      · rw [← hs]
        exact sentBelow_append hc p _
      · intro x hx
        refine (hd c p (by simpa using hs) x hx).imp_right fun hbelow => ?_
        exact ⟨hc.trans hbelow.1,hbelow.2⟩
      · exact fun x hx => Or.inl hx
    intro x hx
    obtain hx | hbelow := ih (fun c hmem => hcs c (List.mem_cons_of_mem _ hmem)) _ x hx
    · exact hone x hx
    · exact Or.inr hbelow

theorem processBoard_sent (levels : ℕ) {b : β} (hb : boards.isSolved b = false)
    (p : BranchProgress β) : SentBelow cells b p (processBoard boards levels b p) := by
  have hcs : ∀ c ∈ boards.alternatives b, cells.LegalExtension b c :=
    fun c hc => legal_alternative hb hc
  induction levels generalizing b p with
  | zero =>
    refine sentBelow_foldl (fun c p hc => ?_) hcs p
    rw [sendCandidate, ← hc]
    exact sentBelow_append (.refl c) p _
  | succ levels ih =>
    exact sentBelow_foldl (fun c p hc => ih hc p fun d hd => legal_alternative hc hd) hcs p

/-! ## What is posted -/

/-- The boards that are posted, with whether they are posted as solved. -/
def postedBoards (posted : List (SudokuPacket β)) : List (Bool × β) :=
  posted.filterMap fun packet =>
    match packet.message with
    | .solved _ board => some (true,board)
    | .candidate _ board => some (false,board)
    | _ => none

theorem postedBoards_answers (maxRecursion : ℕ) (helperId : EndpointId) (task : HelperBoard β) :
    postedBoards (answers boards maxRecursion helperId task) =
      (processBoard boards maxRecursion task.board ⟨false,[]⟩).sent := by
  generalize hsent : (processBoard boards maxRecursion task.board ⟨false,[]⟩).sent = sent
  simp only [answers, hsent, postedBoards, List.filterMap_append, List.filterMap_map]
  have hsame : ∀ x : Bool × β, (match responseMessage task.sequenceNo x with
      | .solved _ board => some (true,board)
      | .candidate _ board => some (false,board)
      | _ => none) = some x := by
    rintro ⟨solved,c⟩
    cases solved <;> rfl
  simp [hsame]

theorem postedBoards_update {info : SudokuHelperRankInfo β} {task : HelperBoard β}
    (helperId : EndpointId) (h : info.boards.getLast? = some task) :
    postedBoards (info.update boards helperId).2 =
      (processBoard boards info.maxRecursion task.board ⟨false,[]⟩).sent := by
  have halive : ∀ ids : List (EndpointId × Unit),
      postedBoards (ids.map fun e => (⟨helperId,e.1,.alive⟩ : SudokuPacket β)) = [] := by
    intro ids
    simp [postedBoards, List.filterMap_map]
  simp only [update, h]
  split_ifs
  · rw [postedBoards, List.filterMap_append, ← postedBoards, ← postedBoards, halive,
      postedBoards_answers, List.nil_append]
  · rw [List.nil_append, postedBoards_answers]

/-- For an unsolved board a helper posts boards of its subtree, and a solved one
or, for each complete valid board below it, a candidate which that extends. -/
theorem helper_covers_subtree [Fintype κ] (cells : SudokuCells boards κ ν)
    (info : SudokuHelperRankInfo β) (helperId : EndpointId) (task : HelperBoard β)
    (htask : info.boards.getLast? = some task) (hb : boards.isSolved task.board = false) :
    let posted := postedBoards (info.update boards helperId).2
    (∀ x ∈ posted, cells.LegalExtension task.board x.2 ∧ boards.isSolved x.2 = x.1) ∧
    ((∃ c, (true,c) ∈ posted) ∨
      ∀ F, cells.Extends F task.board → ∃ c, (false,c) ∈ posted ∧ cells.Extends F c) := by
  intro posted
  have hposted : posted = (processBoard boards info.maxRecursion task.board ⟨false,[]⟩).sent :=
    postedBoards_update helperId htask
  have hanswered := processBoard_answered cells.enumeration info.maxRecursion task.board hb
  rw [hposted]
  constructor
  · intro x hx
    have hsent : SentBelow cells task.board _ _ :=
      processBoard_sent info.maxRecursion hb ⟨false,[]⟩
    exact (hsent x hx).resolve_left List.not_mem_nil
  · by_cases hsolved : ∃ c, (true,c) ∈ (processBoard boards info.maxRecursion task.board
        ⟨false,[]⟩).sent
    · exact Or.inl hsolved
    · exact Or.inr fun F hF => (hanswered.covers F hF).resolve_left hsolved

/-! ### Boards of rank two -/

abbrev SmallBoard := Fin 16 → Option (Fin 4)

def smallLegal (b : SmallBoard) (k : Fin 16) (v : Fin 4) : Bool :=
  (List.finRange 16).all fun k' => !SudokuGrid.peers 2 k k' || b k' ≠ some v

def smallUnsolved (b : SmallBoard) : Option (Fin 16) :=
  (List.finRange 16).find? fun k => (b k).isNone

def smallBoards : SudokuBoards SmallBoard where
  isSolved b := (smallUnsolved b).isNone
  alternativeCount b := ((List.finRange 16).map fun k =>
    if (b k).isNone then ((List.finRange 4).filter (smallLegal b k)).length else 1).sum
  alternatives b :=
    match smallUnsolved b with
    | some k =>
      ((List.finRange 4).filter (smallLegal b k)).map fun v => Function.update b k (some v)
    | none => []

def smallCells : SudokuCells smallBoards (Fin 16) (Fin 4) where
  get b := b
  set b k v := Function.update b k (some v)
  findUnsolved b := (smallUnsolved b).getD 0
  peers k k' := SudokuGrid.peers 2 k k' = true
  peers_symm := by decide
  peers_irrefl := by decide
  get_set_self b k v := Function.update_self k (some v) b
  get_set_other b v _ _ h := Function.update_of_ne h (some v) b
  get_findUnsolved {b} h := by
    obtain ⟨k,hk⟩ := Option.isSome_iff_exists.mp (Option.isNone_eq_false_iff.mp h)
    have hnone := List.find?_some hk
    rw [hk]
    exact Option.isNone_iff_eq_none.mp hnone
  alternatives {b} h c := by
    obtain ⟨k,hk⟩ := Option.isSome_iff_exists.mp (Option.isNone_eq_false_iff.mp h)
    have hlegal (v : Fin 4) : smallLegal b k v = true ↔
        ∀ k' : Fin 16, SudokuGrid.peers 2 k k' = true → b k' ≠ some v := by
      simp only [smallLegal, List.all_eq_true, List.mem_finRange, true_implies, Bool.or_eq_true,
        Bool.not_eq_true', decide_eq_true_iff, ← Bool.not_eq_true, ← imp_iff_not_or]
    simp only [smallBoards, hk, Option.getD_some, List.mem_map, List.mem_filter,
      List.mem_finRange, true_and, hlegal]
    exact exists_congr fun v => and_congr_right fun _ => eq_comm

/-- A board with two rows solved and a value in each of the others. -/
def smallBoard : SmallBoard := fun k =>
  [some 0,some 1,some 2,some 3,some 2,some 3,some 0,some 1,some 1,none,none,none,none,none,none,
    some 0].getD k.val none

theorem smallBoard_covered : (smallBoards.isSolved smallBoard = false) ∧
    let posted := postedBoards (SudokuHelperRankInfo.update smallBoards
      { maxRecursion := 2, boards := [⟨7,4,smallBoard⟩] } 9).2
    (∃ c, (true,c) ∈ posted) ∨
      ∀ F, smallCells.Extends F smallBoard → ∃ c, (false,c) ∈ posted ∧ smallCells.Extends F c := by
  have hb : smallBoards.isSolved smallBoard = false := by decide
  exact ⟨hb,(helper_covers_subtree smallCells
    { maxRecursion := 2, boards := [⟨7,4,smallBoard⟩] } 9 ⟨7,4,smallBoard⟩ rfl hb).2⟩

end SudokuHelperRankInfo

end MsgBus
