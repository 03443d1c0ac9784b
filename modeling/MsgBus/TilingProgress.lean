import MsgBus.TilingConsistency

/-!
# Progress of a tiling

A tile is enqueued once all its neighbours nearer to the origin are stored. The
tilings that are completed are those whose extent is reached from the first
tile in this way.
-/

set_option autoImplicit false

namespace MsgBus

/-! ## Keys at the solver -/

namespace SudokuSolverRankInfo

variable {κ β : Type} [LinearOrder κ]

/-- There is a queue for the key or an entry that takes answers. -/
def Keyed (s : SudokuSolverRankInfo κ β) (k : κ) : Prop :=
  (s.keyBoards.find? k).isSome ∨ ∃ t, s.Open t ∧ t.key = k

variable (env : SudokuEnv β) (now : ℕ) (alreadyDone : κ → Bool) {s s' : SudokuSolverRankInfo κ β}
  {k : κ}

end SudokuSolverRankInfo

namespace SudokuTiling

open SudokuSolverRankInfo

variable {β γ : Type} {S : ℕ}

section System

variable (env : SudokuEnv β) (now : ℕ) (alreadyDone : Coord → Bool)
  {system : SudokuSystem Coord β} {k : Coord}

end System

/-! ## Tiles that are reached -/

theorem mem_integerRange {a b i : ℤ} : i ∈ integerRange a b ↔ a ≤ i ∧ i < b := by
  rw [integerRange, List.mem_map]
  constructor
  · rintro ⟨n,hn,rfl⟩
    have hn := List.mem_range.mp hn
    omega
  · rintro ⟨ha,hb⟩
    exact ⟨(i-a).toNat,List.mem_range.mpr (by omega),by omega⟩

theorem mem_coords {e : BoardsExtent} {c : ℤ × ℤ} :
    c ∈ e.coords ↔ (e.xmin ≤ c.1 ∧ c.1 < e.xmax) ∧ e.ymin ≤ c.2 ∧ c.2 < e.ymax := by
  obtain ⟨x,y⟩ := c
  simp [BoardsExtent.coords, mem_integerRange, and_comm]

/-- What can be reached from the first tile: everything from the origin, else
what lies behind it on its half of an axis. -/
def Grows (first c : ℤ × ℤ) : Prop :=
  first = 0 ∨ c = first ∨
  (first.2 = 0 ∧ c.2 = 0 ∧ (0 < first.1 ∧ first.1 ≤ c.1 ∨ first.1 < 0 ∧ c.1 ≤ first.1)) ∨
  (first.1 = 0 ∧ c.1 = 0 ∧ (0 < first.2 ∧ first.2 ≤ c.2 ∨ first.2 < 0 ∧ c.2 ≤ first.2))

theorem grows_inward {first c : ℤ × ℤ} {e : BoardsExtent} (hfirst : first ∈ e.coords)
    (hc : c ∈ e.coords) (hne : c ≠ first) (h : Grows first c) {side : Side}
    (hin : side.Inward c) : Grows first (side.neighbor c) ∧ side.neighbor c ∈ e.coords := by
  rw [mem_coords] at hfirst hc ⊢
  rcases h with rfl | h | ⟨hfirst0,hc0,h⟩ | ⟨hfirst0,hc0,h⟩
  · refine ⟨Or.inl rfl,?_⟩
    simp only [Prod.fst_zero, Prod.snd_zero] at hfirst
    cases side <;> simp only [Side.Inward, Side.neighbor] at * <;> omega
  · exact absurd h hne
  · have hne : c.1 ≠ first.1 := fun h => hne (Prod.ext h (hc0.trans hfirst0.symm))
    refine ⟨Or.inr (Or.inr (Or.inl ?_)),?_⟩
    all_goals cases side <;> simp only [Side.Inward, Side.neighbor] at * <;> omega
  · have hne : c.2 ≠ first.2 := fun h => hne (Prod.ext (hc0.trans hfirst0.symm) h)
    refine ⟨Or.inr (Or.inr (Or.inr ?_)),?_⟩
    all_goals cases side <;> simp only [Side.Inward, Side.neighbor] at * <;> omega

/-- Every tile that was enqueued is solved. -/
def EverySolved (s : SudokuTiling β) : Prop :=
  ∀ c b, s.Enqueued c b → ∃ a, s.Stored c a

/-- Everything of the extent is reached from the first tile. -/
def Covers (first : ℤ × ℤ) (e : BoardsExtent) : Prop := ∀ c ∈ e.coords, Grows first c

structure Growing (S : ℕ) (first : ℤ × ℤ) (e : BoardsExtent) (s : SudokuTiling β) : Prop where
  extent : s.info.boardsExtent S = e
  begun : ∃ b, s.Enqueued first b
  stored : ∀ c a, s.Stored c a → ∃ b, s.Enqueued c b
  grows : ∀ c b, s.Enqueued c b → Grows first c
  first_stored : ∀ c b, s.Enqueued c b → c = first ∨ ∃ a, s.Stored first a
  keyed : ∀ c, s.system.solver.Keyed (toLex c) → ∃ b, s.Enqueued c b

/-- Tiles of the extent that are reached are enqueued. -/
def Frontier (first : ℤ × ℤ) (e : BoardsExtent) (s : SudokuTiling β) : Prop :=
  (∃ a, s.Stored first a) → ∀ c ∈ e.coords, Reached s.info.toSudokuTiles c → ∃ b, s.Enqueued c b

variable {first : ℤ × ℤ} {e : BoardsExtent} {s s' : SudokuTiling β}

theorem areComplete_iff : s.info.areComplete S = true ↔
    ∀ c ∈ (s.info.boardsExtent S).coords, ∃ a, s.Stored c a := by
  simp only [SudokuTiles.areComplete, List.all_eq_true, Option.isSome_iff_exists]
  rfl

theorem nearest_unsolved {cs : List (ℤ × ℤ)} (h : ∃ c ∈ cs, ∀ a, ¬s.Stored c a) :
    ∃ c ∈ cs, (∀ a, ¬s.Stored c a) ∧
      ∀ d ∈ cs, distance d < distance c → ∃ a, s.Stored d a := by
  classical
  have hex : ∃ n, ∃ c ∈ cs, (∀ a, ¬s.Stored c a) ∧ distance c = n := by
    obtain ⟨c,hc,hno⟩ := h
    exact ⟨_,c,hc,hno,rfl⟩
  obtain ⟨c,hc,hno,hn⟩ := Nat.find_spec hex
  refine ⟨c,hc,hno,?_⟩
  intro d hd hlt
  by_contra hnot
  rw [hn] at hlt
  exact Nat.find_min hex hlt ⟨d,hd,fun a ha => hnot ⟨a,ha⟩,rfl⟩

/-- If everything is reached from the first tile, all neighbours of the nearest
unsolved tile that are nearer still are solved. -/
theorem reached_unsolved (hfirst : first ∈ e.coords) (hcovers : Covers first e)
    (hstored : ∃ a, s.Stored first a) (h : ∃ c ∈ e.coords, ∀ a, ¬s.Stored c a) :
    ∃ c ∈ e.coords, (∀ a, ¬s.Stored c a) ∧ Reached s.info.toSudokuTiles c := by
  obtain ⟨c,hc,hno,hnear⟩ := nearest_unsolved h
  have hne : c ≠ first := by
    rintro rfl
    obtain ⟨a,ha⟩ := hstored
    exact hno a ha
  have hgrows := hcovers c hc
  refine ⟨c,hc,hno,?_,?_⟩
  · rintro rfl
    simp only [Grows, Prod.fst_zero, Prod.snd_zero] at hgrows
    rcases hgrows with h | h | h | h
    · exact hne h.symm
    · exact hne h
    · omega
    · omega
  · intro side hin
    have hmem := (grows_inward hfirst hc hne hgrows hin).2
    have hdist := distance_inward hin
    exact hnear _ hmem (by omega)

/-- Where all that is enqueued is solved, the tiling is complete exactly if
everything is reached from the first tile. -/
theorem complete_iff (hfirst : first ∈ e.coords) (h : Growing S first e s)
    (hf : Frontier first e s) (hsolved : EverySolved s) :
    s.info.areComplete S = true ↔ Covers first e := by
  rw [areComplete_iff, h.extent]
  constructor
  · intro hall c hc
    obtain ⟨a,ha⟩ := hall c hc
    obtain ⟨b,hb⟩ := h.stored c a ha
    exact h.grows c b hb
  · intro hcovers
    obtain ⟨b,hb⟩ := h.begun
    have hstored := hsolved first b hb
    by_contra hnot
    obtain ⟨c,hc,hno,hr⟩ := reached_unsolved hfirst hcovers hstored
      (by simpa only [not_forall, not_exists, exists_prop] using hnot)
    obtain ⟨b,hb⟩ := hf hstored c hc hr
    obtain ⟨a,ha⟩ := hsolved c b hb
    exact hno a ha

section Steps

variable (env : TilingEnv β γ) (now : ℕ)

/-- After a solution the first tile is stored, what is reached is queued or
pending, and the tiling has not stalled if everything can be reached. -/
structure Handled (S : ℕ) (first : ℤ × ℤ) (e : BoardsExtent) (s : SudokuTiling β) : Prop where
  growing : Growing S first e s
  first_stored : ∃ a, s.Stored first a
  reached : ∀ c ∈ e.coords, Reached s.info.toSudokuTiles c →
    tileAt s.info.toSudokuTiles c = none → s.system.solver.hasEnqueued (toLex c) = true

end Steps

/-! ## Runs -/

section Start

variable (env : TilingEnv β γ) (now : ℕ) (s : SudokuTiling β) (min max : Coord) (x y : ℤ)
  (board : β)

end Start

section Grids

open SudokuGrid

end Grids

end SudokuTiling

end MsgBus
