import MsgBus.SudokuHoldings

/-!
# Where the fillings of a board are looked for

A filling is below what holds a board that it extends: a queue, a pending task,
a candidate on its way, or the task that a solution on its way is for. A step
may move a board on. What it must keep is stated here, and that the fillings
are then below something still.
-/

set_option autoImplicit false

namespace MsgBus

inductive Holding (κ β : Type) where
  | queued (key : κ) (board : β)
  | pending (t : SudokuTask κ β)
  | candidate (t : SudokuTask κ β) (board : β)
  | answered (t : SudokuTask κ β)

namespace Holding

variable {κ β : Type}

def key : Holding κ β → κ
  | queued key _ => key
  | pending t => t.key
  | candidate t _ => t.key
  | answered t => t.key

/-- The board that a filling has to extend. -/
def board : Holding κ β → β
  | queued _ board => board
  | pending t => t.board
  | candidate _ board => board
  | answered t => t.board

/-- The board that the solver itself has of it. -/
def root : Holding κ β → β
  | queued _ board => board
  | pending t => t.board
  | candidate t _ => t.board
  | answered t => t.board

end Holding

namespace SudokuSystem

variable {κ β φ : Type} [LinearOrder κ] {boards : SudokuBoards β}

def Sent (s : SudokuSystem κ β) (m : SudokuMessage β) : Prop :=
  m ∈ s.flight.map SudokuPacket.message

def Holds (s : SudokuSystem κ β) : Holding κ β → Prop
  | .queued key board => s.solver.Queued key board
  | .pending t => s.solver.Pending t
  | .candidate t board => s.solver.Open t ∧ s.Sent (.candidate t.sequenceNo board)
  | .answered t => s.solver.Open t ∧ ∃ board, s.Sent (.solved t.sequenceNo board)

variable (en : Enumeration boards φ)

/-- Some board of the key is held that the filling extends. -/
def Covered (s : SudokuSystem κ β) (key : κ) (F : φ) : Prop :=
  ∃ h, s.Holds h ∧ h.key = key ∧ en.Extends F h.board

/-- As long as no solution for its key has been reported, the fillings of an
enqueued board are covered. -/
def Covers (s : SudokuSystem κ β) : Prop :=
  ∀ e ∈ s.enqueued, ¬s.solver.Reported e.1 → ∀ F, en.Extends F e.2 → Covered en s e.1 F

/-- The holding comes of the answers for the task, not of the task itself. -/
def Beyond (t : SudokuTask κ β) (h : Holding κ β) : Prop :=
  en.filled t.board < en.filled h.root ∨ h = .answered t ∨ ∃ c, h = .candidate t c

/-- A pending task that a helper is done with can go. -/
def Finished (s : SudokuSystem κ β) : Prop :=
  ∀ t, s.solver.Pending t → s.Sent (.done t.sequenceNo) → ¬s.solver.Reported t.key →
    ∀ F, en.Extends F t.board →
      ∃ h, s.Holds h ∧ h.key = t.key ∧ en.Extends F h.board ∧ Beyond en t h

/-- The answers on their way cover the fillings of the board. -/
def Explored (s : SudokuSystem κ β) (t : SudokuTask κ β) : Prop :=
  ∀ F, en.Extends F t.board → (∃ c, s.Sent (.solved t.sequenceNo c)) ∨
    ∃ c, s.Sent (.candidate t.sequenceNo c) ∧ en.Extends F c

/-- A candidate for a task refines its board. -/
def Refining (s : SudokuSystem κ β) : Prop :=
  ∀ t c, s.solver.Open t → s.Sent (.candidate t.sequenceNo c) → en.Refines t.board c

/-- What a step keeps for keys without a solution. At most one pending task is
closed. -/
structure Keeps (closing : Option (SudokuTask κ β)) (s s' : SudokuSystem κ β) : Prop where
  reported : ∀ k, s.solver.Reported k → s'.solver.Reported k
  queued : ∀ k b, s.solver.Queued k b → ¬s'.solver.Reported k → s'.solver.Queued k b ∨
    ∃ t, s'.solver.Pending t ∧ t.key = k ∧ t.board = b
  pending : ∀ t, s.solver.Pending t → ¬s'.solver.Reported t.key → s'.solver.Pending t ∨
    s'.solver.Queued t.key t.board ∨ closing = some t ∧ s'.solver.Remaining t
  remaining : ∀ t, s.solver.Remaining t → ¬s'.solver.Reported t.key → s'.solver.Remaining t
  candidate : ∀ t c, s.solver.Open t → s.Sent (.candidate t.sequenceNo c) →
    ¬s'.solver.Reported t.key → s'.Sent (.candidate t.sequenceNo c) ∨ s'.solver.Queued t.key c
  solved : ∀ t c, s.solver.Open t → s.Sent (.solved t.sequenceNo c) →
    ¬s'.solver.Reported t.key → s'.Sent (.solved t.sequenceNo c)
  done : ∀ t, s'.solver.Pending t → s'.Sent (.done t.sequenceNo) →
    s.solver.Pending t ∧ s.Sent (.done t.sequenceNo) ∨ Explored en s' t
  enqueued : ∀ e ∈ s'.enqueued, e ∈ s.enqueued ∨ s'.solver.Queued e.1 e.2

variable {en} {closing : Option (SudokuTask κ β)} {s s' : SudokuSystem κ β}

theorem open_kept (hk : Keeps en closing s s') {t : SudokuTask κ β} (ho : s.solver.Open t)
    (hr : ¬s'.solver.Reported t.key) :
    s'.solver.Open t ∨ s'.solver.Queued t.key t.board := by
  rcases ho with hp | hm
  · rcases hk.pending t hp hr with hp | hq | ⟨_,hm⟩
    · exact Or.inl (Or.inl hp)
    · exact Or.inr hq
    · exact Or.inl (Or.inr hm)
  · exact Or.inl (Or.inr (hk.remaining t hm hr))

section Beyond

omit [LinearOrder κ]

variable {t u : SudokuTask κ β} {key : κ} {b : β}

@[simp] theorem beyond_queued :
    Beyond en u (.queued key b) ↔ en.filled u.board < en.filled b := by
  simp [Beyond, Holding.root]

@[simp] theorem beyond_pending :
    Beyond en u (.pending t) ↔ en.filled u.board < en.filled t.board := by
  simp [Beyond, Holding.root]

@[simp] theorem beyond_candidate :
    Beyond en u (.candidate t b) ↔ en.filled u.board < en.filled t.board ∨ t = u := by
  simp [Beyond, Holding.root]

@[simp] theorem beyond_answered :
    Beyond en u (.answered t) ↔ en.filled u.board < en.filled t.board ∨ t = u := by
  simp [Beyond, Holding.root]

theorem beyond_trans {h : Holding κ β} (ht : Beyond en u (.pending t)) (hb : Beyond en t h) :
    Beyond en u h := by
  have hlt := beyond_pending.mp ht
  rcases hb with hb | rfl | ⟨_,rfl⟩
  · exact Or.inl (hlt.trans hb)
  · exact Or.inl hlt
  · exact Or.inl hlt

end Beyond

/-- What covers a filling is followed by something that covers it, unless it is
the task that is closed. -/
theorem holding_kept (hk : Keeps en closing s s') (hc : Refining en s) {h : Holding κ β}
    (hh : s.Holds h) (hr : ¬s'.solver.Reported h.key) (hne : ∀ t ∈ closing, h ≠ .pending t)
    {F : φ} (hF : en.Extends F h.board) :
    ∃ h', s'.Holds h' ∧ h'.key = h.key ∧ en.Extends F h'.board ∧
      ∀ t, s'.solver.Pending t → Beyond en t h → Beyond en t h' := by
  cases h with
  | queued key board =>
    rcases hk.queued key board hh hr with hq | ⟨t,ht,rfl,rfl⟩
    · exact ⟨.queued key board,hq,rfl,hF,fun _ _ hb => hb⟩
    · exact ⟨.pending t,ht,rfl,hF,fun _ _ hb => beyond_pending.mpr (beyond_queued.mp hb)⟩
  | pending t =>
    rcases hk.pending t hh hr with hp | hq | ⟨hcl,_⟩
    · exact ⟨.pending t,hp,rfl,hF,fun _ _ hb => hb⟩
    · exact ⟨.queued t.key t.board,hq,rfl,hF,
        fun _ _ hb => beyond_queued.mpr (beyond_pending.mp hb)⟩
    · exact absurd rfl (hne t hcl)
  | candidate t c =>
    obtain ⟨ho,hs⟩ := hh
    have href := hc t c ho hs
    by_cases ho' : s'.solver.Open t
    · rcases hk.candidate t c ho hs hr with hs' | hq
      · exact ⟨.candidate t c,⟨ho',hs'⟩,rfl,hF,fun _ _ hb => hb⟩
      · refine ⟨.queued t.key c,hq,rfl,hF,?_⟩
        intro u _ hb
        apply beyond_queued.mpr
        rcases beyond_candidate.mp hb with hb | rfl
        · exact hb.trans href.filled
        · exact href.filled
    · have hq := (open_kept hk ho hr).resolve_left ho'
      refine ⟨.queued t.key t.board,hq,rfl,href.extends_of F hF,?_⟩
      intro u hu hb
      rcases beyond_candidate.mp hb with hb | rfl
      · exact beyond_queued.mpr hb
      · exact absurd (Or.inl hu) ho'
  | answered t =>
    obtain ⟨ho,c,hs⟩ := hh
    by_cases ho' : s'.solver.Open t
    · exact ⟨.answered t,⟨ho',c,hk.solved t c ho hs hr⟩,rfl,hF,fun _ _ hb => hb⟩
    · have hq := (open_kept hk ho hr).resolve_left ho'
      refine ⟨.queued t.key t.board,hq,rfl,hF,?_⟩
      intro u hu hb
      rcases beyond_answered.mp hb with hb | rfl
      · exact beyond_queued.mpr hb
      · exact absurd (Or.inl hu) ho'

/-- The task that is closed leaves its fillings to what comes of its answers. -/
theorem holding_followed (hk : Keeps en closing s s') (hc : Refining en s) (hf : Finished en s)
    (hclosing : ∀ t ∈ closing, s.solver.Pending t ∧ s.Sent (.done t.sequenceNo))
    {h : Holding κ β} (hh : s.Holds h) (hr : ¬s'.solver.Reported h.key) {F : φ}
    (hF : en.Extends F h.board) :
    ∃ h', s'.Holds h' ∧ h'.key = h.key ∧ en.Extends F h'.board ∧
      ∀ t, s'.solver.Pending t → Beyond en t h → Beyond en t h' := by
  by_cases hne : ∀ t ∈ closing, h ≠ .pending t
  · exact holding_kept hk hc hh hr hne hF
  · simp only [not_forall, not_not] at hne
    obtain ⟨t,ht,rfl⟩ := hne
    obtain ⟨hp,hs⟩ := hclosing t ht
    obtain ⟨h,hh',hkey,hF',hb⟩ := hf t hp hs (fun hrep => hr (hk.reported _ hrep)) F hF
    have hother : ∀ u ∈ closing, h ≠ .pending u := by
      rintro u hu rfl
      obtain rfl := Option.mem_unique ht hu
      exact lt_irrefl _ (beyond_pending.mp hb)
    obtain ⟨h',hh'',hkey',hF'',hb'⟩ := holding_kept hk hc hh' (by rw [hkey]; exact hr) hother hF'
    exact ⟨h',hh'',hkey'.trans hkey,hF'',fun u hu hbu => hb' u hu (beyond_trans hbu hb)⟩

theorem covers_kept (hk : Keeps en closing s s') (hc : Refining en s) (hf : Finished en s)
    (hclosing : ∀ t ∈ closing, s.solver.Pending t ∧ s.Sent (.done t.sequenceNo))
    (hcov : Covers en s) : Covers en s' := by
  intro e he hr F hF
  rcases hk.enqueued e he with hold | hq
  · obtain ⟨h,hh,hkey,hFh⟩ := hcov e hold (fun hrep => hr (hk.reported _ hrep)) F hF
    obtain ⟨h',hh',hkey',hF',_⟩ :=
      holding_followed hk hc hf hclosing hh (by rw [hkey]; exact hr) hFh
    exact ⟨h',hh',hkey'.trans hkey,hF'⟩
  · exact ⟨.queued e.1 e.2,hq,rfl,hF⟩

theorem finished_kept (hk : Keeps en closing s s') (hc : Refining en s) (hf : Finished en s)
    (hclosing : ∀ t ∈ closing, s.solver.Pending t ∧ s.Sent (.done t.sequenceNo)) :
    Finished en s' := by
  intro t hp hd hr F hF
  rcases hk.done t hp hd with ⟨hp0,hd0⟩ | hx
  · obtain ⟨h,hh,hkey,hFh,hb⟩ := hf t hp0 hd0 (fun hrep => hr (hk.reported _ hrep)) F hF
    obtain ⟨h',hh',hkey',hF',hb'⟩ :=
      holding_followed hk hc hf hclosing hh (by rw [hkey]; exact hr) hFh
    exact ⟨h',hh',hkey'.trans hkey,hF',hb' t hp hb⟩
  · rcases hx F hF with hs | ⟨c,hs,hFc⟩
    · exact ⟨.answered t,⟨Or.inl hp,hs⟩,rfl,hF,Or.inr (Or.inl rfl)⟩
    · exact ⟨.candidate t c,⟨Or.inl hp,hs⟩,rfl,hFc,Or.inr (Or.inr ⟨c,rfl⟩)⟩

end SudokuSystem

end MsgBus
