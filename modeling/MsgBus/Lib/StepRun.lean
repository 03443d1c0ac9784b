import Mathlib.Order.Basic
import Mathlib.Tactic.Tauto

/-!
# Runs of a step function

A system is a step function on states and events. A run is a list of events;
every state it passes is visited, the first and the last one included. An
invariant kept by each admitted step holds in each visited state of every
run whose steps are admitted.
-/

set_option autoImplicit false

namespace StepRun

variable {σ ε : Type*} (step : σ → ε → σ)

def run : σ → List ε → σ
  | s, [] => s
  | s, e::es => run (step s e) es

/-- Every step of the run meets `ok` in the state it starts from. -/
def Steps (ok : σ → ε → Prop) : σ → List ε → Prop
  | _, [] => True
  | s, e::es => ok s e ∧ Steps ok (step s e) es

/-- Some step of the run meets `ok` in the state it starts from. -/
def Sometime (ok : σ → ε → Prop) : σ → List ε → Prop
  | _, [] => False
  | s, e::es => ok s e ∨ Sometime ok (step s e) es

/-- Every visited state of the run satisfies `good`. -/
def Always (good : σ → Prop) : σ → List ε → Prop
  | s, [] => good s
  | s, e::es => good s ∧ Always good (step s e) es

instance decidableSteps (ok : σ → ε → Prop) [∀ s e, Decidable (ok s e)] :
    (s : σ) → (es : List ε) → Decidable (Steps step ok s es)
  | _, [] => inferInstanceAs (Decidable True)
  | s, e::es =>
    haveI := decidableSteps ok (step s e) es
    inferInstanceAs (Decidable (_ ∧ _))

instance decidableSometime (ok : σ → ε → Prop) [∀ s e, Decidable (ok s e)] :
    (s : σ) → (es : List ε) → Decidable (Sometime step ok s es)
  | _, [] => inferInstanceAs (Decidable False)
  | s, e::es =>
    haveI := decidableSometime ok (step s e) es
    inferInstanceAs (Decidable (_ ∨ _))

variable {step}

theorem steps_mono {ok ok' : σ → ε → Prop} (h : ∀ s e, ok s e → ok' s e)
    {s : σ} {es : List ε} (hs : Steps step ok s es) : Steps step ok' s es := by
  induction es generalizing s with
  | nil => trivial
  | cons e es ih => exact ⟨h s e hs.1,ih hs.2⟩

theorem run_append (s : σ) (es fs : List ε) :
    run step s (es++fs) = run step (run step s es) fs := by
  induction es generalizing s with
  | nil => rfl
  | cons e es ih => exact ih (step s e)

theorem steps_append {ok : σ → ε → Prop} {s : σ} {es fs : List ε} :
    Steps step ok s (es++fs) ↔ Steps step ok s es ∧ Steps step ok (run step s es) fs := by
  induction es generalizing s with
  | nil => simp [Steps, run]
  | cons e es ih => simp [Steps, run, ih, and_assoc]

theorem sometime_append {ok : σ → ε → Prop} {s : σ} {es fs : List ε} :
    Sometime step ok s (es++fs) ↔
      Sometime step ok s es ∨ Sometime step ok (run step s es) fs := by
  induction es generalizing s with
  | nil => simp [Sometime, run]
  | cons e es ih => simp [Sometime, run, ih, or_assoc]

theorem sometime_snoc {ok : σ → ε → Prop} {s : σ} {es : List ε} {e : ε} :
    Sometime step ok s (es++[e]) ↔ Sometime step ok s es ∨ ok (run step s es) e := by
  simp [sometime_append, Sometime]

theorem steps_snoc {ok : σ → ε → Prop} {s : σ} {es : List ε} {e : ε} :
    Steps step ok s (es++[e]) ↔ Steps step ok s es ∧ ok (run step s es) e := by
  simp [steps_append, Steps]

theorem always_snoc {good : σ → Prop} {s : σ} {es : List ε} {e : ε} :
    Always step good s (es++[e]) ↔ Always step good s es ∧ good (step (run step s es) e) := by
  induction es generalizing s with
  | nil => rfl
  | cons d es ih => simp [Always, run, ih, and_assoc]

theorem always_first {good : σ → Prop} {s : σ} {es : List ε}
    (h : Always step good s es) : good s := by
  cases es with
  | nil => exact h
  | cons e es => exact h.1

theorem always_last {good : σ → Prop} {s : σ} {es : List ε}
    (h : Always step good s es) : good (run step s es) := by
  induction es generalizing s with
  | nil => exact h
  | cons e es ih => exact ih h.2

theorem always_mono {good good' : σ → Prop} (h : ∀ s, good s → good' s)
    {s : σ} {es : List ε} (ha : Always step good s es) : Always step good' s es := by
  induction es generalizing s with
  | nil => exact h s ha
  | cons e es ih => exact ⟨h s ha.1,ih ha.2⟩

/-- A map that carries each step over carries each run over. -/
theorem run_map {σ' : Type*} {step' : σ' → ε → σ'} (f : σ → σ')
    (h : ∀ s e, f (step s e) = step' (f s) e) (s : σ) (es : List ε) :
    f (run step s es) = run step' (f s) es := by
  induction es generalizing s with
  | nil => rfl
  | cons e es ih => rw [run, ih, h, run]

/-- The invariant rule for all runs. -/
theorem run_keeps {inv : σ → Prop} (hstep : ∀ s e, inv s → inv (step s e)) {s : σ}
    {es : List ε} (hs : inv s) : inv (run step s es) := by
  induction es generalizing s with
  | nil => exact hs
  | cons e es ih => exact ih (hstep s e hs)

/-- The invariant rule for runs whose steps are admitted. -/
theorem run_invariant {inv : σ → Prop} {ok : σ → ε → Prop}
    (hstep : ∀ s e, inv s → ok s e → inv (step s e)) {s : σ} {es : List ε}
    (hs : inv s) (hok : Steps step ok s es) : inv (run step s es) := by
  induction es generalizing s with
  | nil => exact hs
  | cons e es ih => exact ih (hstep s e hs hok.1) hok.2

theorem always_of_invariant {inv : σ → Prop} {ok : σ → ε → Prop}
    (hstep : ∀ s e, inv s → ok s e → inv (step s e)) {s : σ} {es : List ε}
    (hs : inv s) (hok : Steps step ok s es) : Always step inv s es := by
  induction es generalizing s with
  | nil => exact hs
  | cons e es ih => exact ⟨hs,ih (hstep s e hs hok.1) hok.2⟩

theorem always_of_kept {inv : σ → Prop} (hstep : ∀ s e, inv s → inv (step s e)) {s : σ}
    (es : List ε) (hs : inv s) : Always step inv s es := by
  induction es generalizing s with
  | nil => exact hs
  | cons e es ih => exact ⟨hs,ih (hstep s e hs)⟩

/-- What each admitted step out of the invariant meets, every step of a run
with admitted steps meets. -/
theorem steps_of_invariant {inv : σ → Prop} {ok post : σ → ε → Prop}
    (hstep : ∀ s e, inv s → ok s e → inv (step s e))
    (hpost : ∀ s e, inv s → ok s e → post s e) {s : σ} {es : List ε}
    (hs : inv s) (hok : Steps step ok s es) : Steps step post s es := by
  induction es generalizing s with
  | nil => trivial
  | cons e es ih => exact ⟨hpost s e hs hok.1,ih (hstep s e hs hok.1) hok.2⟩

/-- Two conditions on steps that agree on each step out of the invariant
agree on runs, if the steps that meet them keep the invariant. -/
theorem steps_iff {inv : σ → Prop} {ok ok' : σ → ε → Prop}
    (hiff : ∀ s e, inv s → (ok s e ↔ ok' s e))
    (hkeep : ∀ s e, inv s → ok' s e → inv (step s e)) {s : σ} {es : List ε} (hs : inv s) :
    Steps step ok s es ↔ Steps step ok' s es := by
  induction es generalizing s with
  | nil => exact Iff.rfl
  | cons e es ih =>
    constructor
    · rintro ⟨h,hes⟩
      have h' := (hiff s e hs).mp h
      exact ⟨h',(ih (hkeep s e hs h')).mp hes⟩
    · rintro ⟨h,hes⟩
      exact ⟨(hiff s e hs).mpr h,(ih (hkeep s e hs h)).mpr hes⟩

/-- When each step out of a good state stays good exactly if it meets `ok`, a
run is good throughout exactly if each of its steps meets `ok`. -/
theorem always_iff_steps {inv good : σ → Prop} {ok : σ → ε → Prop}
    (hgood : ∀ s, inv s → good s)
    (hkeep : ∀ s e, inv s → ok s e → inv (step s e))
    (hbreak : ∀ s e, inv s → good (step s e) → ok s e)
    {s : σ} {es : List ε} (hs : inv s) :
    Always step good s es ↔ Steps step ok s es := by
  constructor
  · intro ha
    induction es generalizing s with
    | nil => trivial
    | cons e es ih =>
      have hok := hbreak s e hs (always_first ha.2)
      exact ⟨hok,ih (hkeep s e hs hok) ha.2⟩
  · intro hok
    exact always_mono hgood (always_of_invariant hkeep hs hok)

/-- The same for runs out of a class of admitted ones. -/
theorem always_iff_steps_of {inv good : σ → Prop} {adm ok : σ → ε → Prop}
    (hgood : ∀ s, inv s → good s)
    (hkeep : ∀ s e, inv s → adm s e → ok s e → inv (step s e))
    (hbreak : ∀ s e, inv s → adm s e → good (step s e) → ok s e)
    {s : σ} {es : List ε} (hs : inv s) (hadm : Steps step adm s es) :
    Always step good s es ↔ Steps step ok s es := by
  induction es generalizing s with
  | nil => exact ⟨fun _ => trivial,fun _ => hgood s hs⟩
  | cons e es ih =>
    constructor
    · rintro ⟨-,hes⟩
      have hok := hbreak s e hs hadm.1 (always_first hes)
      exact ⟨hok,(ih (hkeep s e hs hadm.1 hok) hadm.2).mp hes⟩
    · rintro ⟨hok,hes⟩
      exact ⟨hgood s hs,(ih (hkeep s e hs hadm.1 hok) hadm.2).mpr hes⟩

/-- If each admitted step leaves less to do, a run has no more of them than
there was to do. -/
theorem length_of_lowers {inv : σ → Prop} {ok : σ → ε → Prop} (left : σ → ℕ)
    (hstep : ∀ s e, inv s → ok s e → inv (step s e))
    (hlt : ∀ s e, inv s → ok s e → left (step s e) < left s) {s : σ} {es : List ε}
    (hs : inv s) (hok : Steps step ok s es) : es.length+left (run step s es) ≤ left s := by
  induction es generalizing s with
  | nil => exact Nat.le_of_eq (Nat.zero_add _)
  | cons e es ih =>
    have hrest := ih (hstep s e hs hok.1) hok.2
    have hfirst := hlt s e hs hok.1
    rw [List.length_cons, run]
    omega

/-- If no admitted step leaves more to do and those that count leave less, a
run has no more of these than there was to do. -/
theorem countP_of_lowers {inv : σ → Prop} {ok : σ → ε → Prop} {counts : ε → Bool} (left : σ → ℕ)
    (hstep : ∀ s e, inv s → ok s e → inv (step s e))
    (hle : ∀ s e, inv s → ok s e → left (step s e) ≤ left s)
    (hlt : ∀ s e, inv s → ok s e → counts e = true → left (step s e) < left s)
    {s : σ} {es : List ε} (hs : inv s) (hok : Steps step ok s es) :
    es.countP counts+left (run step s es) ≤ left s := by
  induction es generalizing s with
  | nil => exact Nat.le_of_eq (Nat.zero_add _)
  | cons e es ih =>
    have hrest := ih (hstep s e hs hok.1) hok.2
    have hfirst := hle s e hs hok.1
    rw [List.countP_cons, run]
    split_ifs with hc
    · have hless := hlt s e hs hok.1 hc
      omega
    · omega

/-- The states of a run that goes on for ever. -/
def trace (step : σ → ε → σ) (s : σ) (es : ℕ → ε) : ℕ → σ
  | 0 => s
  | n+1 => step (trace step s es n) (es n)

theorem trace_keeps {inv : σ → Prop} (hstep : ∀ s e, inv s → inv (step s e)) {s : σ}
    {es : ℕ → ε} (hs : inv s) (n : ℕ) : inv (trace step s es n) := by
  induction n with
  | zero => exact hs
  | succ n ih => exact hstep _ _ ih

/-- While something can move, something moves in the end. -/
def Fair (step : σ → ε → σ) (moves : σ → ε → Prop) (s : σ) (es : ℕ → ε) : Prop :=
  ∀ n, (∃ e, moves (trace step s es n) e) →
    ∃ m, n ≤ m ∧ moves (trace step s es m) (es m)

/-- If something can move until the end and each move leaves less to do, a
fair run comes to the end. -/
theorem ends_of_fair {inv ended : σ → Prop} {moves : σ → ε → Prop} {left : σ → ℕ}
    (hstep : ∀ s e, inv s → inv (step s e))
    (hle : ∀ s e, inv s → left (step s e) ≤ left s)
    (hlt : ∀ s e, inv s → moves s e → left (step s e) < left s)
    (hlive : ∀ s, inv s → ended s ∨ ∃ e, moves s e)
    {s : σ} {es : ℕ → ε} (hs : inv s) (hfair : Fair step moves s es) :
    ∃ n, ended (trace step s es n) := by
  have hinv (n : ℕ) : inv (trace step s es n) := trace_keeps hstep hs n
  have hmono (n m : ℕ) (h : n ≤ m) :
      left (trace step s es m) ≤ left (trace step s es n) := by
    induction h with
    | refl => exact Nat.le_refl _
    | step h ih => exact Nat.le_trans (hle _ _ (hinv _)) ih
  have hend (k n : ℕ) (hk : left (trace step s es n) ≤ k) : ∃ n, ended (trace step s es n) := by
    induction k generalizing n with
    | zero =>
      rcases hlive _ (hinv n) with h | h
      · exact ⟨n,h⟩
      · obtain ⟨m,hm,hmove⟩ := hfair n h
        have hless := hlt _ _ (hinv m) hmove
        have hmore := hmono n m hm
        omega
    | succ k ih =>
      rcases hlive _ (hinv n) with h | h
      · exact ⟨n,h⟩
      · obtain ⟨m,hm,hmove⟩ := hfair n h
        have hless : left (trace step s es (m+1)) < left (trace step s es m) :=
          hlt _ _ (hinv m) hmove
        have hmore := hmono n m hm
        exact ih (m+1) (by omega)
  exact hend _ 0 (Nat.le_refl _)

end StepRun
