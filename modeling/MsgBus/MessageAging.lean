import MsgBus.Lib.StepRun
import MsgBus.MessageStorage

/-!
# How messages get older

The time a message waits in a storage is narrowed to a 16-bit number of
hundredths of a second, rounded to quarters of a second and added to its age,
which stays at the greatest value of its type when the sum does not fit.
-/

set_option autoImplicit false

namespace MsgBus

open StepRun

/-- `duration_cast` of a number of nanoseconds. -/
def messageAge (elapsed : ℕ) : MessageAge := Int16.ofNat (elapsed/10000000)

theorem StoredMessage.age_eq (entry : StoredMessage) (now : ℕ) :
    entry.age now = messageAge ((now-entry.insertTime)*1000000) := by
  rw [StoredMessage.age, messageAge, show 10000000 = 10*1000000 by rfl,
    Nat.mul_div_mul_right _ _ (by decide)]

namespace MessageAging

/-- The age after some quarters of a second were added. -/
def saturated (age added : Int) : Int :=
  if -128 ≤ age+added ∧ age+added ≤ 127 then age+added else 127

/-- The hundredths of a second in a number of nanoseconds, as a signed 16-bit number. -/
def wrapped (elapsed : ℕ) : Int := Int.bmod (elapsed/10000000 : ℕ) 65536

def addedQuarters (hundredths : Int) : Int := (hundredths+20).tdiv 25

theorem saturated_toInt (sum : Int) :
    (if -128 ≤ sum ∧ sum ≤ 127 then Int8.ofInt sum else 127).toInt =
      if -128 ≤ sum ∧ sum ≤ 127 then sum else 127 := by
  split_ifs with h
  · exact Int8.toInt_ofInt_of_le h.1 (Int.lt_of_le_of_lt h.2 (by decide))
  · rfl

theorem addAge_eq (info : MessageInfo) (elapsed : ℕ) :
    (info.addAge (messageAge elapsed)).ageQuarterSeconds.toInt =
      saturated info.ageQuarterSeconds.toInt (addedQuarters (wrapped elapsed)) := by
  have hw : wrapped elapsed = (messageAge elapsed).toInt := Int16.toInt_ofNat'.symm
  rw [hw]
  exact saturated_toInt _

theorem wrapped_of_lt {elapsed : ℕ} (h : elapsed < 327680000000) :
    wrapped elapsed = (elapsed/10000000 : ℕ) := by
  have hd : elapsed/10000000 < 32768 := by omega
  exact Int.bmod_eq_of_le (by omega) (by omega)

theorem addedQuarters_of_nonneg {hundredths : Int} (h : 0 ≤ hundredths) :
    addedQuarters hundredths = (hundredths+20)/25 :=
  Int.tdiv_eq_ediv_of_nonneg (by omega)

theorem saturated_le (age q : Int) : saturated age q ≤ 127 := by
  unfold saturated
  split_ifs <;> omega

theorem saturated_mono {age q q' : Int} (hage : -128 ≤ age) (hq : 0 ≤ q) (h : q ≤ q') :
    saturated age q ≤ saturated age q' := by
  unfold saturated
  split_ifs <;> omega

/-- The wait leaves the message at least as old as it was, and as any shorter wait does. -/
def Older (info : MessageInfo) (elapsed : ℕ) : Prop :=
  info.ageQuarterSeconds ≤ (info.addAge (messageAge elapsed)).ageQuarterSeconds ∧
    ∀ earlier ≤ elapsed, (info.addAge (messageAge earlier)).ageQuarterSeconds ≤
      (info.addAge (messageAge elapsed)).ageQuarterSeconds

/-- The hundredths of a second fit, or the age leaves its range or comes to its end. -/
def InRange (info : MessageInfo) (elapsed : ℕ) : Prop :=
  elapsed < 327680000000 ∨
    let sum := info.ageQuarterSeconds.toInt+addedQuarters (wrapped elapsed)
    sum < -128 ∨ 127 ≤ sum

theorem inRange_iff (info : MessageInfo) {elapsed : ℕ} (h : 327680000000 ≤ elapsed) :
    InRange info elapsed ↔
      saturated info.ageQuarterSeconds.toInt (addedQuarters (wrapped elapsed)) = 127 := by
  simp only [InRange, saturated]
  split_ifs <;> omega

/-- The longest wait that is not wrapped makes every message as old as can be. -/
theorem longest_wait (info : MessageInfo) :
    (info.addAge (messageAge 327679999999)).ageQuarterSeconds.toInt = 127 := by
  have hage := info.ageQuarterSeconds.le_toInt
  have hq : addedQuarters (wrapped 327679999999) = 1311 := by decide
  rw [addAge_eq, hq, saturated, if_neg (by omega)]

theorem older_iff (info : MessageInfo) (elapsed : ℕ) :
    Older info elapsed ↔ InRange info elapsed := by
  have hage := info.ageQuarterSeconds.le_toInt
  simp only [Older, Int8.le_iff_toInt_le]
  rcases Nat.lt_or_ge elapsed 327680000000 with h | h
  · simp only [InRange, h, true_or, iff_true]
    have hmono (earlier : ℕ) (he : earlier ≤ elapsed) :
        (info.addAge (messageAge earlier)).ageQuarterSeconds.toInt ≤
          (info.addAge (messageAge elapsed)).ageQuarterSeconds.toInt := by
      rw [addAge_eq, addAge_eq, wrapped_of_lt (by omega), wrapped_of_lt h,
        addedQuarters_of_nonneg (by omega), addedQuarters_of_nonneg (by omega)]
      exact saturated_mono hage (by omega) (by omega)
    refine ⟨?_,hmono⟩
    have h0 := hmono 0 (Nat.zero_le _)
    have hnow : (info.addAge (messageAge 0)).ageQuarterSeconds.toInt =
        info.ageQuarterSeconds.toInt := by
      have hle := info.ageQuarterSeconds.toInt_lt
      rw [addAge_eq, show addedQuarters (wrapped 0) = 0 by decide, saturated,
        if_pos (by omega), Int.add_zero]
    rwa [hnow] at h0
  · rw [inRange_iff info h]
    constructor
    · rintro ⟨-,hmono⟩
      have hlast := hmono 327679999999 (by omega)
      rw [longest_wait, addAge_eq] at hlast
      exact Int.le_antisymm (saturated_le _ _) hlast
    · intro hsat
      rw [addAge_eq, hsat]
      refine ⟨by have := info.ageQuarterSeconds.toInt_lt; omega,fun earlier _ => ?_⟩
      rw [addAge_eq]
      exact saturated_le _ _

inductive Step where
  | wait (elapsed : ℕ)
  | forward
  deriving DecidableEq, Repr

def step (info : MessageInfo) : Step → MessageInfo
  | .wait elapsed => info.addAge (messageAge elapsed)
  | .forward => info.addHop

def Ages (info : MessageInfo) : Step → Prop
  | .wait elapsed => Older info elapsed
  | .forward => True

def Fits (info : MessageInfo) : Step → Prop
  | .wait elapsed => InRange info elapsed
  | .forward => True

theorem ages_iff (info : MessageInfo) (s : Step) : Ages info s ↔ Fits info s := by
  cases s with
  | wait elapsed => exact older_iff info elapsed
  | forward => exact Iff.rfl

/-- What is too old at some point of the run is so at each later one. -/
def StaysTooOld (info : MessageInfo) (steps : List Step) : Prop :=
  ∀ before after, steps = before ++ after → (run step info before).tooOld = true →
    Always step (fun info => info.tooOld = true) (run step info before) after

theorem tooOld_mono {info info' : MessageInfo} (hp : info'.priority = info.priority)
    (hage : info.ageQuarterSeconds ≤ info'.ageQuarterSeconds) (h : info.tooOld = true) :
    info'.tooOld = true := by
  have habove {limit : Int8} (hl : limit < info.ageQuarterSeconds) :
      limit < info'.ageQuarterSeconds := by
    rw [Int8.lt_iff_toInt_lt] at hl ⊢
    rw [Int8.le_iff_toInt_le] at hage
    omega
  simp only [MessageInfo.tooOld, hp] at h ⊢
  cases hq : info.priority with
  | idle | low | normal =>
    rw [hq] at h
    exact decide_eq_true (habove (of_decide_eq_true h))
  | high =>
    rw [hq] at h
    have hmax := info'.ageQuarterSeconds.toInt_lt
    rw [of_decide_eq_true h, Int8.le_iff_toInt_le] at hage
    exact decide_eq_true (Int8.toInt_inj.mp (Int.le_antisymm (Int.lt_add_one_iff.mp hmax) hage))
  | critical =>
    rw [hq] at h
    cases h

theorem step_tooOld {info : MessageInfo} {s : Step} (hs : Ages info s) (h : info.tooOld = true) :
    (step info s).tooOld = true := by
  cases s with
  | wait elapsed =>
    have hp : (info.addAge (messageAge elapsed)).priority = info.priority := rfl
    exact tooOld_mono hp hs.1 h
  | forward => exact h

theorem staysTooOld {info : MessageInfo} {steps : List Step} (hs : Steps step Ages info steps) :
    StaysTooOld info steps := by
  rintro before after rfl h
  have hstep (info : MessageInfo) (s : Step) (hold : info.tooOld = true) (ha : Ages info s) :
      (step info s).tooOld = true := step_tooOld ha hold
  exact always_of_invariant hstep h (steps_append.mp hs).2

/-- Waiting makes messages older, in every run and in none but those whose
waits fit into the number of hundredths of a second or saturate the age. -/
theorem run_ages_iff (info : MessageInfo) (steps : List Step) :
    Steps step Ages info steps ∧ StaysTooOld info steps ↔ Steps step Fits info steps := by
  constructor
  · rintro ⟨h,-⟩
    exact steps_mono (fun info s => (ages_iff info s).mp) h
  · intro h
    have hs : Steps step Ages info steps := steps_mono (fun info s => (ages_iff info s).mpr) h
    exact ⟨hs,staysTooOld hs⟩

/-- After eleven minutes a message that was too old is not any more. -/
theorem waiting_rejuvenates : ¬ ∀ (info : MessageInfo) (steps : List Step),
    Steps step Ages info steps ∧ StaysTooOld info steps := by
  intro h
  have hold := (h { ageQuarterSeconds := 124 } [.wait 654000000000]).2 [] _ rfl (by decide)
  exact absurd (always_last hold) (by decide)

end MessageAging

end MsgBus
