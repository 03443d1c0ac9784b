import MsgBus.Lib.StepRun
import MsgBus.Types

/-!
# Whether instances and hosts respond

A remote instance and a remote host each have a timeout that is reset when
something is heard of them; they are alive until it expires. Changes of that
are recorded by two functions each, which are compared with it here.
-/

set_option autoImplicit false

namespace MsgBus

inductive RespondingChange where
  | startedResponding | stoppedResponding
  deriving DecidableEq, Repr

/-- The status after the change. -/
def RespondingChange.alive : RespondingChange → Bool
  | .startedResponding => true
  | .stoppedResponding => false

/-- What an instance and a host have in common. The changes are listed in the
order in which they were added. -/
structure RespondingState where
  isAlive : RestartTimeout
  wasAlive : Bool := false
  changes : List RespondingChange := []
  deriving DecidableEq, Repr

namespace RespondingState

/-- A state is made with a timeout that has just been started. -/
def start (duration now : ℕ) : RespondingState := { isAlive := ⟨duration,now+duration⟩ }

def isAliveAt (s : RespondingState) (now : ℕ) : Bool := !s.isAlive.isExpired now

def update (s : RespondingState) (now : ℕ) : RespondingState :=
  let alive := s.isAlive.isExpired now
  if s.wasAlive ≠ alive then
    { s with
      wasAlive := alive
      changes := s.changes ++ [if alive then .startedResponding else .stoppedResponding] }
  else s

section Calls

variable {s : RespondingState} {now : ℕ}

theorem isExpired_eq : s.isAlive.isExpired now = !s.isAliveAt now := (Bool.not_not _).symm

theorem update_alive (h : s.isAliveAt now = true) (hw : s.wasAlive = false) :
    s.update now = s := by
  simp [update, isExpired_eq, h, hw]

/-- An expired state is reported as one that has started to respond. -/
theorem update_expired (h : s.isAliveAt now = false) (hw : s.wasAlive = false) :
    s.update now =
      { s with wasAlive := true, changes := s.changes ++ [.startedResponding] } := by
  simp [update, isExpired_eq, h, hw]

end Calls

end RespondingState

namespace RemoteInstanceState

def update (s : RespondingState) (now : ℕ) : RespondingState := s.update now

def noticeAlive (s : RespondingState) (now : ℕ) : RespondingState :=
  { s with
    changes := if !s.isAlive.isExpired now then s.changes ++ [.startedResponding] else s.changes
    isAlive := s.isAlive.reset now }

end RemoteInstanceState

namespace RemoteHostState

def update (s : RespondingState) (now : ℕ) : RespondingState := s.update now

def noticeAlive (s : RespondingState) (now : ℕ) : RespondingState :=
  { s with isAlive := s.isAlive.reset now }

end RemoteHostState

/-! ## Runs -/

inductive RespondingCall where
  | update | noticeAlive
  deriving DecidableEq, Repr

/-- A call and the time since the one before. -/
structure RespondingEvent where
  elapsed : ℕ
  call : RespondingCall
  deriving DecidableEq, Repr

/-- A state with what `is_alive` has been before and after the calls since a
change was added last (before all of them it was not there, thus not alive),
and whether it was already alive when it was noticed to be. -/
structure RespondingRun where
  now : ℕ
  state : RespondingState
  seen : List Bool := [false]
  noticed : Bool := false

namespace RespondingRun

def start (duration now : ℕ) : RespondingRun where
  now
  state := .start duration now

section Steps

variable (update noticeAlive : RespondingState → ℕ → RespondingState) (reported : Bool)

def called (s : RespondingRun) (e : RespondingEvent) : RespondingState :=
  match e.call with
  | .update => update s.state (s.now+e.elapsed)
  | .noticeAlive => noticeAlive s.state (s.now+e.elapsed)

def step (s : RespondingRun) (e : RespondingEvent) : RespondingRun :=
  let now := s.now+e.elapsed
  let before := s.state.isAliveAt now
  let state := s.called update noticeAlive e
  let after := state.isAliveAt now
  { now, state
    seen := if state.changes = s.state.changes then s.seen ++ [before,after] else [after]
    noticed := s.noticed || (e.call = .noticeAlive && before) }

/-- An added change tells what `is_alive` has become since the last one, the
changes alternate, and after an update the last one agrees with `is_alive`;
the parameter says whether there has to be one. -/
structure Agrees (s : RespondingRun) (e : RespondingEvent) : Prop where
  became : ∀ c ∈ (s.called update noticeAlive e).changes.drop s.state.changes.length,
    (s.called update noticeAlive e).isAliveAt (s.now+e.elapsed) = c.alive ∧
      (!c.alive) ∈ s.seen ++ [s.state.isAliveAt (s.now+e.elapsed)]
  alternate : (s.called update noticeAlive e).changes.IsChain (· ≠ ·)
  last : e.call = .update → match (s.called update noticeAlive e).changes.getLast? with
    | some c => c.alive = (s.called update noticeAlive e).isAliveAt (s.now+e.elapsed)
    | none => reported = false

end Steps

variable {reported : Bool}

/-- An update of an expired state reports that it responds. -/
theorem expired_update_disagrees (noticeAlive : RespondingState → ℕ → RespondingState)
    {s : RespondingRun} {elapsed : ℕ} (ha : s.state.isAliveAt (s.now+elapsed) = false)
    (hw : s.state.wasAlive = false) :
    ¬ Agrees RespondingState.update noticeAlive reported s ⟨elapsed,.update⟩ := by
  intro hagrees
  have hbecame := hagrees.became .startedResponding
  simp only [called, RespondingState.update_expired ha hw] at hbecame
  have halive := (hbecame (by simp)).1
  exact absurd (halive.symm.trans ha) (by decide)

/-! ### Instances -/

abbrev instanceStep : RespondingRun → RespondingEvent → RespondingRun :=
  step RemoteInstanceState.update RemoteInstanceState.noticeAlive

abbrev InstanceAgrees : Bool → RespondingRun → RespondingEvent → Prop :=
  Agrees RemoteInstanceState.update RemoteInstanceState.noticeAlive

/-- The instance is found alive by no more than one notice, and by each update,
which comes after that notice if there has to be a report. -/
def InstanceTimely (reported : Bool) (s : RespondingRun) (e : RespondingEvent) : Prop :=
  match e.call with
  | .update => s.state.isAliveAt (s.now+e.elapsed) = true ∧ (reported = true → s.noticed = true)
  | .noticeAlive => s.state.isAliveAt (s.now+e.elapsed) = false ∨ s.noticed = false

structure InstanceInv (s : RespondingRun) : Prop where
  wasAlive : s.state.wasAlive = false
  changes : s.state.changes = if s.noticed then [.startedResponding] else []
  seen : s.noticed = false → false ∈ s.seen
  due : s.state.isAlive.due ≤ s.now+s.state.isAlive.duration

theorem instance_start (duration now : ℕ) : InstanceInv (start duration now) :=
  ⟨rfl,rfl,fun _ => List.mem_singleton_self false,le_rfl⟩

/-- A state that is alive stays so when its timeout is reset. -/
theorem InstanceInv.positive {s : RespondingRun} {elapsed : ℕ} (h : InstanceInv s)
    (ha : s.state.isAliveAt (s.now+elapsed) = true) : 0 < s.state.isAlive.duration := by
  have hdue := h.due
  have hlate : s.now+elapsed < s.state.isAlive.due := by
    simpa [RespondingState.isAliveAt, RestartTimeout.isExpired] using ha
  omega

theorem instance_update_agrees_iff {s : RespondingRun} {elapsed : ℕ} (h : InstanceInv s) :
    InstanceAgrees reported s ⟨elapsed,.update⟩ ↔
      InstanceTimely reported s ⟨elapsed,.update⟩ := by
  have hchanges := h.changes
  cases ha : s.state.isAliveAt (s.now+elapsed) with
  | false =>
    simp only [InstanceTimely, ha, Bool.false_eq_true, false_and, iff_false]
    exact expired_update_disagrees _ ha h.wasAlive
  | true =>
    have hsame : s.called RemoteInstanceState.update RemoteInstanceState.noticeAlive
        ⟨elapsed,.update⟩ = s.state := RespondingState.update_alive ha h.wasAlive
    simp only [InstanceTimely, ha, true_and]
    constructor
    · intro hagrees
      have hlast := hagrees.last rfl
      rw [hsame, hchanges] at hlast
      intro hr
      by_contra hn
      simp [hn, hr] at hlast
    · intro hn
      refine ⟨?_,?_,fun _ => ?_⟩
      · rw [hsame]
        simp
      · rw [hsame, hchanges]
        split_ifs <;> simp
      · rw [hsame, hchanges, ha]
        cases hnoticed : s.noticed with
        | true => rfl
        | false =>
          rw [hnoticed] at hn
          exact Bool.eq_false_iff.mpr fun hr => absurd (hn hr) (by decide)

theorem instance_notice_agrees_iff {s : RespondingRun} {elapsed : ℕ} (h : InstanceInv s) :
    InstanceAgrees reported s ⟨elapsed,.noticeAlive⟩ ↔
      InstanceTimely reported s ⟨elapsed,.noticeAlive⟩ := by
  have hchanges := h.changes
  cases ha : s.state.isAliveAt (s.now+elapsed) with
  | false =>
    simp only [InstanceTimely, ha, true_or, iff_true]
    refine ⟨?_,?_,fun hu => by cases hu⟩
    · simp [called, RemoteInstanceState.noticeAlive, RespondingState.isExpired_eq, ha]
    · simp only [called, RemoteInstanceState.noticeAlive, RespondingState.isExpired_eq, ha,
        hchanges, Bool.not_not, Bool.false_eq_true, if_false]
      split_ifs <;> simp
  | true =>
    have hpos := h.positive ha
    have hadded : (s.called RemoteInstanceState.update RemoteInstanceState.noticeAlive
        ⟨elapsed,.noticeAlive⟩).changes = s.state.changes ++ [.startedResponding] := by
      simp [called, RemoteInstanceState.noticeAlive, RespondingState.isExpired_eq, ha]
    simp only [InstanceTimely, ha, Bool.true_eq_false, false_or]
    constructor
    · intro hagrees
      have halternate := hagrees.alternate
      by_contra hn
      rw [hadded, hchanges, if_pos (by simpa using hn)] at halternate
      simp at halternate
    · intro hn
      rw [hn, if_neg (by decide)] at hchanges
      refine ⟨?_,?_,fun hu => by cases hu⟩
      · rw [hadded, hchanges]
        intro c hc
        obtain rfl : c = .startedResponding := by simpa using hc
        refine ⟨?_,List.mem_append_left _ (h.seen hn)⟩
        have hlate : ¬ s.now+elapsed+s.state.isAlive.duration ≤ s.now+elapsed := by omega
        change (!decide (s.now+elapsed+s.state.isAlive.duration ≤ s.now+elapsed)) = true
        rw [decide_eq_false hlate]
        rfl
      · rw [hadded, hchanges]
        exact .singleton _

theorem instance_agrees_iff {s : RespondingRun} {e : RespondingEvent} (h : InstanceInv s) :
    InstanceAgrees reported s e ↔ InstanceTimely reported s e := by
  obtain ⟨elapsed,call⟩ := e
  cases call with
  | update => exact instance_update_agrees_iff h
  | noticeAlive => exact instance_notice_agrees_iff h

theorem instance_step {s : RespondingRun} {e : RespondingEvent} (h : InstanceInv s)
    (hok : InstanceTimely reported s e) : InstanceInv (instanceStep s e) := by
  obtain ⟨hwas,hchanges,hseen,hdue⟩ := h
  obtain ⟨elapsed,call⟩ := e
  cases call with
  | update =>
    have halive := hok.1
    have hstate : (instanceStep s ⟨elapsed,.update⟩).state = s.state :=
      RespondingState.update_alive halive hwas
    refine ⟨hstate ▸ hwas,?_,?_,?_⟩
    · rw [hstate, hchanges]
      simp [step]
    · intro hn
      have hn' : s.noticed = false := by simpa [step] using hn
      have hchanged : (s.called RemoteInstanceState.update RemoteInstanceState.noticeAlive
          ⟨elapsed,.update⟩).changes = s.state.changes := congrArg _ hstate
      simp [step, hchanged, hseen hn']
    · rw [hstate]
      simp only [step]
      omega
  | noticeAlive =>
    cases ha : s.state.isAliveAt (s.now+elapsed) with
    | false =>
      refine ⟨hwas,?_,?_,le_rfl⟩
      · simp [step, called, RemoteInstanceState.noticeAlive, RespondingState.isExpired_eq, ha,
          hchanges]
      · intro hn
        have hn' : s.noticed = false := by simpa [step, ha] using hn
        simp [step, called, RemoteInstanceState.noticeAlive, RespondingState.isExpired_eq, ha,
          hseen hn']
    | true =>
      have hn : s.noticed = false := by simpa [InstanceTimely, ha] using hok
      refine ⟨hwas,?_,?_,le_rfl⟩
      · simp [step, called, RemoteInstanceState.noticeAlive, RespondingState.isExpired_eq, ha,
          hchanges, hn]
      · intro hno
        simp [step, ha] at hno

/-! ### Hosts -/

abbrev hostStep : RespondingRun → RespondingEvent → RespondingRun :=
  step RemoteHostState.update RemoteHostState.noticeAlive

abbrev HostAgrees : Bool → RespondingRun → RespondingEvent → Prop :=
  Agrees RemoteHostState.update RemoteHostState.noticeAlive

/-- The host is found alive by each update, if there need not be a report. -/
def HostTimely (reported : Bool) (s : RespondingRun) (e : RespondingEvent) : Prop :=
  e.call = .update → s.state.isAliveAt (s.now+e.elapsed) = true ∧ reported = false

structure HostInv (s : RespondingRun) : Prop where
  wasAlive : s.state.wasAlive = false
  changes : s.state.changes = []

theorem host_agrees_iff {s : RespondingRun} {e : RespondingEvent} (h : HostInv s) :
    HostAgrees reported s e ↔ HostTimely reported s e := by
  obtain ⟨elapsed,call⟩ := e
  cases call with
  | noticeAlive =>
    simp only [HostTimely, reduceCtorEq, false_implies, iff_true]
    refine ⟨?_,?_,fun hu => by cases hu⟩
    · simp [called, RemoteHostState.noticeAlive]
    · simp [called, RemoteHostState.noticeAlive, h.changes]
  | update =>
    cases ha : s.state.isAliveAt (s.now+elapsed) with
    | false =>
      simp only [HostTimely, ha, Bool.false_eq_true, false_and, forall_const, iff_false]
      exact expired_update_disagrees _ ha h.wasAlive
    | true =>
      have hsame : s.called RemoteHostState.update RemoteHostState.noticeAlive
          ⟨elapsed,.update⟩ = s.state := RespondingState.update_alive ha h.wasAlive
      simp only [HostTimely, ha, true_and, forall_const]
      constructor
      · intro hagrees
        have hlast := hagrees.last rfl
        rwa [hsame, h.changes] at hlast
      · intro hr
        refine ⟨?_,?_,fun _ => ?_⟩
        · rw [hsame]
          simp
        · rw [hsame, h.changes]
          exact .nil
        · rwa [hsame, h.changes]

theorem host_step {s : RespondingRun} {e : RespondingEvent} (h : HostInv s)
    (hok : HostTimely reported s e) : HostInv (hostStep s e) := by
  obtain ⟨elapsed,call⟩ := e
  cases call with
  | noticeAlive => exact ⟨h.wasAlive,h.changes⟩
  | update =>
    have hstate : (hostStep s ⟨elapsed,.update⟩).state = s.state :=
      RespondingState.update_alive (hok rfl).1 h.wasAlive
    exact ⟨hstate ▸ h.wasAlive,hstate ▸ h.changes⟩

/-- Added changes match `is_alive` in just those runs that update a state only
while it is alive, and in which no more than one notice finds an instance so.
If there has to be a report, a host must not be updated at all and an instance
only after that notice. -/
theorem responding_changes_iff (reported : Bool) (duration now : ℕ) (es : List RespondingEvent) :
    (StepRun.Steps instanceStep (InstanceAgrees reported) (start duration now) es ↔
      StepRun.Steps instanceStep (InstanceTimely reported) (start duration now) es) ∧
    (StepRun.Steps hostStep (HostAgrees reported) (start duration now) es ↔
      StepRun.Steps hostStep (HostTimely reported) (start duration now) es) := by
  have hinstance (s : RespondingRun) (e : RespondingEvent) (h : InstanceInv s) :
      InstanceAgrees reported s e ↔ InstanceTimely reported s e := instance_agrees_iff h
  have hhost (s : RespondingRun) (e : RespondingEvent) (h : HostInv s) :
      HostAgrees reported s e ↔ HostTimely reported s e := host_agrees_iff h
  constructor
  · exact StepRun.steps_iff hinstance (fun s e h hok => instance_step h hok)
      (instance_start duration now)
  · exact StepRun.steps_iff hhost (fun s e h hok => host_step h hok) ⟨rfl,rfl⟩

/-- An expired host, and an expired instance, is reported to respond. -/
theorem expired_reported : ¬ ∀ es : List RespondingEvent,
    StepRun.Steps instanceStep (InstanceAgrees false) (start 180000 0) es ∧
      StepRun.Steps hostStep (HostAgrees false) (start 300000 0) es := by
  intro h
  have hagrees := (h [⟨300000,.update⟩]).2.1
  have hbecame := hagrees.became .startedResponding (by decide)
  exact absurd hbecame.1 (by decide)

end RespondingRun

end MsgBus
