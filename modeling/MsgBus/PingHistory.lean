import MsgBus.Lib.Alternation
import MsgBus.Lib.StepRun
import MsgBus.RespondingStates
import MsgBus.SubscriptionViews

/-!
# The ping history of a node

A node keeps one bit for each of its last eight pings and notices. It responds
while one of them is set; a change is added when that becomes true or false.
-/

set_option autoImplicit false

namespace MsgBus

open Alternation StepRun

/-- A node with its pings. Changes of its response rate and the ends of its
responses are flags as the others are; the changes of whether it responds are
also listed in order, and so are those that are added to its instance. -/
structure PingedNode extends RemoteNode where
  pingsSent : ℕ := 0
  pingsResponded : ℕ := 0
  pingsTimeouted : ℕ := 0
  lastPingTime : ℕ := 0
  lastPingTimeout : ℕ := 0
  stoppedResponding : Bool := false
  responseRate : Bool := false
  responding : List RespondingChange := []
  instanceResponding : List RespondingChange := []

namespace PingedNode

def isResponsive (node : PingedNode) : Bool := node.pingBits ≠ 0

def clear (_ : PingedNode) : PingedNode := {}

def setInstanceId (node : PingedNode) (instanceId : ℕ) : PingedNode :=
  { node with toRemoteNode := node.toRemoteNode.setInstanceId instanceId }

def noticeAlive (node : PingedNode) : PingedNode :=
  let remote := node.toRemoteNode.noticeAlive
  let started := if decide (node.pingBits ≠ 0) ≠ decide (remote.pingBits ≠ 0) then
      [RespondingChange.startedResponding]
    else []
  { node with
    toRemoteNode := remote
    responding := node.responding ++ started
    instanceResponding := if node.instanceId ≠ 0 then node.instanceResponding ++ started
      else node.instanceResponding }

def pingResponse (node : PingedNode) (age : ℕ) : PingedNode :=
  let pingBits := (node.pingBits <<< 1) ||| 1
  let started : Bool := decide (node.pingBits ≠ 0) ≠ decide (pingBits ≠ 0)
  { node with
    pingBits
    lastPingTime := age
    pingsSent := node.pingsSent+1
    pingsResponded := node.pingsResponded+1
    changes := if started then { node.changes with startedResponding := true } else node.changes
    responding := if started then node.responding ++ [.startedResponding] else node.responding
    responseRate := true }

def pingTimeout (node : PingedNode) (age : ℕ) : PingedNode :=
  let pingBits := node.pingBits <<< 1
  let stopped : Bool := decide (node.pingBits ≠ 0) ≠ decide (pingBits ≠ 0)
  { node with
    pingBits
    lastPingTimeout := age
    pingsSent := node.pingsSent+1
    pingsTimeouted := node.pingsTimeouted+1
    stoppedResponding := if stopped then true else node.stoppedResponding
    responding := if stopped then node.responding ++ [.stoppedResponding] else node.responding
    responseRate := true }

/-! ## Runs -/

inductive Event where
  | pingResponse (age : ℕ)
  | pingTimeout (age : ℕ)
  | noticeAlive
  | setInstanceId (instanceId : ℕ)

def step (node : PingedNode) : Event → PingedNode
  | .pingResponse age => node.pingResponse age
  | .pingTimeout age => node.pingTimeout age
  | .noticeAlive => node.noticeAlive
  | .setInstanceId instanceId => node.setInstanceId instanceId

/-- Whether an event that is recorded in the history is a positive one. -/
def Event.positive : Event → Option Bool
  | .pingResponse _ => some true
  | .pingTimeout _ => some false
  | .noticeAlive => some true
  | .setInstanceId _ => none

/-- What was recorded, the last event first. -/
def history (es : List Event) : List Bool := (es.filterMap Event.positive).reverse

theorem history_concat (es : List Event) (e : Event) :
    history (es ++ [e]) = e.positive.toList ++ history es := by
  cases h : e.positive <;> simp [history, h]

/-! ### The bits -/

/-- The bits are the last eight entries of the history. -/
def Holds (pingBits : UInt8) (history : List Bool) : Prop :=
  ∀ i < 8, pingBits.toBitVec.getLsbD i = (history[i]?).getD false

theorem getLsbD_shift (pingBits : UInt8) {i : ℕ} (hi : i < 8) :
    (pingBits <<< 1).toBitVec.getLsbD i = (!decide (i = 0) && pingBits.toBitVec.getLsbD (i-1)) := by
  have hone : (UInt8.toBitVec 1 % 8).toNat = 1 := rfl
  rw [UInt8.toBitVec_shiftLeft, BitVec.shiftLeft_eq', BitVec.getLsbD_shiftLeft, hone]
  simp only [hi, decide_true, Bool.true_and, Nat.lt_one_iff]

theorem Holds.positive {pingBits : UInt8} {history : List Bool} (h : Holds pingBits history) :
    Holds ((pingBits <<< 1) ||| 1) (true::history) := by
  intro i hi
  rw [UInt8.toBitVec_or, BitVec.getLsbD_or, getLsbD_shift pingBits hi]
  cases i with
  | zero => rfl
  | succ i =>
    rw [List.getElem?_cons_succ, ← h i (by omega)]
    simp [BitVec.getLsbD_one]

/-- The event that is one too many falls out at the other end. -/
theorem Holds.negative {pingBits : UInt8} {history : List Bool} (h : Holds pingBits history) :
    Holds (pingBits <<< 1) (false::history) := by
  intro i hi
  rw [getLsbD_shift pingBits hi]
  cases i with
  | zero => rfl
  | succ i =>
    rw [List.getElem?_cons_succ, ← h i (by omega)]
    simp

/-- The responses so far follow the status, and each ping was responded to or
timeouted. -/
structure Inv (node : PingedNode) (es : List Event) : Prop where
  holds : Holds node.pingBits (history es)
  reports : Reports node.isResponsive (node.responding.map RespondingChange.alive)
  counted : node.pingsSent = node.pingsResponded+node.pingsTimeouted

/-- A change is added when the node begins to respond or stops. -/
def ReportsEdges (node : PingedNode) (e : Event) : Prop :=
  (node.step e).responding.map RespondingChange.alive =
    node.responding.map RespondingChange.alive ++
      edge node.isResponsive (node.step e).isResponsive

theorem step_reportsEdges (node : PingedNode) (e : Event) : node.ReportsEdges e := by
  cases e with
  | setInstanceId instanceId =>
    simp only [ReportsEdges, step, setInstanceId, RemoteNode.setInstanceId, isResponsive]
    split_ifs <;> simp [edge]
  | noticeAlive =>
    simp only [ReportsEdges, step, noticeAlive, RemoteNode.noticeAlive, isResponsive]
    by_cases hwas : node.pingBits = 0 <;> simp [hwas, edge, RespondingChange.alive]
  | pingResponse age =>
    simp only [ReportsEdges, step, pingResponse, isResponsive]
    by_cases hwas : node.pingBits = 0 <;> simp [hwas, edge, RespondingChange.alive]
  | pingTimeout age =>
    simp only [ReportsEdges, step, pingTimeout, isResponsive]
    by_cases hwas : node.pingBits = 0
    · simp [hwas, edge]
    · by_cases hnow : node.pingBits <<< 1 = 0 <;> simp [hwas, hnow, edge, RespondingChange.alive]

theorem step_holds {node : PingedNode} {es : List Event} (e : Event)
    (h : Holds node.pingBits (history es)) :
    Holds (node.step e).pingBits (history (es ++ [e])) := by
  rw [history_concat]
  cases e with
  | setInstanceId instanceId =>
    simp only [step, setInstanceId, RemoteNode.setInstanceId]
    split_ifs <;> exact h
  | noticeAlive => exact h.positive
  | pingResponse age => exact h.positive
  | pingTimeout age => exact h.negative

theorem step_counted {node : PingedNode} (e : Event)
    (h : node.pingsSent = node.pingsResponded+node.pingsTimeouted) :
    (node.step e).pingsSent = (node.step e).pingsResponded+(node.step e).pingsTimeouted := by
  cases e with
  | setInstanceId instanceId => exact h
  | noticeAlive => exact h
  | pingResponse age =>
    simp only [step, pingResponse]
    omega
  | pingTimeout age =>
    simp only [step, pingTimeout]
    omega

theorem Inv.step {node : PingedNode} {es : List Event} (h : Inv node es) (e : Event) :
    Inv (node.step e) (es ++ [e]) := by
  refine ⟨step_holds e h.holds,?_,step_counted e h.counted⟩
  rw [step_reportsEdges]
  exact h.reports.edge _

theorem Inv.run {node : PingedNode} {ds : List Event} (h : Inv node ds) (es : List Event) :
    Inv (run PingedNode.step node es) (ds ++ es) := by
  induction es generalizing node ds with
  | nil => rwa [List.append_nil]
  | cons e es ih =>
    have hrest := ih (h.step e)
    rwa [List.append_assoc] at hrest

end PingedNode

end MsgBus
