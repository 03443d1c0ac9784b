import MsgBus.BlobTransfer
import MsgBus.ReceiverRun
import MsgBus.TargetMaps

/-!
# Runs without notes

The runs of the receivers note what targets have stored and which fragments
were merged. Without these notes they are runs of the manipulators as they
are: each step forgets to the same step, so each run does.
-/

set_option autoImplicit false

namespace MsgBus.PlainRuns

open BlobManipulator TargetMap

/-- The target without its notes. -/
def plain {τ : Type} (l : StoreLog τ) : τ := l.io

theorem plain_map {τ : Type} [TargetBlobIo τ] : TargetMap (fun l : StoreLog τ => plain l) :=
  StoreLog.forget

section Receiver

open ReceiverRun

variable {ς τ : Type}

structure Receiver (ς τ : Type) where
  manipulator : BlobManipulator ς τ
  handed : List (Completion τ) := []

def forget (s : ReceiverRun.Receiver ς τ) : Receiver ς τ :=
  ⟨onManipulator plain s.manipulator,s.handed.map (onCompletion plain)⟩

theorem noted_plain (getIo : TargetIoGetter τ) : onGetter plain (noted getIo) = getIo := by
  funext msgId totalSize
  exact (Option.map_map _ _ _).trans (congrFun Option.map_id _)

variable [TargetBlobIo τ]

theorem pushNoted_plain (m : BlobManipulator ς (StoreLog τ)) (clk : Clock)
    (getIo : TargetIoGetter τ) (f : IncomingFragment) :
    onManipulator plain (pushNoted m clk getIo f) =
      (onManipulator plain m).pushIncomingFragment clk getIo f := by
  have hpush := pushIncomingFragment_map plain_map m clk (noted getIo) f
  rw [noted_plain] at hpush
  rw [hpush, pushNoted]
  cases mergeSite m clk (noted getIo) f with
  | none => rfl
  | some site =>
    have htag := ManipulatorRules.map_modify (m.pushIncomingFragment clk (noted getIo) f).incoming
      site.1 (tagMerged f) (onPending plain) (fun _ _ => rfl)
    exact congrArg (fun incoming =>
      { onManipulator plain (m.pushIncomingFragment clk (noted getIo) f) with incoming }) htag

variable [SourceBlobIo ς]

/-- The operations of the manipulator itself. -/
def step (s : Receiver ς τ) : Event τ → Receiver ς τ
  | .expectIncoming clk msgId sourceId targetBlobId io maxTime =>
    { s with
      manipulator := s.manipulator.expectIncoming clk msgId sourceId targetBlobId io maxTime }
  | .pushIncomingFragment clk getIo f =>
    { s with manipulator := s.manipulator.pushIncomingFragment clk getIo f }
  | .processPrepare ser clk message =>
    { s with manipulator := s.manipulator.processPrepare ser clk message }
  | .cancelIncoming targetBlobId =>
    { s with manipulator := (s.manipulator.cancelIncoming targetBlobId).2 }
  | .update ser clk doSend maxMessageSize =>
    { s with manipulator := (s.manipulator.update ser clk doSend maxMessageSize).manipulator }
  | .fetchAll clk =>
    ⟨(s.manipulator.fetchAll clk).1,s.handed ++ (s.manipulator.fetchAll clk).2⟩
  | .handleComplete clk =>
    ⟨(s.manipulator.handleComplete clk).1,s.handed ++ (s.manipulator.handleComplete clk).2⟩

theorem forget_step (s : ReceiverRun.Receiver ς τ) (e : Event τ) :
    forget (ReceiverRun.step s e) = step (forget s) e := by
  cases e with
  | expectIncoming clk msgId sourceId targetBlobId io maxTime =>
    exact congrArg (fun m => (⟨m,_⟩ : Receiver ς τ)) (expectIncoming_map s.manipulator clk msgId
      sourceId targetBlobId (StoreLog.fresh io) maxTime).symm
  | pushIncomingFragment clk getIo f =>
    exact congrArg (fun m => (⟨m,_⟩ : Receiver ς τ)) (pushNoted_plain s.manipulator clk getIo f)
  | processPrepare ser clk message =>
    exact congrArg (fun m => (⟨m,_⟩ : Receiver ς τ))
      (processPrepare_map plain_map s.manipulator ser clk message).symm
  | cancelIncoming targetBlobId =>
    exact congrArg (fun r => (⟨r.2,_⟩ : Receiver ς τ))
      (cancelIncoming_map plain_map s.manipulator targetBlobId).symm
  | update ser clk doSend maxMessageSize =>
    exact congrArg (fun r => (⟨r.manipulator,_⟩ : Receiver ς τ))
      (update_map plain_map s.manipulator ser clk doSend maxMessageSize).symm
  | fetchAll clk =>
    simp only [forget, ReceiverRun.step, step, hand, fetchAll_map plain_map, List.map_append]
  | handleComplete clk =>
    simp only [forget, ReceiverRun.step, step, hand, handleComplete_map plain_map,
      List.map_append]

/-- A noted run of a receiver is a run of its manipulator. -/
theorem forget_run (s : ReceiverRun.Receiver ς τ) (es : List (Event τ)) :
    forget (StepRun.run ReceiverRun.step s es) = StepRun.run step (forget s) es :=
  StepRun.run_map forget forget_step s es

end Receiver

section Transfer

open BlobTransfer

structure Transfer where
  sender : BlobManipulator BufferBlobIo BufferBlobIo
  receiver : BlobManipulator BufferBlobIo BufferBlobIo
  fragments : List MessageView := []
  resends : List MessageView := []
  handed : List (Completion BufferBlobIo) := []

def forgetTransfer (t : BlobTransfer.Transfer) : Transfer :=
  ⟨t.sender,onManipulator plain t.receiver,t.fragments,t.resends,
    (reports t).map (onCompletion plain)⟩

def handOver (t : Transfer)
    (r : BlobManipulator BufferBlobIo BufferBlobIo × List (Completion BufferBlobIo)) : Transfer :=
  { t with receiver := r.1, handed := r.2.reverse ++ t.handed }

/-- The operations of the two manipulators and the channel between them. -/
def stepTransfer (ser : BlobSerializer) (sourceId : EndpointId) (t : Transfer) :
    BlobTransfer.Event → Transfer
  | .pushOutgoing clk msgId targetId targetBlobId src maxTime options priority =>
    { t with
      sender := (t.sender.pushOutgoing clk msgId sourceId targetId targetBlobId src maxTime
        options priority).2 }
  | .processOutgoing clk doSend maxMessageSize maxMessages =>
    let r := t.sender.processOutgoing ser clk doSend maxMessageSize maxMessages
    { t with sender := r.1, fragments := t.fragments ++ offered r.2 }
  | .updateSender clk doSend maxMessageSize =>
    { t with sender := (t.sender.update ser clk doSend maxMessageSize).manipulator }
  | .updateReceiver clk doSend maxMessageSize =>
    let r := t.receiver.update ser clk doSend maxMessageSize
    { t with receiver := r.manipulator, resends := t.resends ++ offered r.sends }
  | .processResend i =>
    match t.resends[i]? with
    | none => t
    | some message => { t with sender := t.sender.processResend ser message }
  | .processIncoming clk i =>
    match t.fragments[i]? with
    | none => t
    | some message =>
      { t with receiver := (t.receiver.processIncomingBuffer ser clk message).2 }
  | .fetchAll clk => handOver t (t.receiver.fetchAll clk)
  | .handleComplete clk => handOver t (t.receiver.handleComplete clk)

theorem reports_requests (t : BlobTransfer.Transfer) (ms : List MessageView) :
    reports { t with history := (ms.map Happening.requested).reverse ++ t.history } =
      reports t := by
  unfold reports
  rw [List.filterMap_append]
  refine (congrArg (· ++ _) (List.filterMap_eq_nil_iff.mpr ?_)).trans (List.nil_append _)
  intro e he
  obtain ⟨m,-,rfl⟩ := List.mem_map.mp (List.mem_reverse.mp he)
  rfl

theorem reports_handOver (t : BlobTransfer.Transfer)
    (r : BlobManipulator BufferBlobIo Received × List (Completion Received)) :
    reports (BlobTransfer.handOver t r) = r.2.reverse ++ reports t := by
  unfold reports BlobTransfer.handOver
  rw [List.filterMap_append, ← List.map_reverse, List.filterMap_map]
  exact congrArg (· ++ _) List.filterMap_some

theorem forget_handOver (t : BlobTransfer.Transfer)
    (r : BlobManipulator BufferBlobIo Received × List (Completion Received)) :
    forgetTransfer (BlobTransfer.handOver t r) =
      handOver (forgetTransfer t) (onManipulator plain r.1,r.2.map (onCompletion plain)) := by
  simp only [forgetTransfer, reports_handOver, handOver, List.map_append, List.map_reverse]
  rfl

theorem forget_update (t : BlobTransfer.Transfer)
    (r : UpdateOutcome BufferBlobIo Received) :
    forgetTransfer { t with
        receiver := r.manipulator
        resends := t.resends ++ offered r.sends
        history := ((offered r.sends).map Happening.requested).reverse ++ t.history } =
      { forgetTransfer t with
        receiver := onManipulator plain r.manipulator
        resends := t.resends ++ offered r.sends } := by
  have hreports := reports_requests t (offered r.sends)
  exact congrArg (fun cs => (⟨t.sender,onManipulator plain r.manipulator,t.fragments,
    t.resends ++ offered r.sends,cs.map (onCompletion plain)⟩ : Transfer)) hreports

theorem forget_arrival (ser : BlobSerializer) (clk : Clock) (t : BlobTransfer.Transfer)
    (message : MessageView) :
    onManipulator plain (t.receiver.processIncoming ser clk (getIo t.receiver) message).2 =
      ((onManipulator plain t.receiver).processIncomingBuffer ser clk message).2 := by
  have hmap := processIncoming_map plain_map t.receiver ser clk (getIo t.receiver) message
  have hpool : onGetter plain (getIo t.receiver) =
      fun _ totalSize => t.receiver.makeTargetIo totalSize :=
    noted_plain (fun _ totalSize => t.receiver.makeTargetIo totalSize)
  rw [hpool] at hmap
  exact (congrArg Prod.snd hmap).symm

theorem forget_stepTransfer (ser : BlobSerializer) (sourceId : EndpointId)
    (t : BlobTransfer.Transfer) (e : BlobTransfer.Event) :
    forgetTransfer (BlobTransfer.step ser sourceId t e) =
      stepTransfer ser sourceId (forgetTransfer t) e := by
  cases e with
  | pushOutgoing clk msgId targetId targetBlobId src maxTime options priority =>
    simp only [BlobTransfer.step, push]
    split_ifs <;> rfl
  | processOutgoing clk doSend maxMessageSize maxMessages => rfl
  | updateSender clk doSend maxMessageSize => rfl
  | updateReceiver clk doSend maxMessageSize =>
    refine (forget_update t (t.receiver.update ser clk doSend maxMessageSize)).trans ?_
    have hu := update_map plain_map t.receiver ser clk doSend maxMessageSize
    exact congrArg (fun r : UpdateOutcome BufferBlobIo BufferBlobIo => { forgetTransfer t with
      receiver := r.manipulator, resends := t.resends ++ offered r.sends }) hu.symm
  | processResend i =>
    have hsame : (forgetTransfer t).resends[i]? = t.resends[i]? := rfl
    simp only [BlobTransfer.step, stepTransfer, hsame]
    cases t.resends[i]? <;> rfl
  | processIncoming clk i =>
    have hsame : (forgetTransfer t).fragments[i]? = t.fragments[i]? := rfl
    simp only [BlobTransfer.step, stepTransfer, hsame]
    cases t.fragments[i]? with
    | none => rfl
    | some message =>
      exact congrArg (fun receiver => { forgetTransfer t with receiver })
        (forget_arrival ser clk t message)
  | fetchAll clk =>
    exact (forget_handOver t (t.receiver.fetchAll clk)).trans
      (congrArg (handOver (forgetTransfer t)) (fetchAll_map plain_map t.receiver clk).symm)
  | handleComplete clk =>
    exact (forget_handOver t (t.receiver.handleComplete clk)).trans
      (congrArg (handOver (forgetTransfer t)) (handleComplete_map plain_map t.receiver clk).symm)

/-- A noted run of a transfer is a run of the two manipulators. -/
theorem forget_runTransfer (ser : BlobSerializer) (sourceId : EndpointId)
    (t : BlobTransfer.Transfer) (es : List BlobTransfer.Event) :
    forgetTransfer (StepRun.run (BlobTransfer.step ser sourceId) t es) =
      StepRun.run (stepTransfer ser sourceId) (forgetTransfer t) es :=
  StepRun.run_map forgetTransfer (forget_stepTransfer ser sourceId) t es

end Transfer

end MsgBus.PlainRuns
