import MsgBus.Lib.StepRun
import MsgBus.SampleSerializer
import MsgBus.StoreLog

/-!
# A sender, a receiver and a lossy channel

Every message that was ever offered to a send handler stays in the channel;
a delivery picks any of them, any number of times, or none. So messages are
lost, duplicated, delayed and reordered at will. What happened at the
receiver is kept newest first.
-/

set_option autoImplicit false

namespace MsgBus.BlobTransfer

open BlobManipulator

/-- A source block as it was pushed, with the id it was given. -/
structure Pushed where
  msgId : MessageId
  sourceBlobId : BlobId
  targetBlobId : BlobId
  content : Block
  deriving DecidableEq, Repr

abbrev Received := StoreLog BufferBlobIo

inductive Happening where
  | arrived (message : MessageView)
  | handedOver (completion : Completion Received)
  | requested (message : MessageView)

structure Transfer where
  sender : BlobManipulator BufferBlobIo BufferBlobIo
  receiver : BlobManipulator BufferBlobIo Received
  pushed : List Pushed := []
  fragments : List MessageView := []
  resends : List MessageView := []
  history : List Happening := []

inductive Event where
  | pushOutgoing (clk : Clock) (msgId : MessageId) (targetId : EndpointId)
      (targetBlobId : BlobId) (src : Block) (maxTime : ℕ) (options : BlobOptions)
      (priority : MessagePriority)
  | processOutgoing (clk : Clock) (doSend : SendHandler) (maxMessageSize maxMessages : ℕ)
  | updateSender (clk : Clock) (doSend : SendHandler) (maxMessageSize : ℕ)
  | updateReceiver (clk : Clock) (doSend : SendHandler) (maxMessageSize : ℕ)
  | processResend (i : ℕ)
  | processIncoming (clk : Clock) (i : ℕ)
  | fetchAll (clk : Clock)
  | handleComplete (clk : Clock)

def start (fragmentMsgId resendMsgId prepareMsgId : MessageId) (maxBlobSize : ℕ) : Transfer where
  sender := { fragmentMsgId, resendMsgId, prepareMsgId, maxBlobSize }
  receiver := { fragmentMsgId, resendMsgId, prepareMsgId, maxBlobSize }

/-- The receiver makes its targets from the buffer pool. -/
def getIo (m : BlobManipulator BufferBlobIo Received) : TargetIoGetter Received :=
  fun _ totalSize => (m.makeTargetIo totalSize).map StoreLog.fresh

def offered (log : List SendAttempt) : List MessageView := log.map (fun a => a.message)

def handOver (t : Transfer)
    (r : BlobManipulator BufferBlobIo Received × List (Completion Received)) : Transfer :=
  { t with receiver := r.1, history := (r.2.map Happening.handedOver).reverse ++ t.history }

def push (t : Transfer) (msgId : MessageId) (targetBlobId : BlobId) (src : Block)
    (r : BlobId × BlobManipulator BufferBlobIo BufferBlobIo) : Transfer :=
  if src = [] then { t with sender := r.2 }
  else { t with sender := r.2, pushed := t.pushed ++ [⟨msgId,r.1,targetBlobId,src⟩] }

def step (ser : BlobSerializer) (sourceId : EndpointId) (t : Transfer) : Event → Transfer
  | .pushOutgoing clk msgId targetId targetBlobId src maxTime options priority =>
    push t msgId targetBlobId src (t.sender.pushOutgoing clk msgId sourceId targetId targetBlobId
      src maxTime options priority)
  | .processOutgoing clk doSend maxMessageSize maxMessages =>
    let r := t.sender.processOutgoing ser clk doSend maxMessageSize maxMessages
    { t with sender := r.1, fragments := t.fragments ++ offered r.2 }
  | .updateSender clk doSend maxMessageSize =>
    { t with sender := (t.sender.update ser clk doSend maxMessageSize).manipulator }
  | .updateReceiver clk doSend maxMessageSize =>
    let r := t.receiver.update ser clk doSend maxMessageSize
    { t with
      receiver := r.manipulator
      resends := t.resends ++ offered r.sends
      history := ((offered r.sends).map Happening.requested).reverse ++ t.history }
  | .processResend i =>
    match t.resends[i]? with
    | none => t
    | some message => { t with sender := t.sender.processResend ser message }
  | .processIncoming clk i =>
    match t.fragments[i]? with
    | none => t
    | some message =>
      { t with
        receiver := (t.receiver.processIncoming ser clk (getIo t.receiver) message).2
        history := .arrived message::t.history }
  | .fetchAll clk => handOver t (t.receiver.fetchAll clk)
  | .handleComplete clk => handOver t (t.receiver.handleComplete clk)

/-- Blobs are pushed under distinct targets for each message, and fewer than
the sequence has values. -/
def Admitted (t : Transfer) : Event → Prop
  | .pushOutgoing _ msgId _ targetBlobId _ _ _ _ =>
    t.pushed.length < blobIdMax ∧
      ∀ r ∈ t.pushed, ¬ (r.msgId = msgId ∧ r.targetBlobId = targetBlobId)
  | _ => True

def reports (t : Transfer) : List (Completion Received) :=
  t.history.filterMap (fun
    | .handedOver completion => some completion
    | _ => none)

instance (t : Transfer) (e : Event) : Decidable (Admitted t e) := by
  cases e <;> unfold Admitted <;> infer_instance

def sampleStart : Transfer :=
  start (msgbusId .blobFrgmnt) (msgbusId .blobResend) (msgbusId .blobPrpare) 100

/-- A block of four bytes leaves in two fragments. -/
def samplePush : List Event := [
  .pushOutgoing sampleClock ⟨.other 1,.other 2⟩ 7 3 [10,20,30,40] 60000 0 .normal,
  .processOutgoing sampleClock acceptAll 27 5,
  .processOutgoing sampleClock acceptAll 27 5]

end MsgBus.BlobTransfer
