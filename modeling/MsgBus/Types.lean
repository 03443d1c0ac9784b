import Mathlib.Order.Basic
import MsgBus.Lib.SelfCode

/-!
# Identifiers, messages and timeouts of the message bus

Endpoint and blob identifiers are numbers; identifiers of message classes and
methods are the named ones the bus itself uses, or any other value. A message
view is the message information together with a block of data. Time is passed
in as a number of milliseconds, so a timeout is a start and a duration.
-/

set_option autoImplicit false

namespace MsgBus

abbrev Byte := UInt8
abbrev Block := List Byte

abbrev EndpointId := ℕ
abbrev BlobId := ℕ
abbrev MessageSequence := ℕ
abbrev BlobOptions := ℕ
abbrev MessageAge := Int16

def broadcastEndpointId : EndpointId := 0

def isValidId (id : EndpointId) : Bool := id ≠ 0

/-- `std::numeric_limits<blob_id_t>::max()`. -/
def blobIdMax : BlobId := 4294967295

inductive Identifier where
  | eagiMsgBus
  | requestId | assignId | confirmId | announceId | annEndptId | notARouter
  | byeByeEndp | byeByeRutr | byeByeBrdg | stillAlive
  | ping | pong
  | subscribTo | unsubFrom | notSubTo | qrySubscrb | qrySubscrp
  | clrBlkList | clrAlwList | msgBlkList | msgAlwList
  | blobFrgmnt | blobResend | blobPrpare
  | rtrCertQry | rtrCertPem | eptCertQry | eptCertPem | eptSigNnce | eptNnceSig
  | reqRutrPwd | encRutrPwd
  | topoQuery | topoRutrCn | topoBrdgCn | topoEndpt
  | statsQuery | statsRutr | statsBrdg | statsEndpt | statsConn
  | msgFlowInf
  | other (value : ℕ)
  deriving DecidableEq, Repr

structure MessageId where
  class_ : Identifier
  method : Identifier
  deriving DecidableEq, Repr

def msgbusId (method : Identifier) : MessageId := ⟨.eagiMsgBus,method⟩

def isSpecialMessage (msgId : MessageId) : Bool := msgId.class_ = .eagiMsgBus

@[simp] theorem isSpecialMessage_msgbusId (method : Identifier) :
    isSpecialMessage (msgbusId method) = true := rfl

inductive MessagePriority where
  | idle | low | normal | high | critical
  deriving DecidableEq, Repr

namespace MessagePriority

def value : MessagePriority → ℕ
  | idle => 0
  | low => 1
  | normal => 2
  | high => 3
  | critical => 4

/-- `std::max` under the priority ordering. -/
def max (l r : MessagePriority) : MessagePriority := if l.value < r.value then r else l

end MessagePriority

structure MessageCryptoFlags where
  asymmetric : Bool := false
  signedHeader : Bool := false
  signedContent : Bool := false
  deriving DecidableEq, Repr

structure MessageInfo where
  sourceId : EndpointId := broadcastEndpointId
  targetId : EndpointId := broadcastEndpointId
  serializerId : EndpointId := 0
  sequenceNo : MessageSequence := 0
  hopCount : Int8 := 0
  ageQuarterSeconds : Int8 := 0
  priority : MessagePriority := .normal
  cryptoFlags : MessageCryptoFlags := {}
  deriving DecidableEq, Repr

namespace MessageInfo

def tooManyHops (info : MessageInfo) : Bool := 64 ≤ info.hopCount

def addHop (info : MessageInfo) : MessageInfo := { info with hopCount := info.hopCount+1 }

def tooOld (info : MessageInfo) : Bool :=
  match info.priority with
  | .idle => 10*4 < info.ageQuarterSeconds
  | .low => 20*4 < info.ageQuarterSeconds
  | .normal => 30*4 < info.ageQuarterSeconds
  | .high => info.ageQuarterSeconds = 127
  | .critical => false

def addAge (info : MessageInfo) (age : MessageAge) : MessageInfo :=
  let newAge := info.ageQuarterSeconds.toInt+(age.toInt+20).tdiv 25
  { info with ageQuarterSeconds :=
      if -128 ≤ newAge ∧ newAge ≤ 127 then Int8.ofInt newAge else 127 }

def setupResponse (info request : MessageInfo) : MessageInfo :=
  { info with
    targetId := request.sourceId
    sequenceNo := request.sequenceNo
    ageQuarterSeconds := request.ageQuarterSeconds
    priority := request.priority }

end MessageInfo

structure MessageView extends MessageInfo where
  data : Block := []
  deriving DecidableEq, Repr

namespace MessageView

def isSigned (message : MessageView) : Bool :=
  message.cryptoFlags.signedContent || message.cryptoFlags.signedHeader

/-- The content of a signed message is the sized block at the front of its
data; reading it back is the serializer's. -/
def content (getDataWithSize : Block → Block) (message : MessageView) : Block :=
  if message.isSigned then getDataWithSize message.data else message.data

end MessageView

structure Timeout where
  start : ℕ
  duration : ℕ
  deriving DecidableEq, Repr

namespace Timeout

def isExpired (t : Timeout) (now : ℕ) : Bool := t.start+t.duration ≤ now

def reset (t : Timeout) (now : ℕ) : Timeout := { t with start := now }

end Timeout

/-- A timeout that can be set to have run out at once. -/
structure RestartTimeout where
  duration : ℕ
  due : ℕ := 0
  deriving DecidableEq, Repr

namespace RestartTimeout

def isExpired (t : RestartTimeout) (now : ℕ) : Bool := t.due ≤ now

def reset (t : RestartTimeout) (now : ℕ) : RestartTimeout := { t with due := now+t.duration }

end RestartTimeout

end MsgBus
