import MsgBus.PendingBlob

/-!
# The blob manipulator

Outgoing blobs are cut into fragment messages, incoming fragments are merged
into pending blobs, and what is complete is handed over. A send handler may
answer each message as it likes; its answer depends on the messages it has
been offered before. Headers and parameters are written by self-delimiting
codes. The clock brings the time in milliseconds and the adjustment of
durations of the build.
-/

set_option autoImplicit false

namespace MsgBus

structure Clock where
  now : ℕ
  adjustedDuration : ℕ → ℕ := id

structure BlobHeader where
  classId : Identifier
  methodId : Identifier
  sourceBlobId : BlobId
  targetBlobId : BlobId
  offset : ℤ
  totalSize : ℤ
  options : BlobOptions
  deriving DecidableEq, Repr

structure BlobSerializer where
  header : SelfCode Byte BlobHeader
  resend : SelfCode Byte (ℕ × ℕ × ℕ)
  prepare : SelfCode Byte (ℕ × ℚ)
  getDataWithSize : Block → Block

structure SendAttempt where
  msgId : MessageId
  message : MessageView
  accepted : Bool
  deriving DecidableEq, Repr

abbrev SendHandler := List SendAttempt → MessageId → MessageView → Bool

/-- One call of a send handler, appended to the calls made before. -/
def offer (doSend : SendHandler) (log : List SendAttempt) (msgId : MessageId)
    (message : MessageView) : List SendAttempt :=
  log ++ [⟨msgId,message,doSend log msgId message⟩]

structure BlobManipulator (ς τ : Type) where
  fragmentMsgId : MessageId
  resendMsgId : MessageId
  prepareMsgId : MessageId
  maxBlobSize : ℕ := 128*1024*1024
  blobIdSequence : BlobId := 0
  outgoingIndex : ℕ := 0
  outgoing : List (PendingBlob ς) := []
  incoming : List (PendingBlob τ) := []

/-- What a complete blob was handed over as: the content of its buffer, or
the notification of its target. -/
inductive Completion (τ : Type) where
  | fetched (pending : PendingBlob τ) (msgId : MessageId) (age : MessageAge)
      (message : MessageView)
  | finished (pending : PendingBlob τ) (msgId : MessageId) (age : MessageAge)
      (info : MessageInfo) (io : τ)

def Completion.pending {τ : Type} : Completion τ → PendingBlob τ
  | fetched pending _ _ _ => pending
  | finished pending _ _ _ _ => pending

namespace BlobManipulator

variable {ς τ : Type}

section Outgoing

variable [SourceBlobIo ς]

def cleanupOutgoing (m : BlobManipulator ς τ) (clk : Clock) : BlobManipulator ς τ :=
  { m with outgoing := m.outgoing.filter (fun pending =>
      !(pending.maxTime.isExpired clk.now ||
        (pending.sentEverything && pending.lingerTime.isExpired clk.now))) }

def messageSize (pending : PendingBlob ς) (maxMessageSize : ℕ) : ℕ :=
  match pending.info.priority with
  | .critical => maxMessageSize-92
  | .high => maxMessageSize-92
  | .normal => maxMessageSize*3/4
  | .low => maxMessageSize*2/3
  | .idle => maxMessageSize/2

def nextBlobId (m : BlobManipulator ς τ) : BlobId :=
  if m.blobIdSequence = blobIdMax then 1 else m.blobIdSequence+1

/-- A pushed blob before any of it is sent. -/
def newOutgoing (clk : Clock) (msgId : MessageId) (sourceId targetId : EndpointId)
    (sourceBlobId targetBlobId : BlobId) (io : ς) (maxTime : ℕ) (options : BlobOptions)
    (priority : MessagePriority) : PendingBlob ς :=
  { msgId, io, sourceBlobId, targetBlobId
    info := { sourceId, targetId, totalSize := SourceBlobIo.totalSize io, options, priority }
    lingerTime := ⟨clk.now,15000⟩
    prepareUpdateTime := ⟨clk.now,5000⟩
    maxTime := ⟨clk.now,maxTime⟩
    fragmentParts := ⟨[],[(0,SourceBlobIo.totalSize io)]⟩ }

def pushOutgoingIo (m : BlobManipulator ς τ) (clk : Clock) (msgId : MessageId)
    (sourceId targetId : EndpointId) (targetBlobId : BlobId) (io : ς) (maxTime : ℕ)
    (options : BlobOptions) (priority : MessagePriority) : BlobId × BlobManipulator ς τ :=
  if 0 < SourceBlobIo.totalSize io then
    (m.nextBlobId,{ m with
      blobIdSequence := m.nextBlobId
      outgoing := m.outgoing ++ [newOutgoing clk msgId sourceId targetId m.nextBlobId
        targetBlobId io maxTime options priority] })
  else (0,m)

def fragmentHeader (pending : PendingBlob ς) (bgn : ℕ) : BlobHeader where
  classId := pending.msgId.class_
  methodId := pending.msgId.method
  sourceBlobId := pending.sourceBlobId
  targetBlobId := pending.targetBlobId
  offset := bgn
  totalSize := pending.info.totalSize
  options := pending.info.options

def fragmentMessage (ser : BlobSerializer) (pending : PendingBlob ς) (bgn : ℕ)
    (written : Block) : MessageView where
  data := ser.header.encode (fragmentHeader pending bgn) ++ written
  sourceId := pending.info.sourceId
  targetId := pending.info.targetId
  priority := pending.info.priority

/-- The parts to do after the last one, which ends at `fin`, has been advanced
to `bgn`. -/
def advanceTodo (todo : List Part) (bgn fin : ℕ) : List Part :=
  if fin ≤ bgn then todo.dropLast else todo.dropLast ++ [(bgn,fin)]

def processPreparingOutgoing (m : BlobManipulator ς τ) (ser : BlobSerializer) (clk : Clock)
    (doSend : SendHandler) (pending : PendingBlob ς) (log : List SendAttempt) :
    PendingBlob ς × List SendAttempt :=
  let shouldNotify := pending.prepareUpdateTime.isExpired clk.now ||
    1 ≤ pending.prepareProgress ||
    1/1000 ≤ pending.prepareProgress-pending.previousProgress
  if shouldNotify then
    let message : MessageView :=
      { data := ser.prepare.encode (pending.targetBlobId,pending.prepareProgress)
        sourceId := pending.info.sourceId
        targetId := pending.info.targetId
        priority := .normal }
    ({ pending with
        previousProgress := pending.prepareProgress
        prepareUpdateTime := pending.prepareUpdateTime.reset clk.now },
      offer doSend log m.prepareMsgId message)
  else (pending,log)

/-- The fragment is cut at the last part to do. That part is shortened or
dropped before the handler is asked. -/
def processFinishedOutgoing (m : BlobManipulator ς τ) (ser : BlobSerializer) (clk : Clock)
    (doSend : SendHandler) (maxMessageSize : ℕ) (pending : PendingBlob ς)
    (log : List SendAttempt) : PendingBlob ς × List SendAttempt :=
  match pending.todoParts.getLast? with
  | none => (pending,log)
  | some (bgn,fin) =>
    let header := ser.header.encode (fragmentHeader pending bgn)
    let size := messageSize pending maxMessageSize
    let linger := pending.lingerTime.reset clk.now
    if header.length ≤ size then
      let (written,io) := SourceBlobIo.fetchFragment pending.io bgn (size-header.length)
      if written ≠ [] then
        ({ pending.withTodo (advanceTodo pending.todoParts (bgn+written.length) fin) with
            io
            lingerTime := linger },
          offer doSend log m.fragmentMsgId (fragmentMessage ser pending bgn written))
      else ({ pending with io, lingerTime := linger },log)
    else ({ pending with lingerTime := linger },log)

/-- One turn of the loop of `process_outgoing`. -/
def processOne (m : BlobManipulator ς τ) (ser : BlobSerializer) (clk : Clock)
    (doSend : SendHandler) (maxMessageSize : ℕ) (pending : PendingBlob ς)
    (log : List SendAttempt) : PendingBlob ς × List SendAttempt :=
  let (preparation,pending) := pending.prepare clk.now
  if preparation.hasFinished && !pending.sentEverything then
    m.processFinishedOutgoing ser clk doSend maxMessageSize pending log
  else if preparation.isWorking then
    m.processPreparingOutgoing ser clk doSend pending log
  else (pending,log)

def processOutgoingLoop (ser : BlobSerializer) (clk : Clock) (doSend : SendHandler)
    (maxMessageSize : ℕ) :
    ℕ → BlobManipulator ς τ → List SendAttempt → BlobManipulator ς τ × List SendAttempt
  | 0, m, log => (m,log)
  | n+1, m, log =>
    let i := m.outgoingIndex % m.outgoing.length
    let m := { m with outgoingIndex := m.outgoingIndex+1 }
    match m.outgoing[i]? with
    | none => processOutgoingLoop ser clk doSend maxMessageSize n m log
    | some pending =>
      let (pending,log) := m.processOne ser clk doSend maxMessageSize pending log
      processOutgoingLoop ser clk doSend maxMessageSize n
        { m with outgoing := m.outgoing.set i pending } log

def processOutgoing (m : BlobManipulator ς τ) (ser : BlobSerializer) (clk : Clock)
    (doSend : SendHandler) (maxMessageSize maxMessages : ℕ) :
    BlobManipulator ς τ × List SendAttempt :=
  processOutgoingLoop ser clk doSend maxMessageSize (min maxMessages m.outgoing.length) m []

/-- The `work_done` of a call that reports whether a send was accepted. -/
def workDone (log : List SendAttempt) : Bool := log.any (fun a => a.accepted)

def hasOutgoing (m : BlobManipulator ς τ) : Bool := !m.outgoing.isEmpty

def processResend (m : BlobManipulator ς τ) (ser : BlobSerializer) (message : MessageView) :
    BlobManipulator ς τ :=
  match ser.resend.decode (message.content ser.getDataWithSize) with
  | none => m
  | some ((sourceBlobId,bgn,fin),_) =>
    match m.outgoing.findIdx? (fun pending => pending.sourceBlobId = sourceBlobId) with
    | none => m
    | some pos =>
      { m with
        outgoing := m.outgoing.modify pos (fun pending => pending.mergeResendRequest bgn fin) }

end Outgoing

/-- `push_outgoing` of a block, which is copied into a buffer. -/
def pushOutgoing (m : BlobManipulator BufferBlobIo τ) (clk : Clock) (msgId : MessageId)
    (sourceId targetId : EndpointId) (targetBlobId : BlobId) (src : Block) (maxTime : ℕ)
    (options : BlobOptions) (priority : MessagePriority) :
    BlobId × BlobManipulator BufferBlobIo τ :=
  m.pushOutgoingIo clk msgId sourceId targetId targetBlobId (.ofBlock src) maxTime options
    priority

section Incoming

variable [TargetBlobIo τ]

/-- The pending blobs that are kept, and the targets of the others after
their cancellation. -/
def cleanupIncoming (m : BlobManipulator ς τ) (clk : Clock) : BlobManipulator ς τ × List τ :=
  ({ m with incoming := m.incoming.filter (fun p => !p.maxTime.isExpired clk.now) },
    (m.incoming.filter (fun p => p.maxTime.isExpired clk.now)).map
      (fun p => TargetBlobIo.handleCancelled p.io))

def doneBeginEnd (done : List Part) (totalSize maxMessageSize : ℕ) : ℕ × ℕ :=
  let max := 2*maxMessageSize/3
  match done with
  | [] => (0,0)
  | (bgn,fin)::rest =>
    if 0 < bgn then (0,min bgn max)
    else match rest with
      | [] => (fin,fin+min (totalSize-fin) max)
      | (next,_)::_ => (fin,fin+min (next-fin) max)

def shouldRequestResend (pending : PendingBlob τ) (now : ℕ) : Bool :=
  !pending.doneParts.isEmpty && 250 < now-pending.latestUpdate

def resendRequest (ser : BlobSerializer) (pending : PendingBlob τ) (maxMessageSize : ℕ) :
    MessageView where
  data := ser.resend.encode
    (pending.sourceBlobId,doneBeginEnd pending.doneParts pending.info.totalSize maxMessageSize)
  targetId := pending.info.sourceId

def requestResends (m : BlobManipulator ς τ) (ser : BlobSerializer) (clk : Clock)
    (doSend : SendHandler) (maxMessageSize : ℕ) :
    List (PendingBlob τ) → List SendAttempt → List (PendingBlob τ) × List SendAttempt
  | [], log => ([],log)
  | pending::rest, log =>
    if shouldRequestResend pending clk.now then
      let log := offer doSend log m.resendMsgId (resendRequest ser pending maxMessageSize)
      let (rest,log) := m.requestResends ser clk doSend maxMessageSize rest log
      ({ pending with latestUpdate := clk.now }::rest,log)
    else
      let (rest,log) := m.requestResends ser clk doSend maxMessageSize rest log
      (pending::rest,log)

structure UpdateOutcome (ς τ : Type) where
  manipulator : BlobManipulator ς τ
  sends : List SendAttempt
  cancelled : List τ

def update [SourceBlobIo ς] (m : BlobManipulator ς τ) (ser : BlobSerializer) (clk : Clock)
    (doSend : SendHandler) (maxMessageSize : ℕ) : UpdateOutcome ς τ :=
  let m := m.cleanupOutgoing clk
  let (m,cancelled) := m.cleanupIncoming clk
  let (incoming,sends) := m.requestResends ser clk doSend maxMessageSize m.incoming []
  ⟨{ m with incoming },sends,cancelled⟩

def expectIncoming (m : BlobManipulator ς τ) (clk : Clock) (msgId : MessageId)
    (sourceId : EndpointId) (targetBlobId : BlobId) (io : τ) (maxTime : ℕ) :
    BlobManipulator ς τ :=
  { m with incoming := m.incoming ++ [
      { msgId, io, targetBlobId
        info := { sourceId, priority := .normal }
        sourceBlobId := 0
        latestUpdate := clk.now
        lingerTime := ⟨clk.now,15000⟩
        prepareUpdateTime := ⟨clk.now,5000⟩
        maxTime := ⟨clk.now,maxTime⟩ }] }

structure IncomingFragment where
  msgId : MessageId
  sourceId : EndpointId
  sourceBlobId : BlobId
  targetBlobId : BlobId
  offset : ℕ
  totalSize : ℕ
  fragment : Block
  options : BlobOptions
  priority : MessagePriority
  deriving DecidableEq, Repr

abbrev TargetIoGetter (τ : Type) := MessageId → ℕ → Option τ

/-- The pending blob that carries the ids of the fragment. -/
def findBySource (m : BlobManipulator ς τ) (f : IncomingFragment) : Option ℕ :=
  m.incoming.findIdx? (fun pending =>
    pending.info.sourceId = f.sourceId ∧ pending.sourceBlobId = f.sourceBlobId)

/-- The pending blob for the target of the fragment. -/
def findByTarget (m : BlobManipulator ς τ) (f : IncomingFragment) : Option ℕ :=
  m.incoming.findIdx? (fun pending =>
    pending.msgId = f.msgId ∧ pending.targetBlobId = f.targetBlobId ∧
      (pending.info.sourceId = f.sourceId ∨ pending.info.sourceId = broadcastEndpointId))

/-- A pending blob found by its target takes over the ids of the fragment. -/
def updateExpected (f : IncomingFragment) (pending : PendingBlob τ) : PendingBlob τ :=
  { pending with
    info := { pending.info with
      sourceId := if pending.info.sourceId = broadcastEndpointId then f.sourceId
        else pending.info.sourceId
      priority := f.priority
      options := f.options
      totalSize := f.totalSize }
    sourceBlobId := f.sourceBlobId }

def acceptsFragment (f : IncomingFragment) (pending : PendingBlob τ) : Bool :=
  !pending.totalSizeMismatch f.totalSize && pending.msgId = f.msgId

/-- The pending blob just before an accepted fragment is merged into it. -/
def refreshed (clk : Clock) (f : IncomingFragment) (pending : PendingBlob τ) : PendingBlob τ :=
  { pending with
    maxTime := pending.maxTime.reset clk.now
    info := { pending.info with
      priority := pending.info.priority.max f.priority
      totalSize := max pending.info.totalSize f.totalSize } }

def mergeAccepted (clk : Clock) (f : IncomingFragment) (pending : PendingBlob τ) :
    PendingBlob τ :=
  ((refreshed clk f pending).mergeFragment clk.now f.offset f.fragment).2

def mergeInto (clk : Clock) (f : IncomingFragment) (pending : PendingBlob τ) : PendingBlob τ :=
  if acceptsFragment f pending then mergeAccepted clk f pending else pending

/-- The pending blob that a first fragment creates, before its merge. -/
def createIncoming (clk : Clock) (f : IncomingFragment) (io : τ) : PendingBlob τ where
  msgId := f.msgId
  io := io
  info := ⟨f.sourceId,broadcastEndpointId,f.totalSize,f.options,f.priority⟩
  sourceBlobId := f.sourceBlobId
  targetBlobId := f.targetBlobId
  lingerTime := ⟨clk.now,15000⟩
  prepareUpdateTime := ⟨clk.now,5000⟩
  maxTime := ⟨clk.now,clk.adjustedDuration 60000⟩

def newIncoming (clk : Clock) (f : IncomingFragment) (io : τ) : PendingBlob τ :=
  ((createIncoming clk f io).mergeFragment clk.now f.offset f.fragment).2

/-- The answer of `push_incoming_fragment` is always true and is left out. -/
def pushIncomingFragment (m : BlobManipulator ς τ) (clk : Clock) (getIo : TargetIoGetter τ)
    (f : IncomingFragment) : BlobManipulator ς τ :=
  match m.findBySource f with
  | some pos => { m with incoming := m.incoming.modify pos (mergeInto clk f) }
  | none =>
    match m.findByTarget f with
    | some pos =>
      { m with incoming := m.incoming.modify pos (fun p => mergeInto clk f (updateExpected f p)) }
    | none =>
      if f.sourceId ≠ broadcastEndpointId then
        match getIo f.msgId f.totalSize with
        | some io => { m with incoming := m.incoming ++ [newIncoming clk f io] }
        | none => m
      else m

/-- The fragment a message carries, if its header can be read, its offset lies
within the blob and it does not reach beyond the end. -/
def readFragment (ser : BlobSerializer) (message : MessageView) : Option IncomingFragment :=
  match ser.header.decode (message.content ser.getDataWithSize) with
  | none => none
  | some (header,fragment) =>
    if 0 ≤ header.offset ∧ header.offset < header.totalSize then
      if fragment.length ≤ (header.totalSize-header.offset).toNat then
        some
          { msgId := ⟨header.classId,header.methodId⟩
            sourceId := message.sourceId
            sourceBlobId := header.sourceBlobId
            targetBlobId := header.targetBlobId
            offset := header.offset.toNat
            totalSize := header.totalSize.toNat
            fragment
            options := header.options
            priority := message.priority }
      else none
    else none

def processIncoming (m : BlobManipulator ς τ) (ser : BlobSerializer) (clk : Clock)
    (getIo : TargetIoGetter τ) (message : MessageView) : Bool × BlobManipulator ς τ :=
  match readFragment ser message with
  | none => (false,m)
  | some f => (true,m.pushIncomingFragment clk getIo f)

def processPrepare (m : BlobManipulator ς τ) (ser : BlobSerializer) (clk : Clock)
    (message : MessageView) : BlobManipulator ς τ :=
  match ser.prepare.decode (message.content ser.getDataWithSize) with
  | none => m
  | some ((targetBlobId,progress),_) =>
    match m.incoming.findIdx? (fun pending => pending.targetBlobId = targetBlobId) with
    | none => m
    | some pos =>
      { m with
        incoming := m.incoming.modify pos
          (fun pending => pending.handleTargetPreparing clk.now progress) }

def cancelIncoming (m : BlobManipulator ς τ) (targetBlobId : BlobId) :
    Option τ × BlobManipulator ς τ :=
  match m.incoming.findIdx? (fun pending => pending.targetBlobId = targetBlobId) with
  | none => (none,m)
  | some pos =>
    (m.incoming[pos]?.map (fun pending => TargetBlobIo.handleCancelled pending.io),
      { m with incoming := m.incoming.eraseIdx pos })

def completedInfo (pending : PendingBlob τ) : MessageInfo where
  sourceId := pending.info.sourceId
  targetId := pending.info.targetId
  sequenceNo := pending.targetBlobId
  priority := pending.info.priority

def finishIncoming (clk : Clock) (pending : PendingBlob τ) : Completion τ :=
  .finished pending pending.msgId (pending.age clk.now) (completedInfo pending)
    (TargetBlobIo.handleFinished pending.io pending.msgId (pending.age clk.now)
      (completedInfo pending) pending.info)

def fetchIncoming (clk : Clock) (pending : PendingBlob τ) : Completion τ :=
  match TargetBlobIo.targetBuffer pending.io with
  | some blob => .fetched pending pending.msgId (pending.age clk.now)
      { completedInfo pending with data := blob }
  | none => finishIncoming clk pending

def handleComplete (m : BlobManipulator ς τ) (clk : Clock) :
    BlobManipulator ς τ × List (Completion τ) :=
  ({ m with incoming := m.incoming.filter (fun p => !p.receivedEverything) },
    (m.incoming.filter (fun p => p.receivedEverything)).map (finishIncoming clk))

def fetchAll (m : BlobManipulator ς τ) (clk : Clock) :
    BlobManipulator ς τ × List (Completion τ) :=
  ({ m with incoming := m.incoming.filter (fun p => !p.receivedEverything) },
    (m.incoming.filter (fun p => p.receivedEverything)).map (fetchIncoming clk))

end Incoming

def makeTargetIo (m : BlobManipulator ς τ) (totalSize : ℕ) : Option BufferBlobIo :=
  if totalSize < m.maxBlobSize then some (.ofSize totalSize) else none

/-- The `process_incoming` that makes its own buffers. -/
def processIncomingBuffer (m : BlobManipulator ς BufferBlobIo) (ser : BlobSerializer)
    (clk : Clock) (message : MessageView) : Bool × BlobManipulator ς BufferBlobIo :=
  m.processIncoming ser clk (fun _ totalSize => m.makeTargetIo totalSize) message

end BlobManipulator

end MsgBus
