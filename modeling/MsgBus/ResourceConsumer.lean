import Mathlib.Data.String.Basic
import MsgBus.BlobManipulator

/-!
# The consumer of resource data

A consumer asks every known server for a resource and fetches it from the
first one that has it. The target of a request is shared: each transfer for
the request holds a reference to it, the ones begun before included. The calls
a transfer makes are noted with the reference and carried out on the shared
target in the same order; no transfer depends on what a target answers.
-/

set_option autoImplicit false

namespace MsgBus

open ByteBlock

/-- Chunks of one size, handed on together when all data has arrived. -/
structure BlobChunkIo where
  blobId : ℕ
  chunkSize : ℕ
  chunks : List Block := []
  signals : List BlobStreamSignal := []
  deriving DecidableEq

namespace BlobChunkIo

def emit (io : BlobChunkIo) (signal : BlobStreamSignal) : BlobChunkIo :=
  { io with signals := io.signals ++ [signal] }

/-- `ensure`, which grows a buffer to at least this size. -/
def ensure (blk : Block) (size : ℕ) : Block := blk ++ List.replicate (size-blk.length) 0

def storeChunk (io : BlobChunkIo) (chunkIdx dsto : ℕ) (src : Block) : BlobChunkIo :=
  if 0 < src.length then
    let chunks := io.chunks ++ List.replicate (chunkIdx+1-io.chunks.length) []
    { io with
      chunks := chunks.modify chunkIdx
        (fun chunk => overlay (ensure chunk (dsto+src.length)) dsto src) }
  else io

/-- The data is cut at the chunk ends; only the first part may start within
its chunk. -/
def storeParts (io : BlobChunkIo) (chunkIdx dsto : ℕ) (data : Block) : ℕ → BlobChunkIo
  | 0 => io
  | n+1 =>
    let size := io.chunkSize-dsto
    storeParts (io.storeChunk chunkIdx dsto (data.take size)) (chunkIdx+1) 0 (data.drop size) n

def storeFragment (io : BlobChunkIo) (offset : ℕ) (data : Block) : BlobChunkIo :=
  let chunkIdx := offset/io.chunkSize
  let lastChunk := (offset+data.length)/io.chunkSize
  io.storeParts chunkIdx (offset-chunkIdx*io.chunkSize) data (lastChunk-chunkIdx+1)

instance : TargetBlobIo BlobChunkIo where
  handlePrepared io progress := io.emit (.preparationProgressed io.blobId progress)
  handleFinished io _ _ _ info :=
    { (io.emit (.dataAppended ⟨io.blobId,0,io.chunks,info⟩)).emit (.finished io.blobId) with
      chunks := [] }
  handleCancelled io := { io.emit (.cancelled io.blobId) with chunks := [] }
  storeFragment io offset data _ := (true,io.storeFragment offset data)

end BlobChunkIo

def makeTargetBlobChunkIo (blobId chunkSize : ℕ) : BlobChunkIo := { blobId, chunkSize }

/-! ## Shared targets -/

inductive SharedIo where
  | stream (io : BlobStreamIo)
  | chunks (io : BlobChunkIo)
  deriving DecidableEq

namespace SharedIo

def requestId : SharedIo → ℕ
  | stream io => io.blobId
  | chunks io => io.blobId

def signals : SharedIo → List BlobStreamSignal
  | stream io => io.signals
  | chunks io => io.signals

end SharedIo

/-- The target of a request, with the locator of the resource it asks for. -/
structure SharedTarget (υ : Type) where
  locator : υ
  io : SharedIo
  deriving DecidableEq

inductive TargetCall where
  | prepared (progress : ℚ)
  | finished (msgId : MessageId) (age : MessageAge) (message : MessageInfo) (info : BlobInfo)
  | cancelled
  | store (offs : ℕ) (src : Block) (info : BlobInfo)
  | check (offs : ℕ) (blk : Block)
  deriving DecidableEq

namespace TargetCall

def carryOut {τ : Type} [TargetBlobIo τ] (io : τ) : TargetCall → τ
  | prepared progress => TargetBlobIo.handlePrepared io progress
  | finished msgId age message info => TargetBlobIo.handleFinished io msgId age message info
  | cancelled => TargetBlobIo.handleCancelled io
  | store offs src info => (TargetBlobIo.storeFragment io offs src info).2
  | check offs blk => (TargetBlobIo.checkStored io offs blk).2

end TargetCall

def SharedIo.carryOut : SharedIo → TargetCall → SharedIo
  | stream io, call => .stream (call.carryOut io)
  | chunks io, call => .chunks (call.carryOut io)

/-- What a transfer writes to: a shared target with the calls made on it, or
a buffer for a transfer that nobody asked for. -/
inductive TransferIo where
  | shared (index : ℕ) (calls : List TargetCall)
  | buffer (io : BufferBlobIo)
  deriving DecidableEq

namespace TransferIo

def note (call : TargetCall) : TransferIo → TransferIo
  | shared index calls => .shared index (calls ++ [call])
  | buffer io => .buffer (call.carryOut io)

def noted : TransferIo → List (ℕ × TargetCall)
  | shared index calls => calls.map (fun call => (index,call))
  | buffer _ => []

def cleared : TransferIo → TransferIo
  | shared index _ => .shared index []
  | buffer io => .buffer io

instance : TargetBlobIo TransferIo where
  handlePrepared io progress := io.note (.prepared progress)
  handleFinished io msgId age message info := io.note (.finished msgId age message info)
  handleCancelled io := io.note .cancelled
  storeFragment io offs src info := (true,io.note (.store offs src info))
  checkStored io offs blk := (true,io.note (.check offs blk))

end TransferIo

/-! ## The consumer -/

structure ResourceServerInfo where
  shouldCheck : RestartTimeout
  notResponding : RestartTimeout
  deriving DecidableEq, Repr

structure StreamedResourceInfo (υ : Type) where
  locator : υ
  sourceServerId : EndpointId := broadcastEndpointId
  resourceIo : ℕ
  shouldSearch : RestartTimeout
  blobTimeout : ℕ
  blobStreamId : MessageSequence := 0
  blobPriority : MessagePriority
  deriving DecidableEq

inductive ResourceQuery (υ : Type) where
  | subscribers (msgId : MessageId)
  | ping (serverId : EndpointId) (maxTime : ℕ)
  | search (serverId : EndpointId) (locator : υ)
  | content (serverId : EndpointId) (locator : υ) (priority : MessagePriority)
      (sequenceNo : MessageSequence)
  | blob (attempt : SendAttempt)
  deriving DecidableEq

/-- What the consumer is built with: the handling of locators, the serializer,
the endpoint's send handler and the configuration. -/
structure ConsumerEnv (υ : Type) where
  serializable : υ → Bool
  readLocator : Block → Option υ
  hasScheme : υ → String → Bool
  host : υ → Option String
  hostId : υ → Option EndpointId
  serializer : BlobSerializer
  doSend : SendHandler
  adjustedDuration : ℕ → ℕ
  minConnectionDataSize : ℕ
  serverCheckInterval : ℕ
  serverResponseTimeout : ℕ
  resourceSearchInterval : ℕ
  resourceStreamTimeout : ℕ

def eagiRsrces (method : ℕ) : MessageId := ⟨.other 0,.other method⟩

def resourceContentId : MessageId := eagiRsrces 0
def getContentId : MessageId := eagiRsrces 1
def resourceFragmentId : MessageId := eagiRsrces 2
def resourceResendId : MessageId := eagiRsrces 3
def resourcePrepareId : MessageId := eagiRsrces 4

structure ResourceConsumer (υ : Type) where
  resIdSeq : ℕ := 0
  currentServers : OrderedMap EndpointId ResourceServerInfo := OrderedMap.empty
  streamedResources : OrderedMap ℕ (StreamedResourceInfo υ) := OrderedMap.empty
  targets : List (SharedTarget υ) := []
  blobs : BlobManipulator BufferBlobIo TransferIo :=
    { fragmentMsgId := resourceFragmentId
      resendMsgId := resourceResendId
      prepareMsgId := resourcePrepareId }
  searchServers : RestartTimeout := ⟨5000,0⟩
  /-- The known servers with the times of their last reports. -/
  serverEndpoints : OrderedMap EndpointId ℕ := OrderedMap.empty
  hostnameToEndpoint : OrderedMap String (List EndpointId) := OrderedMap.empty
  /-- The next number of the context for a query of content. -/
  nextSequenceNo : MessageSequence := 0
  queries : List (ResourceQuery υ) := []

namespace ResourceConsumer

variable {υ : Type}

def identifierCount : ℕ := 2^64

def sequenceCount : ℕ := 2^32

def hasPendingResource (s : ResourceConsumer υ) (requestId : ℕ) : Bool :=
  s.streamedResources.contains requestId

/-- The first number behind the last one that is not zero and not in use. One
of as many numbers as there are requests and two more is free. -/
def getRequestId (s : ResourceConsumer υ) : Option ℕ :=
  ((List.range (s.streamedResources.size+2)).map
    (fun k => (s.resIdSeq+1+k) % identifierCount)).find?
    (fun id => id ≠ 0 && !s.hasPendingResource id)

/-- `_query_resource` of a resource that is not embedded. -/
def queryResource (env : ConsumerEnv υ) (s : ResourceConsumer υ) (requestId : ℕ) (locator : υ)
    (maxTime : Option ℕ) (priority : Option MessagePriority) (io : SharedIo) :
    ResourceConsumer υ :=
  { s with
    resIdSeq := requestId
    targets := s.targets ++ [⟨locator,io⟩]
    streamedResources := s.streamedResources.assign requestId
      { locator
        resourceIo := s.targets.length
        shouldSearch := ⟨env.resourceSearchInterval,0⟩
        blobTimeout := maxTime.getD env.resourceStreamTimeout
        blobPriority := priority.getD .normal } }

def streamResource (env : ConsumerEnv υ) (s : ResourceConsumer υ) (locator : υ)
    (maxTime : Option ℕ) (priority : Option MessagePriority) : ResourceConsumer υ :=
  match s.getRequestId with
  | none => s
  | some requestId => s.queryResource env requestId locator maxTime priority
      (.stream (makeTargetBlobStreamIo requestId))

def fetchResourceChunks (env : ConsumerEnv υ) (s : ResourceConsumer υ) (locator : υ)
    (maxTime : Option ℕ) (priority : Option MessagePriority) (chunkSize : ℕ) :
    ResourceConsumer υ :=
  match s.getRequestId with
  | none => s
  | some requestId => s.queryResource env requestId locator maxTime priority
      (.chunks (makeTargetBlobChunkIo requestId chunkSize))

def eraseStream (s : ResourceConsumer υ) (requestId : ℕ) : ResourceConsumer υ :=
  { s with streamedResources := s.streamedResources.erase requestId }

def cancelResourceStream (s : ResourceConsumer υ) (requestId : ℕ) : ResourceConsumer υ :=
  s.eraseStream requestId

def handleStreamDone (s : ResourceConsumer υ) (requestId : ℕ) : ResourceConsumer υ :=
  s.eraseStream requestId

def handleStreamCancelled (s : ResourceConsumer υ) (requestId : ℕ) : ResourceConsumer υ :=
  s.eraseStream requestId

/-- A sign of life of a server. -/
def responding (s : ResourceConsumer υ) (now : ℕ) (serverId : EndpointId) :
    ResourceConsumer υ :=
  { s with currentServers := s.currentServers.mapValues (fun id info =>
      if id = serverId then { info with notResponding := info.notResponding.reset now }
      else info) }

def handleStreamData (s : ResourceConsumer υ) (now : ℕ) (chunk : BlobStreamChunk) :
    ResourceConsumer υ :=
  s.responding now chunk.info.sourceId

def handleSignal (now : ℕ) (s : ResourceConsumer υ) : BlobStreamSignal → ResourceConsumer υ
  | .preparationProgressed _ _ => s
  | .dataAppended chunk => s.handleStreamData now chunk
  | .finished requestId => s.handleStreamDone requestId
  | .cancelled requestId => s.handleStreamCancelled requestId

/-- One call on a shared target and the signals that the target emits. -/
def carryOut (now : ℕ) (s : ResourceConsumer υ) (call : ℕ × TargetCall) : ResourceConsumer υ :=
  match s.targets[call.1]? with
  | none => s
  | some t =>
    let io := t.io.carryOut call.2
    (io.signals.drop t.io.signals.length).foldl (handleSignal now)
      { s with targets := s.targets.set call.1 { t with io } }

/-- The manipulator after one of its operations, the calls it has noted
carried out; `dropped` are the targets of the transfers it has removed. -/
def settle (now : ℕ) (s : ResourceConsumer υ) (blobs : BlobManipulator BufferBlobIo TransferIo)
    (dropped : List TransferIo) : ResourceConsumer υ :=
  let calls := (dropped ++ blobs.incoming.map (fun p => p.io)).flatMap TransferIo.noted
  calls.foldl (carryOut now) { s with blobs := { blobs with
    incoming := blobs.incoming.map (fun p => { p with io := p.io.cleared }) } }

/-! ### Servers -/

def handleServerAppeared (env : ConsumerEnv υ) (now : ℕ) (s : ResourceConsumer υ)
    (serverId : EndpointId) : ResourceConsumer υ :=
  { s with
    currentServers := s.currentServers.assign serverId
      ⟨⟨env.serverCheckInterval,0⟩,⟨env.serverResponseTimeout,now+env.serverResponseTimeout⟩⟩ }

def handleServerLost (s : ResourceConsumer υ) (serverId : EndpointId) : ResourceConsumer υ :=
  { s with
    streamedResources := s.streamedResources.mapValues (fun _ info =>
      if info.sourceServerId = serverId then { info with sourceServerId := broadcastEndpointId }
      else info)
    currentServers := s.currentServers.erase serverId }

def handleMissing [DecidableEq υ] (s : ResourceConsumer υ) (serverId : EndpointId)
    (locator : υ) : ResourceConsumer υ :=
  { s with
    streamedResources := s.streamedResources.mapValues (fun _ info =>
      if info.locator = locator ∧ info.sourceServerId = serverId then
        { info with sourceServerId := broadcastEndpointId }
      else info) }

def handleAlive (now : ℕ) (s : ResourceConsumer υ) (endpointId : EndpointId) :
    ResourceConsumer υ :=
  { s with serverEndpoints := s.serverEndpoints.mapValues (fun id time =>
      if id = endpointId then now else time) }

def handleSubscribed (env : ConsumerEnv υ) (now : ℕ) (s : ResourceConsumer υ)
    (endpointId : EndpointId) (msgId : MessageId) : ResourceConsumer υ :=
  if msgId = getContentId then
    let known := s.serverEndpoints.contains endpointId
    let s := if known then s else s.handleServerAppeared env now endpointId
    { s with serverEndpoints := s.serverEndpoints.assign endpointId now }
  else s

def removeServer (s : ResourceConsumer υ) (endpointId : EndpointId) : ResourceConsumer υ :=
  let s := if s.serverEndpoints.contains endpointId then s.handleServerLost endpointId else s
  { s with
    serverEndpoints := s.serverEndpoints.erase endpointId
    hostnameToEndpoint := (s.hostnameToEndpoint.mapValues
      (fun _ ids => ids.filter (· ≠ endpointId))).eraseIf (fun _ ids => ids.isEmpty) }

def handleUnsubscribed (s : ResourceConsumer υ) (endpointId : EndpointId) (msgId : MessageId) :
    ResourceConsumer υ :=
  if msgId = getContentId then s.removeServer endpointId else s

def handleHostnameReceived (s : ResourceConsumer υ) (endpointId : EndpointId)
    (hostname : String) : ResourceConsumer υ :=
  if hostname ≠ "" then
    let ids := (s.hostnameToEndpoint.find? hostname).getD []
    { s with
      hostnameToEndpoint := s.hostnameToEndpoint.assign hostname
        (if endpointId ∈ ids then ids else ids ++ [endpointId]) }
  else s

def handlePingResponse (now : ℕ) (s : ResourceConsumer υ) (serverId : EndpointId) :
    ResourceConsumer υ :=
  s.responding now serverId

def handlePingTimeout (now : ℕ) (s : ResourceConsumer υ) (serverId : EndpointId) :
    ResourceConsumer υ :=
  match s.currentServers.find? serverId with
  | none => s
  | some info => if info.notResponding.isExpired now then s.handleServerLost serverId else s

/-! ### Queries -/

def serverEndpointId (env : ConsumerEnv υ) (s : ResourceConsumer υ) (locator : υ) :
    EndpointId :=
  if env.hasScheme locator "eagimbe" then
    match env.hostId locator with
    | some id => if s.serverEndpoints.contains id then id else broadcastEndpointId
    | none => broadcastEndpointId
  else if env.hasScheme locator "eagimbh" then
    match (env.host locator).bind s.hostnameToEndpoint.find? with
    | some ids => (ids.find? s.serverEndpoints.contains).getD broadcastEndpointId
    | none => broadcastEndpointId
  else broadcastEndpointId

def query (s : ResourceConsumer υ) (q : ResourceQuery υ) : ResourceConsumer υ :=
  { s with queries := s.queries ++ [q] }

def searchResource (env : ConsumerEnv υ) (s : ResourceConsumer υ) (serverId : EndpointId)
    (locator : υ) : ResourceConsumer υ :=
  if env.serializable locator then s.query (.search serverId locator) else s

def queryResourceContent (env : ConsumerEnv υ) (now : ℕ) (s : ResourceConsumer υ)
    (endpointId : EndpointId) (locator : υ) (writeIo : ℕ) (priority : MessagePriority)
    (maxTime : ℕ) : Option MessageSequence × ResourceConsumer υ :=
  let endpointId := if endpointId = broadcastEndpointId then s.serverEndpointId env locator
    else endpointId
  if env.serializable locator then
    (some s.nextSequenceNo,{ s.query (.content endpointId locator priority s.nextSequenceNo) with
      nextSequenceNo := (s.nextSequenceNo+1) % sequenceCount
      blobs := s.blobs.expectIncoming ⟨now,env.adjustedDuration⟩ resourceContentId endpointId
        s.nextSequenceNo (.shared writeIo []) maxTime })
  else (none,s)

/-- The first request for the resource that has no source is served. -/
def handleResourceFound [DecidableEq υ] (env : ConsumerEnv υ) (now : ℕ)
    (s : ResourceConsumer υ) (serverId : EndpointId) (locator : υ) : ResourceConsumer υ :=
  match s.streamedResources.entries.find? (fun e =>
      e.2.locator = locator && !isValidId e.2.sourceServerId) with
  | none => s
  | some (requestId,info) =>
    match s.queryResourceContent env now serverId info.locator info.resourceIo info.blobPriority
        info.blobTimeout with
    | (none,s) => s
    | (some id,s) =>
      { s with
        streamedResources := s.streamedResources.assign requestId
          { info with sourceServerId := serverId, blobStreamId := id } }

/-! ### Updates -/

def checkServers (env : ConsumerEnv υ) (now : ℕ) (s : ResourceConsumer υ) :
    ResourceConsumer υ :=
  { s with
    queries := s.queries ++ (s.currentServers.entries.filter
      (fun e => e.2.shouldCheck.isExpired now)).map
      (fun e => .ping e.1 (env.adjustedDuration e.2.shouldCheck.duration))
    currentServers := s.currentServers.mapValues (fun _ info =>
      if info.shouldCheck.isExpired now then
        { info with shouldCheck := info.shouldCheck.reset now } else info) }

def shouldSearchNow (now : ℕ) (info : StreamedResourceInfo υ) : Bool :=
  !isValidId info.sourceServerId && info.shouldSearch.isExpired now

def searchServersFor (env : ConsumerEnv υ) (now : ℕ) (s : ResourceConsumer υ) (locator : υ) :
    ResourceConsumer υ :=
  (s.currentServers.entries.filter (fun e => !e.2.notResponding.isExpired now)).foldl
    (fun s e => s.searchResource env e.1 locator) s

def searchResources (env : ConsumerEnv υ) (now : ℕ) (s : ResourceConsumer υ) :
    ResourceConsumer υ :=
  let s := (s.streamedResources.entries.filter (fun e => shouldSearchNow now e.2)).foldl
    (fun s e => s.searchServersFor env now e.2.locator) s
  { s with streamedResources := s.streamedResources.mapValues (fun _ info =>
      if shouldSearchNow now info then { info with shouldSearch := info.shouldSearch.reset now }
      else info) }

def completionIo : Completion TransferIo → TransferIo
  | .fetched pending _ _ _ => pending.io
  | .finished _ _ _ _ io => io

def handleComplete (env : ConsumerEnv υ) (now : ℕ) (s : ResourceConsumer υ) :
    ResourceConsumer υ :=
  let done := s.blobs.handleComplete ⟨now,env.adjustedDuration⟩
  s.settle now done.1 (done.2.map completionIo)

def updateBlobs (env : ConsumerEnv υ) (now : ℕ) (s : ResourceConsumer υ) :
    ResourceConsumer υ :=
  let out := s.blobs.update env.serializer ⟨now,env.adjustedDuration⟩ env.doSend
    env.minConnectionDataSize
  let s := s.settle now out.manipulator out.cancelled
  { s with queries := s.queries ++ out.sends.map .blob }

def searchForServers (now : ℕ) (s : ResourceConsumer υ) : ResourceConsumer υ :=
  if s.searchServers.isExpired now then
    { s.query (.subscribers getContentId) with searchServers := s.searchServers.reset now }
  else s

/-- `update_and_process_all` up to the handling of messages, which are events
of their own. -/
def updateAndProcessAll (env : ConsumerEnv υ) (now : ℕ) (s : ResourceConsumer υ) :
    ResourceConsumer υ :=
  ((((s.checkServers env now).searchResources env now).handleComplete env now).updateBlobs
    env now).searchForServers now

/-! ### Events -/

inductive ConsumerEvent (υ : Type) where
  | streamResource (locator : υ) (maxTime : Option ℕ) (priority : Option MessagePriority)
  | fetchResourceChunks (locator : υ) (maxTime : Option ℕ) (priority : Option MessagePriority)
      (chunkSize : ℕ)
  | cancelResourceStream (requestId : ℕ)
  | alive (endpointId : EndpointId)
  | subscribed (endpointId : EndpointId) (msgId : MessageId)
  | unsubscribed (endpointId : EndpointId) (msgId : MessageId)
  | hostnameReceived (endpointId : EndpointId) (hostname : String)
  | hasResource (message : MessageView)
  | hasNotResource (message : MessageView)
  | fragment (message : MessageView)
  | resourceNotFound (message : MessageView)
  | resourcePrepare (message : MessageView)
  | resourceResend (message : MessageView)
  | pingResponse (serverId : EndpointId)
  | pingTimeout (serverId : EndpointId)
  | update
  /-- Another endpoint of the context takes a number for a query of content. -/
  | sequenceNoTaken

/-- The buffers of transfers that nobody asked for. -/
def makeTransferIo (s : ResourceConsumer υ) : BlobManipulator.TargetIoGetter TransferIo :=
  fun _ totalSize => (s.blobs.makeTargetIo totalSize).map .buffer

def handleResourceFragment (env : ConsumerEnv υ) (now : ℕ) (s : ResourceConsumer υ)
    (message : MessageView) : ResourceConsumer υ :=
  s.settle now (s.blobs.processIncoming env.serializer ⟨now,env.adjustedDuration⟩
    s.makeTransferIo message).2 []

def handleResourceNotFound (now : ℕ) (s : ResourceConsumer υ) (message : MessageView) :
    ResourceConsumer υ :=
  let out := s.blobs.cancelIncoming message.sequenceNo
  s.settle now out.2 out.1.toList

def handleResourcePrepare (env : ConsumerEnv υ) (now : ℕ) (s : ResourceConsumer υ)
    (message : MessageView) : ResourceConsumer υ :=
  s.settle now (s.blobs.processPrepare env.serializer ⟨now,env.adjustedDuration⟩ message) []

def handleResourceResendRequest (env : ConsumerEnv υ) (s : ResourceConsumer υ)
    (message : MessageView) : ResourceConsumer υ :=
  { s with blobs := s.blobs.processResend env.serializer message }

/-- The time and the event. -/
def step [DecidableEq υ] (env : ConsumerEnv υ) (s : ResourceConsumer υ) :
    ℕ × ConsumerEvent υ → ResourceConsumer υ
  | (_,.streamResource locator maxTime priority) =>
    s.streamResource env locator maxTime priority
  | (_,.fetchResourceChunks locator maxTime priority chunkSize) =>
    s.fetchResourceChunks env locator maxTime priority chunkSize
  | (_,.cancelResourceStream requestId) => s.cancelResourceStream requestId
  | (now,.alive endpointId) => s.handleAlive now endpointId
  | (now,.subscribed endpointId msgId) => s.handleSubscribed env now endpointId msgId
  | (_,.unsubscribed endpointId msgId) => s.handleUnsubscribed endpointId msgId
  | (_,.hostnameReceived endpointId hostname) => s.handleHostnameReceived endpointId hostname
  | (now,.hasResource message) =>
    match env.readLocator (message.content env.serializer.getDataWithSize) with
    | none => s
    | some locator => s.handleResourceFound env now message.sourceId locator
  | (_,.hasNotResource message) =>
    match env.readLocator (message.content env.serializer.getDataWithSize) with
    | none => s
    | some locator => s.handleMissing message.sourceId locator
  | (now,.fragment message) => s.handleResourceFragment env now message
  | (now,.resourceNotFound message) => s.handleResourceNotFound now message
  | (now,.resourcePrepare message) => s.handleResourcePrepare env now message
  | (_,.resourceResend message) => s.handleResourceResendRequest env message
  | (now,.pingResponse serverId) => s.handlePingResponse now serverId
  | (now,.pingTimeout serverId) => s.handlePingTimeout now serverId
  | (now,.update) => s.updateAndProcessAll env now
  | (_,.sequenceNoTaken) =>
    { s with nextSequenceNo := (s.nextSequenceNo+1) % sequenceCount }

end ResourceConsumer

end MsgBus
