import MsgBus.RouterNodes

/-!
# The router

A message that is routed goes where the endpoint index sends it, else to the
node with the id of its target, else to every node that may be a router and to
the parent; a broadcast goes to all. Routing leaves the router as it is but
for what it has sent. Everything outside of the router (the answers of
connections, the serializers, certificates, passwords, random bytes) is a
parameter. The counters behind the statistics are left out.
-/

set_option autoImplicit false

namespace MsgBus

structure RouterIds where
  idBase : EndpointId
  idEnd : EndpointId
  idSequence : EndpointId
  instanceId : ℕ
  deriving DecidableEq, Repr

namespace RouterIds

def routerId (ids : RouterIds) : EndpointId := ids.idBase

def setupFromConfig (idBase idCount instanceId : ℕ) : RouterIds :=
  if idBase ≠ 0 then ⟨idBase,idBase+idCount,idBase+1,instanceId⟩
  else ⟨1,idCount,2,instanceId⟩

/-- The scan for an id that no node has; it need not end. -/
def nextIdScan (hasNodeId : EndpointId → Bool) (seqOrig : EndpointId) :
    ℕ → RouterIds → Option (EndpointId × RouterIds)
  | 0, _ => none
  | fuel+1, ids =>
    if hasNodeId ids.idSequence then
      let next := ids.idSequence+1
      if ids.idEnd ≤ next then
        nextIdScan hasNodeId seqOrig fuel { ids with idSequence := ids.idBase+1 }
      else if next = seqOrig then some (0,{ ids with idSequence := next })
      else nextIdScan hasNodeId seqOrig fuel { ids with idSequence := next }
    else some (ids.idSequence,{ ids with idSequence := ids.idSequence+1 })

def getNextId (hasNodeId : EndpointId → Bool) (fuel : ℕ) (ids : RouterIds) :
    Option (EndpointId × RouterIds) :=
  nextIdScan hasNodeId ids.idSequence fuel ids

end RouterIds

structure RouterContext where
  ownCertificatePem : Block := []
  remotes : OrderedMap EndpointId Block := .empty
  deriving DecidableEq

namespace RouterContext

/-- A certificate that can be parsed is kept, also if it is not verified. -/
def addRemoteCertificatePem (parseX509 : Block → Bool) (context : RouterContext)
    (id : EndpointId) (blk : Block) : RouterContext :=
  if blk ≠ [] ∧ parseX509 blk then { context with remotes := context.remotes.assign id blk }
  else context

def getRemoteCertificatePem (context : RouterContext) (id : EndpointId) : Block :=
  (context.remotes.find? id).getD []

end RouterContext

structure RouterTopologyInfo where
  routerId : EndpointId
  remoteId : EndpointId
  instanceId : ℕ
  connectKind : ConnectionKind
  deriving DecidableEq, Repr

/-- What a router relies on from outside. The statistics are those after what
has been sent. -/
structure RouterEnv where
  transport : Transport
  serializer : BlobSerializer
  readMessageType : Block → Option MessageId
  writeMessageType : MessageId → Option Block
  writeTopology : RouterTopologyInfo → Option Block
  routerStatistics : List Sent → Option Block
  connectionStatistics : List Sent → Hop → Option Block
  matchesEncryptedSharedPassword : Block → Block → Bool
  encryptSharedPassword : Block → Option Block
  parseX509 : Block → Bool
  getNextIdFuel : ℕ

structure Router where
  ids : RouterIds
  context : RouterContext := {}
  parentRouter : ParentRouter := {}
  nodes : RouterNodes := {}
  blobs : BlobManipulator BufferBlobIo BufferBlobIo
  passwordIsRequired : Bool := false
  useWorkerThreads : Bool := false
  sent : List Sent := []

/-- `min_connection_data_size`. -/
def minConnectionDataSize : ℕ := 4096

namespace Router

def init (ids : RouterIds) (ownCertificatePem : Block) (passwordIsRequired : Bool) : Router where
  ids := ids
  context := { ownCertificatePem }
  blobs :=
    { fragmentMsgId := msgbusId .blobFrgmnt
      resendMsgId := msgbusId .blobResend
      prepareMsgId := msgbusId .blobPrpare }
  passwordIsRequired := passwordIsRequired

def getId (r : Router) : EndpointId := r.ids.routerId

def hasId (r : Router) (id : EndpointId) : Bool := r.getId = id

def hasNodeId (r : Router) (id : EndpointId) : Bool := r.nodes.hasId id

section Routing

variable (r : Router) (tr : Transport) (now : ℕ) (sent : List Sent) (msgId : MessageId)
  (incomingId : EndpointId) (message : MessageView)

def forwardTo (node : AdjacentNode) (id : EndpointId) : Bool × List Sent :=
  node.send tr sent id msgId message

/-- The first stage of `_route_targeted_message`: by the endpoint index. -/
def routeIndexed : Bool × List Sent :=
  let outgoingId := r.nodes.findOutgoing message.targetId
  if outgoingId ≠ 0 then
    if outgoingId = r.getId then r.parentRouter.send tr sent msgId message
    else match r.nodes.find outgoingId with
      | some nodeOut =>
        if nodeOut.isAllowed msgId then forwardTo tr sent msgId message nodeOut outgoingId
        else (false,sent)
      | none => (false,sent)
  else (false,sent)

/-- The loop of the second stage: the node with the id of the target. -/
def routeDirectLoop : List (EndpointId × AdjacentNode) → Bool × List Sent → Bool × List Sent
  | [], acc => acc
  | (outgoingId,nodeOut)::rest, (hasRouted,sent) =>
    routeDirectLoop rest (
      if outgoingId = message.targetId then
        if nodeOut.isAllowed msgId then forwardTo tr sent msgId message nodeOut outgoingId
        else (hasRouted,sent)
      else (hasRouted,sent))

def routeDirect : Bool × List Sent :=
  routeDirectLoop tr msgId message r.nodes.nodes.entries (false,sent)

/-- The loop of the third stage: every node that may be a router. -/
def routeFloodLoop : List (EndpointId × AdjacentNode) → Bool × List Sent → Bool × List Sent
  | [], acc => acc
  | (outgoingId,nodeOut)::rest, (hasRouted,sent) =>
    routeFloodLoop rest (
      if incomingId ≠ outgoingId then
        let routed := nodeOut.tryRoute tr sent outgoingId msgId message
        (hasRouted || routed.1,routed.2)
      else (hasRouted,sent))

def routeFlood : Bool × List Sent :=
  let flooded := routeFloodLoop tr msgId incomingId message r.nodes.nodes.entries (false,sent)
  if incomingId ≠ r.getId then
    let routed := r.parentRouter.send tr flooded.2 msgId message
    (flooded.1 || routed.1,routed.2)
  else flooded

def routeTargetedMessage : Bool × List Sent :=
  let indexed := r.routeIndexed tr sent msgId message
  if indexed.1 then indexed
  else
    let direct := r.routeDirect tr indexed.2 msgId message
    if direct.1 then direct
    else if r.nodes.isDisconnected now message.targetId then (false,direct.2)
    else r.routeFlood tr direct.2 msgId incomingId message

def routeBroadcastLoop : List (EndpointId × AdjacentNode) → List Sent → List Sent
  | [], sent => sent
  | (outgoingId,nodeOut)::rest, sent =>
    routeBroadcastLoop rest (
      if incomingId ≠ outgoingId then
        if nodeOut.isAllowed msgId then (forwardTo tr sent msgId message nodeOut outgoingId).2
        else sent
      else sent)

def routeBroadcastMessage : Bool × List Sent :=
  let sent := routeBroadcastLoop tr msgId incomingId message r.nodes.nodes.entries sent
  if r.hasId incomingId then (true,sent)
  else (true,(r.parentRouter.send tr sent msgId message).2)

/-- The message with one more hop. -/
def hopped (message : MessageView) : MessageView :=
  { message with toMessageInfo := message.addHop }

def routeMessage : Bool × List Sent :=
  if message.tooManyHops then (true,sent)
  else if message.targetId ≠ broadcastEndpointId then
    let routed := r.routeTargetedMessage tr now sent msgId incomingId (hopped message)
    (true || routed.1,routed.2)
  else
    let routed := r.routeBroadcastMessage tr sent msgId incomingId (hopped message)
    (true || routed.1,routed.2)

end Routing

end Router

end MsgBus
