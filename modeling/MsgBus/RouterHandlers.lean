import MsgBus.Router

/-!
# How a router handles messages

The special messages of the bus change the router, are answered by it, or are
forwarded; all others are forwarded. A handler returns whether it has handled
the message, in which case it is not forwarded.
-/

set_option autoImplicit false

namespace MsgBus

namespace Router

variable (env : RouterEnv) (clk : Clock)

def content (message : MessageView) : Block := message.content env.serializer.getDataWithSize

/-- A call of `_route_message` by the router. -/
def route (r : Router) (msgId : MessageId) (incomingId : EndpointId) (message : MessageView) :
    Router :=
  { r with sent := (r.routeMessage env.transport clk.now r.sent msgId incomingId message).2 }

/-- An answer to a request under the given source. -/
def response (data : Block) (sourceId : EndpointId) (request : MessageView) : MessageView where
  toMessageInfo := { MessageInfo.setupResponse {} request.toMessageInfo with sourceId }
  data := data

/-- The answer is routed as a message from the router itself. -/
def respond (r : Router) (msgId : MessageId) (message : MessageView) : Router :=
  r.route env clk msgId r.getId message

section Common

variable (r : Router) (incomingId : EndpointId) (message : MessageView)

def handlePing : Bool × Router :=
  if message.targetId = r.getId then
    (true,r.respond env clk (msgbusId .pong) (response [] r.getId message))
  else (false,r)

def updateEndpointInfo : Router :=
  { r with nodes := r.nodes.updateEndpointInfo clk incomingId message }

def modifyInfo (id : EndpointId) (f : RouterEndpointInfo → RouterEndpointInfo) : Router :=
  { r with nodes := r.nodes.modifyInfo id f }

def handleSubscribed : Bool × Router :=
  match env.readMessageType (content env message) with
  | some subMsgId =>
    (false,(r.updateEndpointInfo clk incomingId message).modifyInfo message.sourceId
      (fun info => info.addSubscription subMsgId))
  | none => (false,r)

def handleNotSubscribed : Bool × Router :=
  match env.readMessageType (content env message) with
  | some subMsgId =>
    (false,(r.updateEndpointInfo clk incomingId message).modifyInfo message.sourceId
      (fun info => info.removeSubscription subMsgId))
  | none => (false,r)

def handleSubscribersQuery : Bool × Router :=
  match env.readMessageType (content env message) with
  | some subMsgId =>
    let (isSub,isNotSub,instId) := r.nodes.subscribesTo message.targetId subMsgId
    let answer : MessageView :=
      { response message.data message.targetId message with sequenceNo := instId }
    let r := if isSub = some true then r.respond env clk (msgbusId .subscribTo) answer else r
    (false,if isNotSub = some true then r.respond env clk (msgbusId .notSubTo) answer else r)
  | none => (false,r)

def handleSubscriptionsQuery : Bool × Router :=
  let (subs,instId) := r.nodes.subscriptionsOf message.targetId
  (false,subs.foldl (fun r subMsgId =>
    match env.writeMessageType subMsgId with
    | some serialized => r.respond env clk (msgbusId .subscribTo)
        { response serialized message.targetId message with sequenceNo := instId }
    | none => r) r)

def handlePasswordRequest : Bool × Router :=
  if r.hasId message.targetId then
    match env.encryptSharedPassword message.data with
    | some encrypted =>
      (true,{ r with
        sent := (r.parentRouter.send env.transport r.sent (msgbusId .encRutrPwd)
          (response encrypted broadcastEndpointId message)).2 })
    | none => (true,r)
  else (true,r)

/-- A blob that the router pushes, under the given source. -/
def pushCertificate (msgId : MessageId) (sourceId targetId : EndpointId)
    (targetBlobId : BlobId) (pem : Block) : Router :=
  { r with
    blobs := (r.blobs.pushOutgoing clk msgId sourceId targetId targetBlobId pem
      (clk.adjustedDuration 30000) 0 .high).2 }

def handleRouterCertificateQuery : Bool × Router :=
  (true,r.pushCertificate clk (msgbusId .rtrCertPem) 0 message.sourceId message.sequenceNo
    r.context.ownCertificatePem)

def handleEndpointCertificateQuery : Bool × Router :=
  let certPem := r.context.getRemoteCertificatePem message.targetId
  if certPem ≠ [] then
    (true,r.pushCertificate clk (msgbusId .eptCertPem) message.targetId message.sourceId
      message.sequenceNo certPem)
  else (false,r)

def respondTopology (r : Router) (remoteId : EndpointId) (connectKind : ConnectionKind)
    (message : MessageView) : Router :=
  match env.writeTopology ⟨r.getId,remoteId,r.ids.instanceId,connectKind⟩ with
  | some serialized =>
    r.respond env clk (msgbusId .topoRutrCn) (response serialized r.getId message)
  | none => r

def connectionKindOf (connection : Option Connection) : ConnectionKind :=
  match connection with
  | some connection => connection.kind
  | none => .unknown

def handleTopologyQuery : Bool × Router :=
  let r := r.nodes.nodes.entries.foldl (fun r e =>
    r.respondTopology env clk e.1 (connectionKindOf e.2.connection) message) r
  (false,if r.parentRouter.isConfirmed then
      r.respondTopology env clk r.parentRouter.confirmedId
        (connectionKindOf r.parentRouter.connection) message
    else r)

def respondStatistics (r : Router) (hop : Hop) (message : MessageView) : Router :=
  match env.connectionStatistics r.sent hop with
  | some serialized =>
    r.respond env clk (msgbusId .statsConn) (response serialized r.getId message)
  | none => r

def handleStatsQuery : Bool × Router :=
  let r := match env.routerStatistics r.sent with
    | some serialized =>
      r.respond env clk (msgbusId .statsRutr) (response serialized r.getId message)
    | none => r
  let r := r.nodes.nodes.entries.foldl (fun r e =>
    if e.2.connection.isSome then r.respondStatistics env clk (.node e.1) message else r) r
  (false,if r.parentRouter.isConfirmed then r.respondStatistics env clk .parent message else r)

/-- What a router does with a blob it has received completely. -/
def handleBlob (r : Router) : Completion BufferBlobIo → Router
  | .fetched _ msgId _ message =>
    if isSpecialMessage msgId ∧ msgId.method = .eptCertPem then
      let r := if r.hasNodeId message.sourceId then
          { r with
            context := r.context.addRemoteCertificatePem env.parseX509 message.sourceId
              (content env message) }
        else r
      if message.targetId ≠ 0 then
        r.pushCertificate clk (msgbusId .eptCertPem) message.sourceId message.targetId
          message.sequenceNo (content env message)
      else r
    else r
  | .finished _ _ _ _ _ => r

def getBlobTargetIo (r : Router) : BlobManipulator.TargetIoGetter BufferBlobIo := fun msgId size =>
  if isSpecialMessage msgId then
    if msgId.method = .eptCertPem then r.blobs.makeTargetIo size else none
  else none

def handleBlobFragment : Bool × Router :=
  let (processed,blobs) := r.blobs.processIncoming env.serializer clk r.getBlobTargetIo message
  let r' := { r with blobs }
  (r.hasId message.targetId,
    if processed then
      let (blobs,completed) := r'.blobs.fetchAll clk
      completed.foldl (fun r c => r.handleBlob env clk c) { r' with blobs }
    else r')

def handleBlobResend : Bool × Router :=
  if r.hasId message.targetId then
    (true,{ r with blobs := r.blobs.processResend env.serializer message })
  else (false,r)

def handleBlobPrepare : Bool × Router :=
  if r.hasId message.targetId then
    (true,{ r with blobs := r.blobs.processPrepare env.serializer clk message })
  else (false,r)

/-- Special messages without a case of their own are forwarded, among them the
answers of pings and of topology and statistics queries. -/
def handleSpecialCommon (msgId : MessageId) : Bool × Router :=
  match msgId.method with
  | .ping => r.handlePing env clk message
  | .subscribTo => r.handleSubscribed env clk incomingId message
  | .unsubFrom => r.handleNotSubscribed env clk incomingId message
  | .notSubTo => r.handleNotSubscribed env clk incomingId message
  | .qrySubscrb => r.handleSubscribersQuery env clk message
  | .qrySubscrp => r.handleSubscriptionsQuery env clk message
  | .blobFrgmnt => r.handleBlobFragment env clk message
  | .blobResend => r.handleBlobResend env message
  | .blobPrpare => r.handleBlobPrepare env clk message
  | .rtrCertQry => r.handleRouterCertificateQuery clk message
  | .eptCertQry => r.handleEndpointCertificateQuery clk message
  | .topoQuery => r.handleTopologyQuery env clk message
  | .statsQuery => r.handleStatsQuery env clk message
  | .reqRutrPwd => r.handlePasswordRequest env message
  | .requestId => (true,r)
  | .msgFlowInf => (true,r)
  | .annEndptId => (true,r)
  | _ => (false,r)

end Common

section Node

variable (r : Router) (incomingId : EndpointId) (message : MessageView)

/-- The node of the connection that a message came from is changed. -/
def modifyNode (f : AdjacentNode → AdjacentNode) : Router :=
  { r with nodes := r.nodes.modifyNode incomingId f }

def handleNotNotARouter : Bool × Router :=
  if incomingId = message.sourceId then
    (true,r.modifyNode incomingId (fun node => node.markNotARouter))
  else (true,r)

def handleMsgAllow : Bool × Router :=
  match env.readMessageType (content env message) with
  | some alwMsgId =>
    (true,(r.modifyNode incomingId (fun node => node.allowMessage alwMsgId)).updateEndpointInfo
      clk incomingId message)
  | none => (false,r)

def handleMsgBlock : Bool × Router :=
  match env.readMessageType (content env message) with
  | some blkMsgId =>
    if !isSpecialMessage blkMsgId then
      (true,(r.modifyNode incomingId (fun node => node.blockMessage blkMsgId)).updateEndpointInfo
        clk incomingId message)
    else (false,r)
  | none => (false,r)

def handleByeBye : Bool × Router :=
  let r := r.modifyNode incomingId (fun node => node.handleByeBye)
  (false,{ r with nodes := r.nodes.erase message.sourceId })

/-- `_do_handle_special` for a message from a node. -/
def handleSpecialFromNode (msgId : MessageId) : Bool × Router :=
  match msgId.method with
  | .notARouter => r.handleNotNotARouter incomingId message
  | .clrBlkList => (true,r.modifyNode incomingId (fun node => node.clearBlockList))
  | .clrAlwList => (true,r.modifyNode incomingId (fun node => node.clearAllowList))
  | .stillAlive => (false,r.updateEndpointInfo clk incomingId message)
  | .msgAlwList => r.handleMsgAllow env clk incomingId message
  | .msgBlkList => r.handleMsgBlock env clk incomingId message
  | .byeByeEndp => r.handleByeBye incomingId message
  | .byeByeRutr => r.handleByeBye incomingId message
  | .byeByeBrdg => r.handleByeBye incomingId message
  | _ => r.handleSpecialCommon env clk incomingId message msgId

def handleSpecial (msgId : MessageId) : Bool × Router :=
  if isSpecialMessage msgId then r.handleSpecialFromNode env clk incomingId message msgId
  else (false,r)

end Node

def aged (message : MessageView) (age : MessageAge) : MessageView :=
  { message with toMessageInfo := message.addAge age }

def handleNodeMessage (r : Router) (incomingId : EndpointId) (msgId : MessageId)
    (age : MessageAge) (message : MessageView) : Router :=
  let message := aged message age
  let handled := r.handleSpecial env clk incomingId message msgId
  if handled.1 then handled.2
  else if message.tooOld then handled.2
  else handled.2.route env clk msgId incomingId message

/-- `_do_handle_special` for a message from the parent. -/
def handleSpecialFromParent (r : Router) (incomingId : EndpointId) (message : MessageView)
    (msgId : MessageId) : Bool × Router :=
  if msgId.method ≠ .stillAlive then r.handleSpecialCommon env clk incomingId message msgId
  else (false,r.updateEndpointInfo clk incomingId message)

def handleSpecialParentMessage (r : Router) (msgId : MessageId) (message : MessageView) :
    Router :=
  match msgId.method with
  | .byeByeEndp => r
  | .byeByeRutr => r
  | .byeByeBrdg => r
  | .confirmId => { r with parentRouter := r.parentRouter.confirmId message }
  | _ =>
    let handled := r.handleSpecialFromParent env clk r.parentRouter.confirmedId message msgId
    if handled.1 then handled.2 else handled.2.route env clk msgId r.getId message

def handleParentMessage (r : Router) (incomingId : EndpointId) (msgId : MessageId)
    (age : MessageAge) (message : MessageView) : Router :=
  let message := aged message age
  if isSpecialMessage msgId then r.handleSpecialParentMessage env clk msgId message
  else if message.tooOld then r
  else r.route env clk msgId incomingId message

section Pending

/-- `_assign_id`; a scan that does not end assigns nothing. -/
def assignId (r : Router) (link : ℕ) : Router :=
  match r.ids.getNextId r.hasNodeId env.getNextIdFuel with
  | none => r
  | some (nextId,ids) =>
    let r' := { r with ids }
    if nextId ≠ 0 then
      { r' with
        sent := (env.transport.send r.sent (.pending link) (msgbusId .assignId)
          { sourceId := r.getId, targetId := nextId }).2 }
    else r'

/-- What a pending connection does not handle is left for the node. -/
def handlePendingMessage (r : Router) (pending : RouterPending) (msgId : MessageId)
    (message : MessageView) : RouterPending × Router :=
  if isSpecialMessage msgId then
    match msgId.method with
    | .requestId => (pending,r.assignId env pending.link)
    | .annEndptId => ({ pending with id := message.sourceId, maybeRouter := false },r)
    | .announceId => ({ pending with id := message.sourceId },r)
    | .encRutrPwd =>
      if env.matchesEncryptedSharedPassword pending.nonce message.data then
        ({ pending with passwordVerified := true },r)
      else (pending,r)
    | _ => (pending,r)
  else (pending,r)

def updatePending (random : Block) :
    List (MessageId × MessageView) → RouterPending → Router → RouterPending × Router
  | [], pending, r =>
    let (pending,sent) := pending.tryRequestPassword env.transport r.sent clk r.getId random
    (pending,{ r with sent })
  | (msgId,message)::rest, pending, r =>
    let (pending,r) := r.handlePendingMessage env pending msgId message
    updatePending random rest pending r

def adoptPending (r : Router) (pending : RouterPending) : RouterPending × Router :=
  let (nodes,sent) := r.nodes.adoptPending env.transport r.sent r.getId pending
  ({ pending with connection := none },
    { r with
      nodes, sent
      useWorkerThreads := if r.hasNodeId pending.id then r.useWorkerThreads
        else 2 < nodes.nodes.size })

/-- The loop of `_do_handle_pending`: what each connection has fetched and
the random bytes come from outside. The entries that stay are returned. -/
def handlePendingLoop (fetched : ℕ → List (MessageId × MessageView)) (random : ℕ → Block) :
    List RouterPending → Router → List RouterPending × Router
  | [], r => ([],r)
  | pending::rest, r =>
    if pending.shouldBeRemoved clk.now then handlePendingLoop fetched random rest r
    else
      let (pending,r) := updatePending env clk (random pending.link) (fetched pending.link)
        pending r
      let (pending,r) := if pending.canBeAdopted clk.now then r.adoptPending env pending
        else (pending,r)
      let (rest,r) := handlePendingLoop fetched random rest r
      (pending::rest,r)

def handlePending (r : Router) (fetched : ℕ → List (MessageId × MessageView))
    (random : ℕ → Block) : Router :=
  let (pending,r) := handlePendingLoop env clk fetched random r.nodes.pending r
  { r with nodes := { r.nodes with pending } }

def handleAccept (r : Router) (connection : Connection) : Router :=
  { r with
    nodes := { r.nodes with
      pending := r.nodes.pending ++
        [RouterPending.accept clk r.passwordIsRequired connection] } }

end Pending

section Blobs

/-- What is sent for the resend requests of the router. -/
def resendSends (r : Router) (parentId : EndpointId) : List Sent → List SendAttempt → List Sent
  | sent, [] => sent
  | sent, a::log => resendSends r parentId
      (r.routeMessage env.transport clk.now sent a.msgId parentId a.message).2 log

def resendHandler (r : Router) (parentId : EndpointId) : SendHandler := fun log msgId request =>
  (r.routeMessage env.transport clk.now (r.resendSends env clk parentId r.sent log) msgId
    parentId request).1

/-- `router_blobs::process_blobs`. -/
def updateBlobs (r : Router) (parentId : EndpointId) : Router :=
  let (blobs,_) := r.blobs.handleComplete clk
  let updated := blobs.update env.serializer clk (r.resendHandler env clk parentId)
    minConnectionDataSize
  { r with
    blobs := updated.manipulator
    sent := r.resendSends env clk parentId r.sent updated.sends }

def processBlobsLoop : List (EndpointId × AdjacentNode) →
    BlobManipulator BufferBlobIo BufferBlobIo → List Sent →
    BlobManipulator BufferBlobIo BufferBlobIo × List Sent
  | [], blobs, sent => (blobs,sent)
  | (nodeId,node)::rest, blobs, sent =>
    let (blobs,sent) := node.processBlobs env.transport env.serializer clk nodeId blobs sent
    processBlobsLoop rest blobs sent

def processBlobs (r : Router) : Router :=
  let r := r.updateBlobs env clk r.getId
  if r.blobs.hasOutgoing then
    let (blobs,sent) := processBlobsLoop env clk r.nodes.nodes.entries r.blobs r.sent
    { r with blobs, sent }
  else r

end Blobs

def addConnection (r : Router) (connection : Connection) : Router :=
  { r with parentRouter := r.parentRouter.reset connection }

def updateParent (r : Router) : Router :=
  let (parentRouter,sent) := r.parentRouter.update env.transport r.sent clk r.getId
  { r with parentRouter, sent }

def sendFlowInfo (r : Router) (serialized : Block) : Router :=
  { r with
    sent := r.nodes.nodes.entries.foldl (fun sent e =>
      (e.2.send env.transport sent e.1 (msgbusId .msgFlowInf)
        { sourceId := r.getId, targetId := e.1, priority := .high, data := serialized }).2)
      r.sent }

def removeTimeouted (r : Router) : Router :=
  { r with nodes := r.nodes.removeTimeouted clk.now }

def removeDisconnected (r : Router) : Router :=
  { r with nodes := r.nodes.removeDisconnected clk.now }

end Router

end MsgBus
