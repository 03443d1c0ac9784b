import MsgBus.BlobManipulator

/-!
# Adjacent nodes, pending connections and the parent of a router

A connection answers each send as it likes; the answer may depend on all that
was sent before. What is sent is appended to a log together with its answer.
The maps of a router are ordered by endpoint id.
-/

set_option autoImplicit false

namespace MsgBus

inductive ConnectionKind where
  | unknown | inProcess | localInterprocess | remoteInterprocess
  deriving DecidableEq, Repr

/-- A connection, told apart from others by its link number. -/
structure Connection where
  link : ℕ
  kind : ConnectionKind := .unknown
  usable : Bool := true
  maxDataSize : Option ℕ := none
  deriving DecidableEq, Repr

inductive Hop where
  | node (id : EndpointId)
  | parent
  | pending (link : ℕ)
  deriving DecidableEq, Repr

structure Sent where
  hop : Hop
  msgId : MessageId
  message : MessageView
  accepted : Bool
  deriving DecidableEq, Repr

abbrev Transport := List Sent → Hop → MessageId → MessageView → Bool

/-- `connection::send`. -/
def Transport.send (tr : Transport) (sent : List Sent) (hop : Hop) (msgId : MessageId)
    (message : MessageView) : Bool × List Sent :=
  (tr sent hop msgId message,sent ++ [⟨hop,msgId,message,tr sent hop msgId message⟩])

def messageIdListContains (list : List MessageId) (entry : MessageId) : Bool :=
  list.contains entry

def messageIdListAdd (list : List MessageId) (entry : MessageId) : List MessageId :=
  if messageIdListContains list entry then list else list ++ [entry]

def messageIdListRemove (list : List MessageId) (entry : MessageId) : List MessageId :=
  list.erase entry

structure AdjacentNode where
  connection : Option Connection := none
  messageBlockList : List MessageId := []
  messageAllowList : List MessageId := []
  maybeRouter : Bool := true
  doDisconnect : Bool := false
  deriving DecidableEq, Repr

namespace AdjacentNode

def isAllowed (node : AdjacentNode) (msgId : MessageId) : Bool :=
  if isSpecialMessage msgId then true
  else if node.messageAllowList ≠ [] then messageIdListContains node.messageAllowList msgId
  else if node.messageBlockList ≠ [] then !messageIdListContains node.messageBlockList msgId
  else true

def setup (node : AdjacentNode) (connection : Option Connection) (maybeRouter : Bool) :
    AdjacentNode :=
  { node with connection, maybeRouter }

def markNotARouter (node : AdjacentNode) : AdjacentNode := { node with maybeRouter := false }

def handleByeBye (node : AdjacentNode) : AdjacentNode :=
  if !node.maybeRouter then { node with doDisconnect := true } else node

def shouldDisconnect (node : AdjacentNode) : Bool := node.connection.isNone || node.doDisconnect

def cleanupConnection (node : AdjacentNode) : AdjacentNode :=
  if node.connection.isSome then { node with connection := none, doDisconnect := false } else node

def blockMessage (node : AdjacentNode) (msgId : MessageId) : AdjacentNode :=
  { node with messageBlockList := messageIdListAdd node.messageBlockList msgId }

def allowMessage (node : AdjacentNode) (msgId : MessageId) : AdjacentNode :=
  { node with messageAllowList := messageIdListAdd node.messageAllowList msgId }

def clearBlockList (node : AdjacentNode) : AdjacentNode := { node with messageBlockList := [] }

def clearAllowList (node : AdjacentNode) : AdjacentNode := { node with messageAllowList := [] }

def send (node : AdjacentNode) (tr : Transport) (sent : List Sent) (id : EndpointId)
    (msgId : MessageId) (message : MessageView) : Bool × List Sent :=
  if node.connection.isSome then tr.send sent (.node id) msgId message else (false,sent)

def tryRoute (node : AdjacentNode) (tr : Transport) (sent : List Sent) (id : EndpointId)
    (msgId : MessageId) (message : MessageView) : Bool × List Sent :=
  if node.maybeRouter then node.send tr sent id msgId message else (false,sent)

/-- What the node's handler has sent over its connection: the messages for
this node. -/
def blobSends (tr : Transport) (id : EndpointId) : List Sent → List SendAttempt → List Sent
  | sent, [] => sent
  | sent, a::log => blobSends tr id (if id = a.message.targetId
      then (tr.send sent (.node id) a.msgId a.message).2 else sent) log

/-- The handler with which a node drives the blobs of its router. -/
def blobHandler (tr : Transport) (id : EndpointId) (sent : List Sent) : SendHandler :=
  fun log msgId message =>
    if id = message.targetId then tr (blobSends tr id sent log) (.node id) msgId message else false

def processBlobs {τ : Type} (node : AdjacentNode) (tr : Transport) (ser : BlobSerializer)
    (clk : Clock) (id : EndpointId) (blobs : BlobManipulator BufferBlobIo τ) (sent : List Sent) :
    BlobManipulator BufferBlobIo τ × List Sent :=
  match node.connection with
  | none => (blobs,sent)
  | some connection =>
    if connection.usable then
      match connection.maxDataSize with
      | none => (blobs,sent)
      | some maxDataSize =>
        let r := blobs.processOutgoing ser clk (blobHandler tr id sent) maxDataSize 4
        (r.1,blobSends tr id sent r.2)
    else (blobs,sent)

end AdjacentNode

structure ParentRouter where
  connection : Option Connection := none
  confirmedId : EndpointId := 0
  confirmIdTimeout : Timeout := ⟨0,0⟩
  deriving DecidableEq, Repr

namespace ParentRouter

def reset (parent : ParentRouter) (connection : Connection) : ParentRouter :=
  { parent with connection := some connection, confirmedId := 0 }

def isConfirmed (parent : ParentRouter) : Bool :=
  parent.connection.isSome && parent.confirmedId ≠ 0

def confirmId (parent : ParentRouter) (message : MessageView) : ParentRouter :=
  { parent with confirmedId := message.targetId }

/-- Without a connection the answer is true. -/
def send (parent : ParentRouter) (tr : Transport) (sent : List Sent) (msgId : MessageId)
    (message : MessageView) : Bool × List Sent :=
  if parent.connection.isSome then tr.send sent .parent msgId message else (true,sent)

/-- The timeout has run out at first and is two seconds from then on. -/
def announceId (parent : ParentRouter) (tr : Transport) (sent : List Sent) (clk : Clock)
    (idBase : EndpointId) : ParentRouter × List Sent :=
  ({ parent with confirmIdTimeout := ⟨clk.now,clk.adjustedDuration 2000⟩ },
    (tr.send sent .parent (msgbusId .announceId) { sourceId := idBase }).2)

def update (parent : ParentRouter) (tr : Transport) (sent : List Sent) (clk : Clock)
    (idBase : EndpointId) : ParentRouter × List Sent :=
  match parent.connection with
  | none => (parent,sent)
  | some connection =>
    if connection.usable then
      if parent.confirmedId = 0 && parent.confirmIdTimeout.isExpired clk.now then
        parent.announceId tr sent clk idBase
      else (parent,sent)
    else ({ parent with confirmedId := 0 },sent)

end ParentRouter

structure RouterEndpointInfo where
  subscriptions : List MessageId := []
  unsubscriptions : List MessageId := []
  instanceId : ℕ := 0
  outdated : Timeout
  deriving DecidableEq, Repr

namespace RouterEndpointInfo

def addSubscription (info : RouterEndpointInfo) (msgId : MessageId) : RouterEndpointInfo :=
  { info with
    subscriptions := messageIdListAdd info.subscriptions msgId
    unsubscriptions := messageIdListRemove info.unsubscriptions msgId }

def removeSubscription (info : RouterEndpointInfo) (msgId : MessageId) : RouterEndpointInfo :=
  { info with
    subscriptions := messageIdListRemove info.subscriptions msgId
    unsubscriptions := messageIdListAdd info.unsubscriptions msgId }

def hasInstanceId (info : RouterEndpointInfo) : Bool := info.instanceId ≠ 0

def assignInstanceId (info : RouterEndpointInfo) (now : ℕ) (message : MessageView) :
    RouterEndpointInfo :=
  let info := { info with outdated := info.outdated.reset now }
  if info.instanceId ≠ message.sequenceNo then
    { info with instanceId := message.sequenceNo, subscriptions := [], unsubscriptions := [] }
  else info

end RouterEndpointInfo

structure RouterPending where
  id : EndpointId := 0
  tooOld : Timeout
  shouldRequestPwd : Timeout
  connection : Option Connection
  connectionKind : ConnectionKind
  link : ℕ
  nonce : Block := []
  passwordVerified : Bool := false
  maybeRouter : Bool := true
  deriving DecidableEq, Repr

namespace RouterPending

/-- A connection that is not in-process has a nonce if a password is asked for. -/
def accept (clk : Clock) (passwordIsRequired : Bool) (connection : Connection) :
    RouterPending where
  tooOld := ⟨clk.now,clk.adjustedDuration 30000⟩
  shouldRequestPwd := ⟨0,0⟩
  connection := some connection
  connectionKind := connection.kind
  link := connection.link
  nonce := if passwordIsRequired ∧ connection.kind ≠ .inProcess then List.replicate 128 0 else []

def passwordIsRequired (pending : RouterPending) : Bool := !pending.nonce.isEmpty

def shouldRequestPassword (pending : RouterPending) (now : ℕ) : Bool :=
  isValidId pending.id && pending.passwordIsRequired && pending.shouldRequestPwd.isExpired now &&
    !pending.passwordVerified

def hasTimeouted (pending : RouterPending) (now : ℕ) : Bool := pending.tooOld.isExpired now

def shouldBeRemoved (pending : RouterPending) (now : ℕ) : Bool :=
  pending.hasTimeouted now || pending.connection.isNone

def canBeAdopted (pending : RouterPending) (now : ℕ) : Bool :=
  isValidId pending.id && !pending.tooOld.isExpired now &&
    (!pending.passwordIsRequired || pending.passwordVerified)

def tryRequestPassword (pending : RouterPending) (tr : Transport) (sent : List Sent) (clk : Clock)
    (routerId : EndpointId) (random : Block) : RouterPending × List Sent :=
  if pending.shouldRequestPassword clk.now then
    ({ pending with
        nonce := random
        shouldRequestPwd := ⟨clk.now,clk.adjustedDuration 3000⟩ },
      (tr.send sent (.pending pending.link) (msgbusId .reqRutrPwd)
        { data := random, sourceId := routerId, targetId := pending.id }).2)
  else (pending,sent)

end RouterPending

structure RouterNodes where
  pending : List RouterPending := []
  nodes : OrderedMap EndpointId AdjacentNode := .empty
  endpointIdx : OrderedMap EndpointId EndpointId := .empty
  endpointInfos : OrderedMap EndpointId RouterEndpointInfo := .empty
  recentlyDisconnected : OrderedMap EndpointId Timeout := .empty
  deriving DecidableEq

namespace RouterNodes

def hasId (n : RouterNodes) (id : EndpointId) : Bool := n.nodes.contains id

def find (n : RouterNodes) (id : EndpointId) : Option AdjacentNode := n.nodes.find? id

def findOutgoing (n : RouterNodes) (targetId : EndpointId) : EndpointId :=
  (n.endpointIdx.find? targetId).getD 0

def hasSome (n : RouterNodes) : Bool := !n.nodes.isEmpty || !n.pending.isEmpty

def modifyNode (n : RouterNodes) (id : EndpointId) (f : AdjacentNode → AdjacentNode) :
    RouterNodes :=
  { n with nodes := n.nodes.mapValues (fun id' node => if id' = id then f node else node) }

def isDisconnected (n : RouterNodes) (now : ℕ) (endpointId : EndpointId) : Bool :=
  match n.recentlyDisconnected.find? endpointId with
  | some timeout => !timeout.isExpired now
  | none => false

/-- An entry that has not expired is kept as it is. -/
def markDisconnected (n : RouterNodes) (now : ℕ) (endpointId : EndpointId) : RouterNodes :=
  let kept := n.recentlyDisconnected.eraseIf (fun _ timeout => timeout.isExpired now)
  { n with
    recentlyDisconnected :=
      if kept.contains endpointId then kept else kept.assign endpointId ⟨now,15000⟩ }

/-- The connection of the pending one is set up in the node of its id, a new
one or the one that has it already. -/
def adoptPending (n : RouterNodes) (tr : Transport) (sent : List Sent) (routerId : EndpointId)
    (pending : RouterPending) : RouterNodes × List Sent :=
  let confirmation : MessageView := { sourceId := routerId, targetId := pending.id }
  let node := (n.find pending.id).getD {}
  ({ n with
      nodes := n.nodes.assign pending.id (node.setup pending.connection pending.maybeRouter)
      recentlyDisconnected := n.recentlyDisconnected.erase pending.id },
    (tr.send sent (.pending pending.link) (msgbusId .confirmId) confirmation).2)

def removeTimeouted (n : RouterNodes) (now : ℕ) : RouterNodes :=
  let outdated := n.endpointInfos.filter (fun _ info => info.outdated.isExpired now)
  outdated.entries.foldl
    (fun n e => markDisconnected { n with endpointIdx := n.endpointIdx.erase e.1 } now e.1)
    { n with
      pending := n.pending.filter (fun pending => !pending.hasTimeouted now)
      endpointInfos := n.endpointInfos.eraseIf (fun _ info => info.outdated.isExpired now) }

def removeDisconnected (n : RouterNodes) (now : ℕ) : RouterNodes :=
  let cleaned := n.nodes.mapValues (fun _ node =>
    if node.shouldDisconnect then node.cleanupConnection else node)
  let gone := cleaned.filter (fun _ node => node.shouldDisconnect)
  gone.entries.foldl (fun n e => n.markDisconnected now e.1)
    { n with nodes := cleaned.eraseIf (fun _ node => node.shouldDisconnect) }

def updateEndpointInfo (n : RouterNodes) (clk : Clock) (incomingId : EndpointId)
    (message : MessageView) : RouterNodes :=
  let info := (n.endpointInfos.find? message.sourceId).getD
    { outdated := ⟨clk.now,clk.adjustedDuration 60000⟩ }
  { n with
    endpointIdx := n.endpointIdx.assign message.sourceId incomingId
    endpointInfos := n.endpointInfos.assign message.sourceId
      (info.assignInstanceId clk.now message) }

def modifyInfo (n : RouterNodes) (id : EndpointId) (f : RouterEndpointInfo → RouterEndpointInfo) :
    RouterNodes :=
  { n with
    endpointInfos := n.endpointInfos.mapValues
      (fun id' info => if id' = id then f info else info) }

/-- Whether the endpoint is known to be and known not to be subscribed; nothing
is known about an endpoint without an instance id. -/
def subscribesTo (n : RouterNodes) (targetId : EndpointId) (subMsgId : MessageId) :
    Option Bool × Option Bool × ℕ :=
  match n.endpointInfos.find? targetId with
  | none => (none,none,0)
  | some info =>
    if info.hasInstanceId then
      (some (messageIdListContains info.subscriptions subMsgId),
        some (messageIdListContains info.unsubscriptions subMsgId),info.instanceId)
    else (none,none,0)

def subscriptionsOf (n : RouterNodes) (targetId : EndpointId) : List MessageId × ℕ :=
  match n.endpointInfos.find? targetId with
  | none => ([],0)
  | some info => (if info.hasInstanceId then info.subscriptions else [],info.instanceId)

def erase (n : RouterNodes) (id : EndpointId) : RouterNodes :=
  { n with endpointIdx := n.endpointIdx.erase id, endpointInfos := n.endpointInfos.erase id }

end RouterNodes

end MsgBus
