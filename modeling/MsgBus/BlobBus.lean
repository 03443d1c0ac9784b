import MsgBus.BlobTransfer
import MsgBus.RouterRun

/-!
# Blobs on the bus

Each endpoint and each router has a blob manipulator of its own. What an
endpoint sends goes out under its id; before it has one it is kept in the
outbox. Whatever was sent, a delivery brings any of it to any party, any
number of times, with another hop count and age: the paths between routers
and the losses on them are among the deliveries. What was pushed into the
manipulator of a party and what it has received are noted.
-/

set_option autoImplicit false

namespace MsgBus.BlobBus

open BlobManipulator BlobTransfer

abbrev Manipulator := BlobManipulator BufferBlobIo BufferBlobIo

abbrev Outbound := MessageId × MessageView

/-- The messages that carry blobs. -/
def isBlobMessage (msgId : MessageId) : Bool :=
  msgId = msgbusId .blobFrgmnt ∨ msgId = msgbusId .blobResend ∨ msgId = msgbusId .blobPrpare

structure Endpoint where
  endpointId : EndpointId := 0
  blobs : Manipulator :=
    { fragmentMsgId := msgbusId .blobFrgmnt
      resendMsgId := msgbusId .blobResend
      prepareMsgId := msgbusId .blobPrpare }
  outgoing : List Outbound := []

namespace Endpoint

def hasId (e : Endpoint) : Bool := isValidId e.endpointId

/-- An id that is assigned or confirmed stays. -/
def assignId (e : Endpoint) (id : EndpointId) : Endpoint :=
  if e.hasId then e else { e with endpointId := id }

/-- The message as `_do_send` sends it. -/
def signed (e : Endpoint) (message : MessageView) : MessageView :=
  { message with sourceId := e.endpointId }

/-- `post` as a send handler; what the connection answers comes from outside. -/
def post (e : Endpoint) (connection : SendHandler) : SendHandler := fun log msgId message =>
  if e.hasId then connection log msgId (e.signed message) else true

/-- The endpoint after these calls of `post`, and what went out. -/
def posted (e : Endpoint) (log : List SendAttempt) : Endpoint × List Outbound :=
  if e.hasId then
    (e,(log.filter (fun a => a.accepted)).map (fun a => (a.msgId,e.signed a.message)))
  else ({ e with outgoing := e.outgoing ++ log.map (fun a => (a.msgId,a.message)) },[])

def postBlob (e : Endpoint) (clk : Clock) (msgId : MessageId) (targetId : EndpointId)
    (targetBlobId : BlobId) (blob : Block) (maxTime : ℕ) (priority : MessagePriority) :
    Endpoint :=
  { e with
    blobs := (e.blobs.pushOutgoing clk msgId e.endpointId targetId targetBlobId blob maxTime 0
      priority).2 }

def processBlobs (e : Endpoint) (ser : BlobSerializer) (clk : Clock) (connection : SendHandler)
    (maxDataSize : Option ℕ) : Endpoint × List Outbound :=
  let (blobs,_) := e.blobs.handleComplete clk
  match maxDataSize with
  | none => ({ e with blobs },[])
  | some maxSize =>
    let updated := blobs.update ser clk (e.post connection) maxSize
    let r := updated.manipulator.processOutgoing ser clk
      (fun log => e.post connection (updated.sends ++ log)) maxSize 2
    { e with blobs := r.1 }.posted (updated.sends ++ r.2)

/-- The messages of the outbox that stay, and those that went out. -/
def sendOutbox (e : Endpoint) (connection : SendHandler) :
    List Outbound → List SendAttempt → List Outbound × List Outbound
  | [], _ => ([],[])
  | (msgId,message)::rest, log =>
    let (kept,sent) := e.sendOutbox connection rest
      (offer connection log msgId (e.signed message))
    if connection log msgId (e.signed message) then (kept,(msgId,e.signed message)::sent)
    else ((msgId,message)::kept,sent)

def flushOutbox (e : Endpoint) (connection : SendHandler) : Endpoint × List Outbound :=
  if e.hasId then
    let r := e.sendOutbox connection e.outgoing []
    ({ e with outgoing := r.1 },r.2)
  else (e,[])

/-- What the endpoint then does with complete blobs is other calls. -/
def handleBlobFragment (e : Endpoint) (ser : BlobSerializer) (clk : Clock)
    (message : MessageView) : Endpoint :=
  let (processed,blobs) := e.blobs.processIncomingBuffer ser clk message
  if processed then { e with blobs := (blobs.fetchAll clk).1 } else { e with blobs }

def handleBlobResend (e : Endpoint) (ser : BlobSerializer) (message : MessageView) : Endpoint :=
  { e with blobs := e.blobs.processResend ser message }

def handleBlobPrepare (e : Endpoint) (ser : BlobSerializer) (clk : Clock)
    (message : MessageView) : Endpoint :=
  { e with blobs := e.blobs.processPrepare ser clk message }

def handleBlobMessage (e : Endpoint) (ser : BlobSerializer) (clk : Clock) (msgId : MessageId)
    (message : MessageView) : Endpoint :=
  if msgId = msgbusId .blobFrgmnt then e.handleBlobFragment ser clk message
  else if msgId = msgbusId .blobResend then e.handleBlobResend ser message
  else if msgId = msgbusId .blobPrpare then e.handleBlobPrepare ser clk message
  else e

end Endpoint

def handleRouterMessage (env : RouterEnv) (clk : Clock) (msgId : MessageId)
    (message : MessageView) (r : Router) : Router :=
  if msgId = msgbusId .blobFrgmnt then (r.handleBlobFragment env clk message).2
  else if msgId = msgbusId .blobResend then (r.handleBlobResend env message).2
  else if msgId = msgbusId .blobPrpare then (r.handleBlobPrepare env clk message).2
  else r

inductive Member where
  | endpoint (e : Endpoint)
  | router (r : Router)

namespace Member

def id : Member → EndpointId
  | endpoint e => e.endpointId
  | router r => r.getId

def blobs : Member → Manipulator
  | endpoint e => e.blobs
  | router r => r.blobs

def router? : Member → Option Router
  | endpoint _ => none
  | router r => some r

def isRouter (m : Member) : Bool := m.router?.isSome

/-- What an endpoint has not sent yet. -/
def outbox : Member → List Outbound
  | endpoint e => e.outgoing
  | router _ => []

/-- The messages that carry blobs go to the manipulator of the member. -/
def handleMessage (env : RouterEnv) (clk : Clock) (msgId : MessageId) (message : MessageView) :
    Member → Member
  | endpoint e => endpoint (e.handleBlobMessage env.serializer clk msgId message)
  | router r => router (handleRouterMessage env clk msgId message r)

end Member

/-- A message on the bus and the party that sent it. -/
structure Packet where
  sender : ℕ
  msgId : MessageId
  message : MessageView

structure Party where
  member : Member
  pushed : List Pushed := []
  received : List Packet := []

namespace Party

/-- What the second manipulator has outgoing behind what the first one has. -/
def newlyPushed (before after : Manipulator) : List Pushed :=
  (after.outgoing.drop before.outgoing.length).map
    (fun p => ⟨p.msgId,p.sourceBlobId,p.targetBlobId,p.io.buf⟩)

def become (p : Party) (member : Member) : Party :=
  { p with member, pushed := p.pushed ++ newlyPushed p.member.blobs member.blobs }

def receive (p : Party) (env : RouterEnv) (clk : Clock) (x : Packet) : Party :=
  { p.become (p.member.handleMessage env clk x.msgId x.message) with
    received := if x.msgId = msgbusId .blobFrgmnt then p.received ++ [x] else p.received }

end Party

inductive Act where
  | assignId (id : EndpointId)
  | postBlob (clk : Clock) (msgId : MessageId) (targetId : EndpointId) (targetBlobId : BlobId)
      (blob : Block) (maxTime : ℕ) (priority : MessagePriority)
  | processBlobs (clk : Clock) (connection : SendHandler) (maxDataSize : Option ℕ)
  | flushOutbox (connection : SendHandler)
  | routerCertificateQuery (clk : Clock) (message : MessageView)
  | endpointCertificateQuery (clk : Clock) (message : MessageView)
  | processRouterBlobs (clk : Clock)
  | changeTables (nodes : RouterNodes) (parentRouter : ParentRouter)

/-- What a router has sent and its connections have accepted since. -/
def sentSince (before after : Router) : List Outbound :=
  ((after.sent.drop before.sent.length).filter (fun s => s.accepted)).map
    (fun s => (s.msgId,s.message))

namespace Party

def actEndpoint (env : RouterEnv) (p : Party) (e : Endpoint) : Act → Party × List Outbound
  | .assignId id => ({ p with member := .endpoint (e.assignId id) },[])
  | .postBlob clk msgId targetId targetBlobId blob maxTime priority =>
    (p.become (.endpoint
      (e.postBlob clk msgId targetId targetBlobId blob maxTime priority)),[])
  | .processBlobs clk connection maxDataSize =>
    let r := e.processBlobs env.serializer clk connection maxDataSize
    ({ p with member := .endpoint r.1 },r.2)
  | .flushOutbox connection =>
    let r := e.flushOutbox connection
    ({ p with member := .endpoint r.1 },r.2)
  | _ => (p,[])

/-- Whatever else a router does changes its nodes and its parent. -/
def actRouter (env : RouterEnv) (p : Party) (r : Router) : Act → Party × List Outbound
  | .routerCertificateQuery clk message =>
    (p.become (.router (r.handleRouterCertificateQuery clk message).2),[])
  | .endpointCertificateQuery clk message =>
    (p.become (.router (r.handleEndpointCertificateQuery clk message).2),[])
  | .processRouterBlobs clk =>
    ({ p with member := .router (r.processBlobs env clk) },sentSince r (r.processBlobs env clk))
  | .changeTables nodes parentRouter =>
    ({ p with member := .router { r with nodes, parentRouter } },[])
  | _ => (p,[])

def act (env : RouterEnv) (p : Party) (a : Act) : Party × List Outbound :=
  match p.member with
  | .endpoint e => p.actEndpoint env e a
  | .router r => p.actRouter env r a

end Party

structure Bus where
  parties : List Party
  packets : List Packet := []

inductive Event where
  | act (i : ℕ) (a : Act)
  | deliver (i k : ℕ) (clk : Clock) (hopCount ageQuarterSeconds : Int8)

def travelled (hopCount ageQuarterSeconds : Int8) (message : MessageView) : MessageView :=
  { message with hopCount, ageQuarterSeconds }

/-- The connections of each party answer on their own. -/
def environment (env : RouterEnv) (transport : ℕ → Transport) (i : ℕ) : RouterEnv :=
  { env with transport := transport i }

def step (env : RouterEnv) (transport : ℕ → Transport) (b : Bus) : Event → Bus
  | .act i a =>
    match b.parties[i]? with
    | none => b
    | some p =>
      let r := p.act (environment env transport i) a
      { parties := b.parties.set i r.1
        packets := b.packets ++ r.2.map (fun o => ⟨i,o.1,o.2⟩) }
  | .deliver i k clk hopCount ageQuarterSeconds =>
    match b.parties[i]?, b.packets[k]? with
    | some p, some x =>
      { b with
        parties := b.parties.set i (p.receive (environment env transport i) clk
          { x with message := travelled hopCount ageQuarterSeconds x.message }) }
    | _, _ => b

/-- The parties of the bus: endpoints, and routers as they are configured. -/
inductive Kind where
  | endpoint
  | router (setup : RouterRun.Setup)

def Kind.member : Kind → Member
  | endpoint => .endpoint {}
  | router setup => .router (RouterRun.start setup)

def start (kinds : List Kind) : Bus where
  parties := kinds.map (fun k => { member := k.member })

/-- An endpoint is assigned an id that no other party has, it does not post a
blob as one of the messages that carry blobs, and no party pushes more blobs
than the sequence has values. -/
def Admitted (b : Bus) : Event → Prop
  | .act _ (.assignId id) => id ≠ 0 ∧ ∀ p ∈ b.parties, p.member.id ≠ id
  | .act i (.postBlob _ msgId _ _ _ _ _) => isBlobMessage msgId = false ∧
      ∀ p ∈ b.parties[i]?, p.pushed.length < blobIdMax
  | .act i (.routerCertificateQuery _ _) => ∀ p ∈ b.parties[i]?, p.pushed.length < blobIdMax
  | .act i (.endpointCertificateQuery _ _) => ∀ p ∈ b.parties[i]?, p.pushed.length < blobIdMax
  | _ => True

/-- A certificate query is not answered with a certificate, unless it is the
own one of the only router that has pushed any. -/
def Silent (b : Bus) : Event → Prop
  | .act i (.routerCertificateQuery _ _) => ∀ p ∈ b.parties[i]?, ∀ r ∈ p.member.router?,
      r.context.ownCertificatePem = [] ∨
        ∀ q ∈ b.parties.eraseIdx i, q.member.isRouter = true → q.pushed = []
  | .act i (.endpointCertificateQuery _ message) => ∀ p ∈ b.parties[i]?, ∀ r ∈ p.member.router?,
      r.context.getRemoteCertificatePem message.targetId = []
  | _ => True

instance (b : Bus) (e : Event) : Decidable (Admitted b e) := by
  unfold Admitted
  split <;> infer_instance

instance (b : Bus) (e : Event) : Decidable (Silent b e) := by
  unfold Silent
  split <;> infer_instance

end MsgBus.BlobBus
