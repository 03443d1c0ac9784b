import MsgBus.BlobManipulator
import MsgBus.Lib.StepRun
import MsgBus.PriorityQueue

/-!
# The id of an endpoint

A router assigns an id to an endpoint or confirms the one the endpoint was
configured with; the endpoint takes over the target of the first such message
that has a valid one. What else an endpoint keeps (blobs, certificates, flow
information, statistics) is handled by functions that are given here as
parameters: they may post messages but do not write the ids. Messages that
come out of a complete blob are listed behind the fragment that completed it.
-/

set_option autoImplicit false

namespace MsgBus.EndpointIds

open StepRun

inductive MessageHandlingResult where
  | wasNotHandled | wasHandled | shouldBeStored
  deriving DecidableEq, Repr

abbrev Outbound := MessageId × MessageView

structure Endpoint (ρ : Type) where
  preconfdId : EndpointId := 0
  endpointId : EndpointId := 0
  routerId : EndpointId := 0
  noIdTimeout : RestartTimeout := ⟨3000,0⟩
  shouldNotifyAlive : RestartTimeout
  connection : Bool := false
  hadWorkingConnection : Bool := false
  outgoing : MessageStorage := {}
  incoming : MessageId → Option MessagePriorityQueue := fun _ => none
  attempts : List SendAttempt := []
  rest : ρ

/-- The handlers of an endpoint that have nothing to do with its ids. They are
given what `post` answers, and return what they post. -/
structure Environment (ρ : Type) where
  instanceId : MessageSequence
  encryptSharedPassword : Block → Option Block
  serializeMessageType : MessageId → Option Block
  processBlobs : SendHandler → EndpointId → ρ → ρ × List Outbound
  handleOther : SendHandler → EndpointId → MessageId → MessageView → ρ →
    MessageHandlingResult × ρ × List Outbound
  /-- The store handler is the one of an actor. -/
  isActor : Bool

/-- What one call finds: the time, and what the connection answers and brings. -/
structure Turn where
  now : ℕ
  send : SendHandler
  isUsable : Bool := true
  messages : List (MessageId × MessageAge × MessageView) := []

namespace Endpoint

variable {ρ : Type} (env : Environment ρ) (turn : Turn)

def hasId (e : Endpoint ρ) : Bool := isValidId e.endpointId

def hasPreconfiguredId (e : Endpoint ρ) : Bool := isValidId e.preconfdId

/-- `_connection->send`. -/
def send (e : Endpoint ρ) (msgId : MessageId) (message : MessageView) : Bool × Endpoint ρ :=
  (turn.send e.attempts msgId message,
    { e with attempts := offer turn.send e.attempts msgId message })

def doSend (e : Endpoint ρ) (msgId : MessageId) (message : MessageView) : Bool × Endpoint ρ :=
  if e.connection then
    let (sent,e) := e.send turn msgId { message with sourceId := e.endpointId }
    (sent,{ e with hadWorkingConnection := sent })
  else (false,{ e with hadWorkingConnection := false })

def post (e : Endpoint ρ) (msgId : MessageId) (message : MessageView) : Bool × Endpoint ρ :=
  if e.hasId then e.doSend turn msgId message
  else (true,{ e with outgoing := e.outgoing.pushIf (some ⟨msgId,message,turn.now⟩) })

/-- What `post` answers after earlier posts. -/
def answers (e : Endpoint ρ) : SendHandler := fun log msgId message =>
  let sent := log.map fun a => { a with message := { a.message with sourceId := e.endpointId } }
  if e.hasId then
    e.connection && turn.send (e.attempts ++ sent) msgId { message with sourceId := e.endpointId }
  else true

def postAll (e : Endpoint ρ) (posted : List Outbound) : Endpoint ρ :=
  posted.foldl (fun e p => (e.post turn p.1 p.2).2) e

def postMetaMessage (e : Endpoint ρ) (metaMsgId msgId : MessageId) : Endpoint ρ :=
  match env.serializeMessageType msgId with
  | some data => (e.post turn metaMsgId { sequenceNo := env.instanceId, data }).2
  | none => e

def handleAssignId (e : Endpoint ρ) (message : MessageView) : MessageHandlingResult × Endpoint ρ :=
  (.wasHandled,if e.hasId then e
    else { e with routerId := message.sourceId, endpointId := message.targetId })

/-- Ids that do not match are only logged. -/
def handleConfirmId (e : Endpoint ρ) (message : MessageView) :
    MessageHandlingResult × Endpoint ρ :=
  (.wasHandled,if e.hasId then e
    else
      let e := { e with routerId := message.sourceId, endpointId := message.targetId }
      if e.endpointId = e.preconfdId then (e.post turn (msgbusId .rtrCertQry) {}).2 else e)

def handlePasswordRequest (e : Endpoint ρ) (message : MessageView) :
    MessageHandlingResult × Endpoint ρ :=
  (.wasHandled,
    if isValidId e.routerId ∧ message.sourceId = e.routerId then
      if e.hasId ∧ message.targetId = e.endpointId then
        match env.encryptSharedPassword message.data with
        | some encrypted => (e.doSend turn (msgbusId .encRutrPwd)
            ⟨({} : MessageInfo).setupResponse message.toMessageInfo,encrypted⟩).2
        | none => e
      else e
    else e)

def handleOther (e : Endpoint ρ) (msgId : MessageId) (message : MessageView) :
    MessageHandlingResult × Endpoint ρ :=
  let (result,rest,posted) := env.handleOther (e.answers turn) e.endpointId msgId message e.rest
  (result,{ e with rest }.postAll turn posted)

def handleSpecial (e : Endpoint ρ) (msgId : MessageId) (message : MessageView) :
    MessageHandlingResult × Endpoint ρ :=
  if isSpecialMessage msgId then
    match msgId.method with
    | .assignId => e.handleAssignId message
    | .confirmId => e.handleConfirmId turn message
    | .reqRutrPwd => e.handlePasswordRequest env turn message
    | .blobFrgmnt | .blobResend | .blobPrpare | .msgFlowInf | .eptCertQry | .eptCertPem
    | .eptSigNnce | .eptNnceSig | .rtrCertPem | .topoQuery | .statsQuery =>
      e.handleOther env turn msgId message
    | .ping | .pong | .subscribTo | .unsubFrom | .notSubTo | .qrySubscrp | .qrySubscrb
    | .byeByeEndp | .byeByeRutr | .byeByeBrdg | .stillAlive | .topoRutrCn | .topoBrdgCn
    | .topoEndpt => (.shouldBeStored,e)
    | _ => (if e.hasId ∧ message.sourceId = e.endpointId then .wasHandled else .shouldBeStored,e)
  else (.shouldBeStored,e)

/-- The message is for this endpoint or for all. -/
def isTarget (e : Endpoint ρ) (message : MessageView) : Bool :=
  message.targetId = e.endpointId ∨ !isValidId message.targetId

def enqueue (e : Endpoint ρ) (msgId : MessageId) (message : MessageView) : Endpoint ρ :=
  { e with incoming := fun id =>
      if id = msgId then some (((e.incoming id).getD .empty).push message) else e.incoming id }

def storeMessage (e : Endpoint ρ) (msgId : MessageId) (msgAge : MessageAge)
    (message : MessageView) : Endpoint ρ :=
  let (result,e) := e.handleSpecial env turn msgId message
  if result = .shouldBeStored then
    if e.isTarget message then
      e.enqueue msgId { message with toMessageInfo := message.addAge msgAge }
    else (e.post turn (msgbusId .notARouter) {}).2
  else e

def acceptMessage (e : Endpoint ρ) (msgId : MessageId) (message : MessageView) :
    Bool × Endpoint ρ :=
  let (result,e) := e.handleSpecial env turn msgId message
  if result = .wasHandled then (true,e)
  else
    match e.incoming msgId with
    | some _ => (true,if e.isTarget message then e.enqueue msgId message else e)
    | none => (false,e)

/-- The store handler of an actor. -/
def processMessage (e : Endpoint ρ) (msgId : MessageId) (message : MessageView) : Endpoint ρ :=
  let (accepted,e) := e.acceptMessage env turn msgId message
  if accepted then e
  else if isSpecialMessage msgId then e
  else e.postMetaMessage env turn (msgbusId .msgBlkList) msgId

def store (e : Endpoint ρ) (m : MessageId × MessageAge × MessageView) : Endpoint ρ :=
  if env.isActor then e.processMessage env turn m.1 m.2.2
  else e.storeMessage env turn m.1 m.2.1 m.2.2

def processBlobs (e : Endpoint ρ) : Endpoint ρ :=
  let (rest,posted) := env.processBlobs (e.answers turn) e.endpointId e.rest
  { e with rest }.postAll turn posted

def updateNoConnection (e : Endpoint ρ) : Endpoint ρ := { e with hadWorkingConnection := false }

def updateRequestId (e : Endpoint ρ) : Endpoint ρ :=
  if e.hasPreconfiguredId then e
  else
    let (_,e) := e.send turn (msgbusId .requestId) {}
    { e with noIdTimeout := e.noIdTimeout.reset turn.now }

def updateCheckId (e : Endpoint ρ) : Endpoint ρ :=
  if e.hasId then
    let (_,e) := e.doSend turn (msgbusId .annEndptId) {}
    (e.doSend turn (msgbusId .rtrCertQry) {}).2
  else if e.hasPreconfiguredId then
    if e.noIdTimeout.isExpired turn.now then
      let (_,e) := e.send turn (msgbusId .annEndptId) { sourceId := e.preconfdId }
      { e with noIdTimeout := e.noIdTimeout.reset turn.now }
    else e
  else e

def updateSendOutbox (e : Endpoint ρ) : Endpoint ρ :=
  let (_,outgoing,e) := e.outgoing.fetchAll turn.now
    (fun (e : Endpoint ρ) msgId _ message => e.doSend turn msgId message) e
  { e with outgoing }

def sayStillAlive (e : Endpoint ρ) : Endpoint ρ :=
  (e.post turn (msgbusId .stillAlive) { sequenceNo := env.instanceId }).2

def updateBeforeFetch (e : Endpoint ρ) : Endpoint ρ :=
  let e := { e with hadWorkingConnection := turn.isUsable }
  if !e.hasId ∧ e.noIdTimeout.isExpired turn.now then e.updateRequestId turn else e

/-- The part of an update that needs the connection. -/
def updateConnection (e : Endpoint ρ) : Endpoint ρ :=
  let fetched := turn.messages.foldl (store env turn) (e.updateBeforeFetch turn)
  if e.hasId then fetched else fetched.updateCheckId turn

def notifyAlive (e : Endpoint ρ) : Endpoint ρ :=
  if e.shouldNotifyAlive.isExpired turn.now then
    { e with shouldNotifyAlive := e.shouldNotifyAlive.reset turn.now }.sayStillAlive env turn
  else e

def update (e : Endpoint ρ) : Endpoint ρ :=
  let e := e.processBlobs env turn
  let e := if e.connection then e.updateConnection env turn else e.updateNoConnection
  let e := e.notifyAlive env turn
  if e.hasId ∧ e.outgoing.messages ≠ [] then e.updateSendOutbox turn else e

/-! ## What writes the ids -/

section Ids

/-- The configured id, the id and whether there is a connection. -/
def ids (e : Endpoint ρ) : EndpointId × EndpointId × Bool :=
  (e.preconfdId,e.endpointId,e.connection)

variable {env turn} {e : Endpoint ρ} {msgId : MessageId} {message : MessageView}

@[simp] theorem doSend_ids : (e.doSend turn msgId message).2.ids = e.ids := by
  rw [doSend]
  split_ifs <;> rfl

@[simp] theorem post_ids : (e.post turn msgId message).2.ids = e.ids := by
  rw [post]
  split_ifs
  · exact doSend_ids
  · rfl

@[simp] theorem postAll_ids (posted : List Outbound) : (e.postAll turn posted).ids = e.ids := by
  induction posted generalizing e with
  | nil => rfl
  | cons p posted ih => exact ih.trans post_ids

@[simp] theorem postMetaMessage_ids (metaMsgId : MessageId) :
    (e.postMetaMessage env turn metaMsgId msgId).ids = e.ids := by
  rw [postMetaMessage]
  cases env.serializeMessageType msgId with
  | none => rfl
  | some data => exact post_ids

@[simp] theorem handleOther_ids : (e.handleOther env turn msgId message).2.ids = e.ids :=
  postAll_ids _

@[simp] theorem handlePasswordRequest_ids :
    (e.handlePasswordRequest env turn message).2.ids = e.ids := by
  rw [handlePasswordRequest]
  split_ifs
  · cases env.encryptSharedPassword message.data with
    | none => rfl
    | some encrypted => exact doSend_ids
  all_goals rfl

/-- The id in a message that assigns or confirms one. -/
def idTarget (msgId : MessageId) (message : MessageView) : Option EndpointId :=
  if msgId = msgbusId .assignId ∨ msgId = msgbusId .confirmId then some message.targetId else none

/-- The id after a message was handled. -/
def takeId (id : EndpointId) (m : MessageId × MessageAge × MessageView) : EndpointId :=
  if isValidId id then id else (idTarget m.1 m.2.2).getD id

theorem takeId_other {id : EndpointId} {m : MessageId × MessageAge × MessageView}
    (h : idTarget m.1 m.2.2 = none) : takeId id m = id := by
  rw [takeId, h, Option.getD_none, ite_self]

theorem takeId_hasId {m : MessageId × MessageAge × MessageView} (h : e.hasId = true) :
    takeId e.endpointId m = e.endpointId := if_pos h

theorem takeId_target {m : MessageId × MessageAge × MessageView} {id : EndpointId}
    (h : e.hasId = false) (ht : idTarget m.1 m.2.2 = some id) : takeId e.endpointId m = id := by
  have hid : ¬ isValidId e.endpointId = true := fun hv => Bool.false_ne_true (h.symm.trans hv)
  rw [takeId, if_neg hid, ht, Option.getD_some]

theorem handleAssignId_ids (msgAge : MessageAge) : (e.handleAssignId message).2.ids =
    (e.preconfdId,takeId e.endpointId (msgbusId .assignId,msgAge,message),e.connection) := by
  rw [handleAssignId]
  cases h : e.hasId with
  | true =>
    rw [takeId_hasId h]
    rfl
  | false =>
    rw [takeId_target h rfl]
    rfl

theorem handleConfirmId_ids (msgAge : MessageAge) : (e.handleConfirmId turn message).2.ids =
    (e.preconfdId,takeId e.endpointId (msgbusId .confirmId,msgAge,message),e.connection) := by
  rw [handleConfirmId]
  cases h : e.hasId with
  | true =>
    rw [takeId_hasId h]
    rfl
  | false =>
    rw [takeId_target h rfl]
    simp only [Bool.false_eq_true, if_false]
    split_ifs
    · exact post_ids
    · rfl

theorem handled_other {e' : Endpoint ρ} {msgAge : MessageAge} (he : e'.ids = e.ids)
    (h : idTarget msgId message = none) :
    e'.ids = (e.preconfdId,takeId e.endpointId (msgId,msgAge,message),e.connection) := by
  rw [he, takeId_other h]
  rfl

variable (env turn) in
/-- Only the two messages write the id, and only while there is none. -/
theorem handleSpecial_ids (msgAge : MessageAge) : (e.handleSpecial env turn msgId message).2.ids =
    (e.preconfdId,takeId e.endpointId (msgId,msgAge,message),e.connection) := by
  by_cases hs : isSpecialMessage msgId = true
  · obtain ⟨cls,method⟩ := msgId
    obtain rfl : cls = .eagiMsgBus := of_decide_eq_true hs
    rw [handleSpecial, if_pos hs]
    cases method with
    | assignId => exact handleAssignId_ids msgAge
    | confirmId => exact handleConfirmId_ids msgAge
    | reqRutrPwd => exact handled_other handlePasswordRequest_ids rfl
    | blobFrgmnt | blobResend | blobPrpare | msgFlowInf | eptCertQry | eptCertPem | eptSigNnce
    | eptNnceSig | rtrCertPem | topoQuery | statsQuery => exact handled_other handleOther_ids rfl
    | _ => exact handled_other rfl rfl
  · rw [handleSpecial, if_neg hs]
    refine handled_other rfl (if_neg ?_)
    rintro (rfl | rfl)
    · exact hs rfl
    · exact hs rfl

theorem storeMessage_ids (msgAge : MessageAge) :
    (e.storeMessage env turn msgId msgAge message).ids =
      (e.preconfdId,takeId e.endpointId (msgId,msgAge,message),e.connection) := by
  rw [← handleSpecial_ids env turn]
  simp only [storeMessage]
  split_ifs
  · rfl
  · exact post_ids
  · rfl

theorem processMessage_ids (msgAge : MessageAge) :
    (e.processMessage env turn msgId message).ids =
      (e.preconfdId,takeId e.endpointId (msgId,msgAge,message),e.connection) := by
  rw [← handleSpecial_ids env turn]
  have haccept : (e.acceptMessage env turn msgId message).2.ids =
      (e.handleSpecial env turn msgId message).2.ids := by
    simp only [acceptMessage]
    split_ifs
    · rfl
    all_goals split <;> rfl
  simp only [processMessage]
  split_ifs
  · exact haccept
  · exact haccept
  · exact (postMetaMessage_ids _).trans haccept

variable (env turn) in
theorem store_ids (m : MessageId × MessageAge × MessageView) :
    (e.store env turn m).ids = (e.preconfdId,takeId e.endpointId m,e.connection) := by
  rw [store]
  split_ifs
  · exact processMessage_ids m.2.1
  · exact storeMessage_ids m.2.1

variable (env turn) in
theorem foldl_store_ids (messages : List (MessageId × MessageAge × MessageView))
    {e' : Endpoint ρ} (he : e'.ids = e.ids) : (messages.foldl (store env turn) e').ids =
      (e.preconfdId,messages.foldl takeId e.endpointId,e.connection) := by
  induction messages generalizing e e' with
  | nil => exact he
  | cons m messages ih =>
    have hids : e'.preconfdId = e.preconfdId ∧ e'.endpointId = e.endpointId ∧
        e'.connection = e.connection := by
      simpa only [ids, Prod.mk.injEq] using he
    have hstore := store_ids (e := e') env turn m
    rw [hids.1, hids.2.1, hids.2.2] at hstore
    exact ih (e := { e with endpointId := takeId e.endpointId m }) hstore

theorem updateRequestId_ids : (e.updateRequestId turn).ids = e.ids := by
  rw [updateRequestId]
  split_ifs <;> rfl

theorem updateCheckId_ids : (e.updateCheckId turn).ids = e.ids := by
  rw [updateCheckId]
  split_ifs
  · exact doSend_ids.trans doSend_ids
  all_goals rfl

theorem updateSendOutbox_ids : (e.updateSendOutbox turn).ids = e.ids := by
  have hfold (entries : List StoredMessage) (e : Endpoint ρ) :
      (entries.foldl (fun e entry => (e.doSend turn entry.msgId entry.message).2) e).ids =
        e.ids := by
    induction entries generalizing e with
    | nil => rfl
    | cons entry entries ih => exact (ih _).trans doSend_ids
  have hfetch := fetchAllEntries_eq StoredMessage.release
    (fun (e : Endpoint ρ) entry => e.doSend turn entry.msgId entry.message)
    (fun entry => entry.message.tooManyHops) StoredMessage.release_tooManyHops
    e.outgoing.messages e
  rw [handled_state] at hfetch
  simp only [updateSendOutbox, MessageStorage.fetchAll, hfetch]
  exact hfold e.outgoing.messages e

theorem notifyAlive_ids : (e.notifyAlive env turn).ids = e.ids := by
  rw [notifyAlive]
  split_ifs
  · exact post_ids
  · rfl

variable (env turn) in
theorem processBlobs_ids : (e.processBlobs env turn).ids = e.ids := postAll_ids _

variable (turn) in
theorem updateBeforeFetch_ids : (e.updateBeforeFetch turn).ids = e.ids := by
  simp only [updateBeforeFetch]
  split_ifs
  · exact updateRequestId_ids
  · rfl

theorem updateConnection_ids : (e.updateConnection env turn).ids =
    (e.preconfdId,turn.messages.foldl takeId e.endpointId,e.connection) := by
  have hstored := foldl_store_ids (e := e) env turn turn.messages
    (updateBeforeFetch_ids turn)
  simp only [updateConnection]
  split_ifs
  · exact hstored
  · exact updateCheckId_ids.trans hstored

theorem update_ids : (e.update env turn).ids =
    (e.preconfdId,if e.connection then turn.messages.foldl takeId e.endpointId else e.endpointId,
      e.connection) := by
  have hids : (e.processBlobs env turn).preconfdId = e.preconfdId ∧
      (e.processBlobs env turn).endpointId = e.endpointId ∧
      (e.processBlobs env turn).connection = e.connection := by
    simpa only [ids, Prod.mk.injEq] using processBlobs_ids (e := e) env turn
  have hconnection : (if (e.processBlobs env turn).connection then
      (e.processBlobs env turn).updateConnection env turn
      else (e.processBlobs env turn).updateNoConnection).ids =
      (e.preconfdId,if e.connection then turn.messages.foldl takeId e.endpointId
        else e.endpointId,e.connection) := by
    rw [hids.2.2]
    split_ifs
    · rw [updateConnection_ids, hids.1, hids.2.1, hids.2.2]
    · exact processBlobs_ids env turn
  have hlast (e : Endpoint ρ) : (if e.hasId ∧ e.outgoing.messages ≠ [] then
      e.updateSendOutbox turn else e).ids = e.ids := by
    split_ifs
    · exact updateSendOutbox_ids
    · rfl
  exact (hlast _).trans (notifyAlive_ids.trans hconnection)

end Ids

/-! ## Runs -/

inductive Event where
  | update (turn : Turn)
  | addConnection
  | post (turn : Turn) (msgId : MessageId) (message : MessageView)

def step (e : Endpoint ρ) : Event → Endpoint ρ
  | .update turn => e.update env turn
  | .addConnection => { e with connection := true }
  | .post turn msgId message => (e.post turn msgId message).2

/-- The first valid id that the messages assign or confirm. -/
def firstId (messages : List (MessageId × MessageAge × MessageView)) : Option EndpointId :=
  (messages.filterMap fun m => idTarget m.1 m.2.2).find? isValidId

/-- The id that is taken over is the configured one. -/
def TakesPreconfigured (e : Endpoint ρ) : Event → Prop
  | .update turn => isValidId e.preconfdId → e.connection = true → e.hasId = false →
    ∀ id ∈ firstId turn.messages, id = e.preconfdId
  | _ => True

/-- An id the endpoint has at some point of the run it has at each later one. -/
def KeepsId (e : Endpoint ρ) (es : List Event) : Prop :=
  ∀ before after, es = before ++ after → (run (step env) e before).hasId = true →
    Always (step env) (fun later => later.endpointId = (run (step env) e before).endpointId)
      (run (step env) e before) after

/-- Without a valid configured id any id will do. -/
def OwnId (id : EndpointId) (e : Endpoint ρ) : Prop :=
  isValidId id → e.endpointId = 0 ∨ e.endpointId = id

section Runs

variable {env}

theorem foldl_takeId_valid {id : EndpointId} (h : isValidId id = true)
    (messages : List (MessageId × MessageAge × MessageView)) :
    messages.foldl takeId id = id := by
  induction messages with
  | nil => rfl
  | cons m messages ih => rw [List.foldl_cons, takeId, if_pos h, ih]

theorem foldl_takeId (messages : List (MessageId × MessageAge × MessageView)) :
    messages.foldl takeId 0 = (firstId messages).getD 0 := by
  induction messages with
  | nil => rfl
  | cons m messages ih =>
    rw [List.foldl_cons, firstId]
    cases ht : idTarget m.1 m.2.2 with
    | none => simp only [takeId_other ht, List.filterMap_cons, ht, ih, firstId]
    | some id =>
      simp only [List.filterMap_cons, ht]
      rw [takeId, if_neg (by decide), ht, Option.getD_some]
      by_cases hv : isValidId id = true
      · rw [foldl_takeId_valid hv, List.find?_cons_of_pos hv, Option.getD_some]
      · have h0 : id = 0 := by simpa [isValidId] using hv
        rw [List.find?_cons_of_neg hv, h0, ih, firstId]

variable {e : Endpoint ρ} {event : Event}

theorem step_preconfdId : (e.step env event).preconfdId = e.preconfdId := by
  cases event with
  | update turn => exact congrArg Prod.fst update_ids
  | addConnection => rfl
  | post turn msgId message => exact congrArg Prod.fst post_ids

theorem step_endpointId : (e.step env event).endpointId =
    match event with
    | .update turn =>
      if e.connection then turn.messages.foldl takeId e.endpointId else e.endpointId
    | _ => e.endpointId := by
  cases event with
  | update turn => exact congrArg (fun ids => ids.2.1) update_ids
  | addConnection => rfl
  | post turn msgId message => exact congrArg (fun ids => ids.2.1) post_ids

variable (env event) in
theorem step_keepsId (h : e.hasId = true) : (e.step env event).endpointId = e.endpointId := by
  rw [step_endpointId]
  cases event with
  | update turn => simp only [foldl_takeId_valid h, ite_self]
  | addConnection => rfl
  | post turn msgId message => rfl

/-- An endpoint without an id takes over the first valid one. -/
theorem step_takesId (h : e.hasId = false) : (e.step env event).endpointId =
    match event with
    | .update turn => if e.connection then (firstId turn.messages).getD 0 else 0
    | _ => 0 := by
  have h0 : e.endpointId = 0 := by simpa [hasId, isValidId] using h
  rw [step_endpointId, h0]
  cases event with
  | update turn => simp only [foldl_takeId]
  | addConnection => rfl
  | post turn msgId message => rfl

theorem keepsId (es : List Event) : KeepsId env e es := by
  rintro before after rfl hid
  generalize run (step env) e before = s at hid
  have hstep (s' : Endpoint ρ) (event : Event)
      (h : s'.hasId = true ∧ s'.endpointId = s.endpointId) :
      (s'.step env event).hasId = true ∧ (s'.step env event).endpointId = s.endpointId := by
    have hkeep := step_keepsId env event h.1
    rw [hasId, hkeep]
    exact h
  exact always_mono (fun s' h => h.2) (always_of_kept hstep after ⟨hid,rfl⟩)

/-- The id that a step takes over is the configured one or none. -/
theorem step_ownId {id : EndpointId} (hp : e.preconfdId = id) (ho : e.OwnId id)
    (hok : e.TakesPreconfigured event) : (e.step env event).OwnId id := by
  intro hv
  cases hid : e.hasId with
  | true =>
    rw [step_keepsId env event hid]
    exact ho hv
  | false =>
    rw [step_takesId hid]
    cases event with
    | update turn =>
      simp only
      split_ifs with hc
      · cases hf : firstId turn.messages with
        | none => exact Or.inl rfl
        | some x =>
          right
          rw [Option.getD_some, ← hp]
          exact hok (by rwa [hp]) hc hid x hf
      · exact Or.inl rfl
    | addConnection => exact Or.inl rfl
    | post turn msgId message => exact Or.inl rfl

theorem takes_of_ownId {id : EndpointId} (hp : e.preconfdId = id)
    (h : (e.step env event).OwnId id) : e.TakesPreconfigured event := by
  cases event with
  | update turn =>
    intro hv hc hid x hx
    have hx' : firstId turn.messages = some x := hx
    have hown := h (by rwa [← hp])
    rw [step_takesId hid] at hown
    simp only [hc, if_true, hx', Option.getD_some] at hown
    rcases hown with h0 | heq
    · have hvalid : isValidId x = true := List.find?_some hx'
      rw [h0] at hvalid
      cases hvalid
    · rw [heq, hp]
  | addConnection => trivial
  | post turn msgId message => trivial

end Runs

/-- An endpoint that was configured with an id, or with none. -/
def start (id : EndpointId) (shouldNotifyAlive : RestartTimeout) (rest : ρ) : Endpoint ρ :=
  { preconfdId := id, shouldNotifyAlive, rest }

/-- An id stays once it is there, and it is the configured one throughout a
run exactly if the first valid id that is assigned or confirmed always is. -/
theorem id_stable_iff (env : Environment ρ) (id : EndpointId) (shouldNotifyAlive : RestartTimeout)
    (rest : ρ) (es : List Event) :
    KeepsId env (start id shouldNotifyAlive rest) es ∧
      Always (step env) (OwnId id) (start id shouldNotifyAlive rest) es ↔
    Steps (step env) TakesPreconfigured (start id shouldNotifyAlive rest) es := by
  have hiff : Always (step env) (OwnId id) (start id shouldNotifyAlive rest) es ↔
      Steps (step env) TakesPreconfigured (start id shouldNotifyAlive rest) es := by
    have hkeep (e : Endpoint ρ) (event : Event) (hinv : e.preconfdId = id ∧ e.OwnId id)
        (hok : e.TakesPreconfigured event) :
        (e.step env event).preconfdId = id ∧ (e.step env event).OwnId id :=
      ⟨step_preconfdId.trans hinv.1,step_ownId hinv.1 hinv.2 hok⟩
    exact always_iff_steps (fun e hinv => hinv.2) hkeep
      (fun e event hinv => takes_of_ownId hinv.1) ⟨rfl,fun _ => Or.inl rfl⟩
  constructor
  · exact fun h => hiff.mp h.2
  · exact fun h => ⟨keepsId es,hiff.mpr h⟩

/-- Nothing is handled apart from the ids. -/
def sampleEnvironment : Environment Unit where
  instanceId := 1
  encryptSharedPassword := some
  serializeMessageType _ := none
  processBlobs _ _ _ := ((),[])
  handleOther _ _ _ _ _ := (.wasHandled,(),[])
  isActor := false

/-- Endpoint 11 is connected and confirmed as 12. -/
def confirmedOther : List Event := [
  .addConnection,
  .update ⟨0,fun _ _ _ => true,true,[(msgbusId .confirmId,0,{ sourceId := 1, targetId := 12 })]⟩]

/-- The id that was confirmed stays although it is not the configured one. -/
theorem confirmed_other : ¬ ∀ (id : EndpointId) (es : List Event),
    KeepsId sampleEnvironment (start id ⟨1000,5⟩ ()) es ∧
      Always (step sampleEnvironment) (OwnId id) (start id ⟨1000,5⟩ ()) es := by
  intro h
  have hown := always_last (h 11 confirmedOther).2 (by decide)
  exact absurd hown (by decide)

end Endpoint

end MsgBus.EndpointIds
