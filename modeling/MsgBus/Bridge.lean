import MsgBus.MessageSerialization
import MsgBus.RouterHandlers

/-!
# Bridges

A bridge passes messages on between its connection to a router and its state:
the standard streams, or an MQTT broker. The two kinds have the same text but
for what their state does with a message. What a bridge has sent is kept in a
log, in which the messages passed on are told from the answers of the bridge.
The counters behind the statistics are left out.
-/

set_option autoImplicit false

namespace MsgBus

inductive BridgeKind where
  | stdio | mqtt
  deriving DecidableEq, Repr

inductive BridgeSide where
  | connection | state
  deriving DecidableEq, Repr

structure BridgeSent where
  side : BridgeSide
  msgId : MessageId
  message : MessageView
  passedOn : Bool
  deriving DecidableEq, Repr

structure BridgeTopologyInfo where
  bridgeId : EndpointId := 0
  oppositeId : EndpointId := 0
  instanceId : ℕ := 0
  deriving DecidableEq, Repr

/-- What a bridge relies on from outside. -/
structure BridgeEnv where
  backend : SerializerBackend
  getDataWithSize : Block → Block
  readTopology : Block → Option BridgeTopologyInfo
  writeTopology : BridgeTopologyInfo → Option Block
  statistics : List BridgeSent → Option Block
  accepts : List BridgeSent → MessageId → MessageView → Bool

structure Bridge where
  kind : BridgeKind
  id : EndpointId := 0
  instanceId : ℕ := 0
  connection : Bool := true
  state : Bool := true
  sent : List BridgeSent := []
  deriving DecidableEq

namespace Bridge

variable (env : BridgeEnv)

def hasId (b : Bridge) : Bool := isValidId b.id

def log (b : Bridge) (side : BridgeSide) (msgId : MessageId) (message : MessageView)
    (passedOn : Bool) : Bridge :=
  { b with sent := b.sent ++ [⟨side,msgId,message,passedOn⟩] }

/-- One more hop, whatever the number of hops is. What is handed to the
connection is noted, also when the connection refuses it. -/
def doSend (b : Bridge) (msgId : MessageId) (message : MessageView) (passedOn : Bool) :
    Bool × Bridge :=
  if b.connection then
    (env.accepts b.sent msgId (Router.hopped message),
      b.log .connection msgId (Router.hopped message) passedOn)
  else (false,b)

def send (b : Bridge) (msgId : MessageId) (message : MessageView) (passedOn : Bool) :
    Bool × Bridge :=
  b.doSend env msgId { message with sourceId := b.id } passedOn

def doPush (b : Bridge) (msgId : MessageId) (message : MessageView) (passedOn : Bool) :
    Bool × Bridge :=
  if b.state then (true,b.log .state msgId (Router.hopped message) passedOn) else (false,b)

/-- An answer of the bridge goes back where the request came from. -/
def answer (b : Bridge) (msgId : MessageId) (message : MessageView) (toConnection : Bool) :
    Bridge :=
  if toConnection then (b.doPush msgId message false).2 else (b.send env msgId message false).2

section Handlers

variable (b : Bridge) (message : MessageView) (toConnection : Bool)

def handleIdAssigned : Bool × Bridge :=
  (true,if !b.hasId then { b with id := message.targetId } else b)

def handleIdConfirmed : Bool × Bridge := (true,b)

def handlePing : Bool × Bridge :=
  if b.hasId then
    if b.id = message.targetId then
      let response : MessageView :=
        { toMessageInfo := { MessageInfo.setupResponse {} message.toMessageInfo with
            sourceId := b.id } }
      (true,b.answer env (msgbusId .pong) response toConnection)
    else (false,b)
  else (false,b)

/-- The information of the opposite bridge is completed and passed on. -/
def handleTopoBridgeConn : Bool × Bridge :=
  if toConnection then
    match env.readTopology (message.content env.getDataWithSize) with
    | some info =>
      match env.writeTopology { info with oppositeId := b.id } with
      | some serialized =>
        (true,(b.send env (msgbusId .topoBrdgCn) { message with data := serialized } true).2)
      | none => (false,b)
    | none => (false,b)
  else (false,b)

def handleTopologyQuery : Bool × Bridge :=
  match env.writeTopology { bridgeId := b.id, instanceId := b.instanceId } with
  | some serialized =>
    let response : MessageView :=
      { toMessageInfo := MessageInfo.setupResponse {} message.toMessageInfo, data := serialized }
    (false,b.answer env (msgbusId .topoBrdgCn) response toConnection)
  | none => (false,b)

def handleStatsQuery : Bool × Bridge :=
  match env.statistics b.sent with
  | some serialized =>
    let response : MessageView :=
      { toMessageInfo := { MessageInfo.setupResponse {} message.toMessageInfo with
          sourceId := b.id }
        data := serialized }
    (false,b.answer env (msgbusId .statsBrdg) response toConnection)
  | none => (false,b)

def handleSpecial (msgId : MessageId) : Bool × Bridge :=
  if isSpecialMessage msgId then
    match msgId.method with
    | .assignId => b.handleIdAssigned message
    | .confirmId => b.handleIdConfirmed
    | .ping => b.handlePing env message toConnection
    | .topoBrdgCn => b.handleTopoBridgeConn env message toConnection
    | .topoQuery => b.handleTopologyQuery env message toConnection
    | .statsQuery => b.handleStatsQuery env message toConnection
    | .msgFlowInf => (true,b)
    | _ => (false,b)
  else (false,b)

end Handlers

/-- `forward_conn_to_output`, `forward_conn_to_mqtt`. -/
def forwardConnToState (b : Bridge) (msgId : MessageId) (age : MessageAge)
    (message : MessageView) : Bool × Bridge :=
  let message := Router.aged message age
  if message.tooOld then (true,b)
  else
    let handled := b.handleSpecial env message false msgId
    if handled.1 then handled else handled.2.doPush msgId message true

/-- `forward_input_to_conn`, `forward_mqtt_to_conn`. -/
def forwardStateToConn (b : Bridge) (msgId : MessageId) (age : MessageAge)
    (message : MessageView) : Bool × Bridge :=
  let message := Router.aged message age
  if message.tooOld then (true,b)
  else
    let handled := b.handleSpecial env message true msgId
    if handled.1 then handled else (true,(handled.2.doSend env msgId message true).2)

def forward (b : Bridge) (toConnection : Bool) (msgId : MessageId) (age : MessageAge)
    (message : MessageView) : Bool × Bridge :=
  if toConnection then b.forwardStateToConn env msgId age message
  else b.forwardConnToState env msgId age message

/-- What the state makes of a message that was pushed: the stream leaves out
what has become too old in the queue, the broker is sent what fits the buffer
of the client. -/
def leaves (kind : BridgeKind) (age : MessageAge) (msgId : MessageId) (message : MessageView) :
    Option MessageView :=
  match kind with
  | .stdio => if (Router.aged message age).tooOld then none else some (Router.aged message age)
  | .mqtt =>
    (serializeMessage env.backend msgId message ⟨4096,[]⟩).map (fun _ => message)

/-- The copies of a message that the bridge passes on. -/
def copies (b : Bridge) (toConnection : Bool) (age queued : MessageAge) (msgId : MessageId)
    (message : MessageView) : List (MessageId × MessageView) :=
  let passed := ((b.forward env toConnection msgId age message).2.sent.drop b.sent.length).filter
    (·.passedOn)
  passed.filterMap (fun x => match x.side with
    | .connection => some (x.msgId,x.message)
    | .state => (leaves env b.kind queued x.msgId x.message).map (fun message =>
        (x.msgId,message)))

/-- What is added to the log and passed on has one hop more than this. -/
def Passes (hopCount : Int8) (b b' : Bridge) : Prop :=
  ∃ new, b'.sent = b.sent++new ∧
    ∀ x ∈ new, x.passedOn = true → x.message.hopCount = hopCount+1

section Passes

variable {env} {h : Int8} {b b' b'' : Bridge} {msgId : MessageId} {message : MessageView}
  {toConnection passedOn : Bool}

theorem Passes.refl (b : Bridge) : Passes h b b := ⟨[],by simp,by simp⟩

theorem Passes.trans (hb : Passes h b b') (hb' : Passes h b' b'') : Passes h b b'' := by
  obtain ⟨new,heq,hnew⟩ := hb
  obtain ⟨new',heq',hnew'⟩ := hb'
  refine ⟨new++new',by rw [heq', heq, List.append_assoc],fun x hx => ?_⟩
  rcases List.mem_append.mp hx with hx | hx
  · exact hnew x hx
  · exact hnew' x hx

theorem passes_log (side : BridgeSide) (hp : passedOn = true → message.hopCount = h+1) :
    Passes h b (b.log side msgId message passedOn) := by
  refine ⟨[_],rfl,fun x hx hpassed => ?_⟩
  obtain rfl := List.mem_singleton.mp hx
  exact hp hpassed

theorem passes_doSend (hp : passedOn = true → message.hopCount = h) :
    Passes h b (b.doSend env msgId message passedOn).2 := by
  unfold doSend
  split_ifs
  · exact passes_log .connection (fun h' => congrArg (·+1) (hp h'))
  · exact .refl b

theorem passes_doPush (hp : passedOn = true → message.hopCount = h) :
    Passes h b (b.doPush msgId message passedOn).2 := by
  unfold doPush
  split_ifs
  · exact passes_log .state (fun h' => congrArg (·+1) (hp h'))
  · exact .refl b

theorem passes_answer : Passes h b (b.answer env msgId message toConnection) := by
  unfold answer
  split_ifs
  · exact passes_doPush (fun h' => by cases h')
  · exact passes_doSend (fun h' => by cases h')

/-- Special messages are answered or passed on with one more hop. -/
theorem passes_handleSpecial :
    Passes message.hopCount b (b.handleSpecial env message toConnection msgId).2 := by
  unfold handleSpecial
  split_ifs
  · split
    · refine ⟨[],?_,by simp⟩
      unfold handleIdAssigned
      split_ifs <;> simp
    · exact .refl b
    · unfold handlePing
      split_ifs
      · exact passes_answer
      · exact .refl b
      · exact .refl b
    · unfold handleTopoBridgeConn
      split_ifs
      · split
        · split
          · exact passes_doSend (fun _ => rfl)
          · exact .refl b
        · exact .refl b
      · exact .refl b
    · unfold handleTopologyQuery
      split
      · exact passes_answer
      · exact .refl b
    · unfold handleStatsQuery
      split
      · exact passes_answer
      · exact .refl b
    · exact .refl b
    · exact .refl b
  · exact .refl b

variable (env b msgId message) in
theorem passes_forward (toConnection : Bool) (age : MessageAge) :
    Passes message.hopCount b (b.forward env toConnection msgId age message).2 := by
  have hspecial (side : Bool) : Passes message.hopCount b
      (b.handleSpecial env (Router.aged message age) side msgId).2 := passes_handleSpecial
  have hstate : Passes message.hopCount b (b.forwardStateToConn env msgId age message).2 := by
    unfold forwardStateToConn
    dsimp only
    split_ifs
    · exact .refl b
    · exact hspecial true
    · exact (hspecial true).trans (passes_doSend (fun _ => rfl))
  have hconn : Passes message.hopCount b (b.forwardConnToState env msgId age message).2 := by
    unfold forwardConnToState
    dsimp only
    split_ifs
    · exact .refl b
    · exact hspecial false
    · exact (hspecial false).trans (passes_doPush (fun _ => rfl))
  unfold forward
  split_ifs
  · exact hstate
  · exact hconn

theorem leaves_hopCount {kind : BridgeKind} {age : MessageAge} {m : MessageView}
    (hl : leaves env kind age msgId message = some m) : m.hopCount = message.hopCount := by
  unfold leaves at hl
  split at hl
  · split_ifs at hl
    obtain rfl := Option.some.inj hl
    rfl
  · obtain ⟨_,-,rfl⟩ := Option.map_eq_some_iff.mp hl
    rfl

/-- Each copy has one hop more than the message. -/
theorem copies_hopCount {age queued : MessageAge} {m : MessageId × MessageView}
    (hm : m ∈ b.copies env toConnection age queued msgId message) :
    m.2.hopCount = message.hopCount+1 := by
  unfold copies at hm
  dsimp only at hm
  obtain ⟨new,heq,hnew⟩ := passes_forward env b msgId message toConnection age
  rw [heq, List.drop_left] at hm
  obtain ⟨x,hx,hout⟩ := List.mem_filterMap.mp hm
  obtain ⟨hxnew,hpassed⟩ := List.mem_filter.mp hx
  rw [← hnew x hxnew hpassed]
  split at hout
  · obtain rfl := Option.some.inj hout
    rfl
  · obtain ⟨m',hl,rfl⟩ := Option.map_eq_some_iff.mp hout
    exact leaves_hopCount hl

end Passes

end Bridge

end MsgBus
