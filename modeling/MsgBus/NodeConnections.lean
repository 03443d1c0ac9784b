import Mathlib.Data.Sym.Sym2
import MsgBus.Bridge
import MsgBus.Lib.LinkList
import MsgBus.PingHistory

/-!
# The connections of tracked nodes

A node tracker lists the connections that routers and bridges have told of. A
change of a connection is added to both its nodes, and given with the next
update. A node that shows another instance id is forgotten with its
connections; one that has disappeared is removed, its connections stay. The
hosts and instances of the tracker are left out.
-/

set_option autoImplicit false

namespace MsgBus

open LinkList StepRun

structure NodeConnection where
  id1 : EndpointId
  id2 : EndpointId
  kind : ConnectionKind := .unknown
  deriving DecidableEq, Repr

namespace NodeConnection

def connects (conn : NodeConnection) (id : EndpointId) : Bool := conn.id1 = id ∨ conn.id2 = id

def connectsBoth (conn : NodeConnection) (id1 id2 : EndpointId) : Bool :=
  conn.id1 = id1 ∧ conn.id2 = id2 ∨ conn.id1 = id2 ∧ conn.id2 = id1

/-- Zero when the connection is not one of the node. -/
def oppositeId (conn : NodeConnection) (id : EndpointId) : EndpointId :=
  if conn.id1 = id then conn.id2 else if conn.id2 = id then conn.id1 else 0

def ends (conn : NodeConnection) : Sym2 EndpointId := s(conn.id1,conn.id2)

end NodeConnection

structure TrackedNode extends PingedNode where
  connectionInfo : Bool := false

namespace TrackedNode

def setInstanceId (node : TrackedNode) (instanceId : ℕ) : TrackedNode :=
  { node with toPingedNode := node.toPingedNode.setInstanceId instanceId }

def noticeAlive (node : TrackedNode) : TrackedNode :=
  { node with toPingedNode := node.toPingedNode.noticeAlive }

def noticeInstance (node : TrackedNode) (instanceId : ℕ) : TrackedNode :=
  let node := if node.instanceId ≠ 0 then
      if node.instanceId ≠ instanceId then ({} : TrackedNode).setInstanceId instanceId else node
    else node.setInstanceId instanceId
  node.noticeAlive

def assign (node : TrackedNode) (kind : NodeKind) : TrackedNode :=
  { node with toRemoteNode := node.toRemoteNode.assign kind }

def addSubscription (node : TrackedNode) (msgId : MessageId) : TrackedNode :=
  { node with toRemoteNode := node.toRemoteNode.addSubscription msgId }

def removeSubscription (node : TrackedNode) (msgId : MessageId) : TrackedNode :=
  { node with toRemoteNode := node.toRemoteNode.removeSubscription msgId }

def pingResponse (node : TrackedNode) (age : ℕ) : TrackedNode :=
  { node with toPingedNode := node.toPingedNode.pingResponse age }

def pingTimeout (node : TrackedNode) (age : ℕ) : TrackedNode :=
  { node with toPingedNode := node.toPingedNode.pingTimeout age }

def addConnectionChange (node : TrackedNode) : TrackedNode := { node with connectionInfo := true }

def hasChanges (node : TrackedNode) : Bool :=
  node.changes ≠ {} ∨ node.stoppedResponding ∨ node.responseRate ∨ node.connectionInfo

/-- `changes` gives the changes and forgets them. -/
def clearChanges (node : TrackedNode) : TrackedNode :=
  { node with changes := {}, stoppedResponding := false, responseRate := false,
              connectionInfo := false }

end TrackedNode

structure NodeTracker where
  nodes : OrderedMap EndpointId TrackedNode := .empty
  connections : List NodeConnection := []

/-- What is signalled to a tracker by the services that it consists of, and its
update. -/
inductive TrackerEvent where
  | alive (id : EndpointId) (instanceId : ℕ)
  | subscribed (id : EndpointId) (instanceId : ℕ) (msgId : MessageId)
  | unsubscribed (id : EndpointId) (instanceId : ℕ) (msgId : MessageId)
  | notSubscribed (id : EndpointId) (instanceId : ℕ) (msgId : MessageId)
  | routerAppeared (info : RouterTopologyInfo)
  | bridgeAppeared (info : BridgeTopologyInfo)
  | endpointAppeared (id : EndpointId) (instanceId : ℕ)
  | routerDisappeared (id : EndpointId)
  | bridgeDisappeared (id : EndpointId)
  | endpointDisappeared (id : EndpointId)
  | routerStatsReceived (id : EndpointId)
  | bridgeStatsReceived (id : EndpointId)
  | endpointStatsReceived (id : EndpointId)
  | connectionStatsReceived (localId remoteId : EndpointId)
  | endpointInfoReceived (id : EndpointId)
  | pingResponse (id : EndpointId) (age : ℕ)
  | pingTimeout (id : EndpointId) (age : ℕ)
  | update

/-- The node that has disappeared. -/
def TrackerEvent.leaver : TrackerEvent → Option EndpointId
  | .routerDisappeared id => some id
  | .bridgeDisappeared id => some id
  | .endpointDisappeared id => some id
  | _ => none

namespace NodeTracker

def getNode (t : NodeTracker) (id : EndpointId) : TrackedNode := (t.nodes.find? id).getD {}

/-- A change of the node, which is made if there is none. -/
def modifyNode (t : NodeTracker) (id : EndpointId) (f : TrackedNode → TrackedNode) :
    NodeTracker :=
  { t with nodes := t.nodes.assign id (f (t.getNode id)) }

def removeNode (t : NodeTracker) (id : EndpointId) : NodeTracker :=
  { t with nodes := t.nodes.erase id }

/-- The place of the connection, which is made if there is none. -/
def getConnection (t : NodeTracker) (id1 id2 : EndpointId) : ℕ × NodeTracker :=
  match t.connections.findIdx? fun conn => conn.connectsBoth id1 id2 with
  | some i => (i,t)
  | none =>
    let t' : NodeTracker := { t with connections := t.connections ++ [⟨id1,id2,.unknown⟩] }
    (t.connections.length,
      (t'.modifyNode id1 .addConnectionChange).modifyNode id2 .addConnectionChange)

def setKind (t : NodeTracker) (i : ℕ) (kind : ConnectionKind) : NodeTracker :=
  match t.connections[i]? with
  | some conn =>
    if conn.kind ≠ kind then
      let t := { t with connections := t.connections.modify i fun conn => { conn with kind } }
      (t.modifyNode conn.id1 .addConnectionChange).modifyNode conn.id2 .addConnectionChange
    else t
  | none => t

def noticeInstance (t : NodeTracker) (id : EndpointId) (instanceId : ℕ) : NodeTracker :=
  let node := t.getNode id
  let t := t.modifyNode id fun node => node.noticeInstance instanceId
  if node.instanceId ≠ 0 ∧ node.instanceId ≠ instanceId then
    { t with connections := t.connections.filter fun conn => !conn.connects id }
  else t

/-- `remote_node::connections`. -/
def connectionsOf (t : NodeTracker) (id : EndpointId) : List EndpointId :=
  t.connections.filterMap fun conn =>
    if conn.oppositeId id ≠ 0 then some (conn.oppositeId id) else none

/-- The kind of the connection that the `get_connection` of clients gives. -/
def kindOf (t : NodeTracker) (id1 id2 : EndpointId) : ConnectionKind :=
  match t.connections.find? fun conn => conn.connectsBoth id1 id2 with
  | some conn => conn.kind
  | none => .unknown

/-- The nodes that are signalled as changed, with their changes. -/
def update (t : NodeTracker) : List (EndpointId × TrackedNode) × NodeTracker :=
  (t.nodes.entries.filter fun e => e.2.hasChanges,
    { t with nodes := t.nodes.mapValues fun _ node => node.clearChanges })

def handleAlive (t : NodeTracker) (id : EndpointId) (instanceId : ℕ) : NodeTracker :=
  (t.noticeInstance id instanceId).modifyNode id fun node => node.assign .endpoint

def handleSubscribed (t : NodeTracker) (id : EndpointId) (instanceId : ℕ) (msgId : MessageId) :
    NodeTracker :=
  (t.noticeInstance id instanceId).modifyNode id fun node => node.addSubscription msgId

/-- So does `handleNotSubscribed`. -/
def handleUnsubscribed (t : NodeTracker) (id : EndpointId) (instanceId : ℕ)
    (msgId : MessageId) : NodeTracker :=
  (t.noticeInstance id instanceId).modifyNode id fun node => node.removeSubscription msgId

def handleRouterAppeared (t : NodeTracker) (info : RouterTopologyInfo) : NodeTracker :=
  let t := (t.noticeInstance info.routerId info.instanceId).modifyNode info.routerId
    fun node => node.assign .router
  if info.remoteId ≠ 0 then
    let (i,t) := t.getConnection info.routerId info.remoteId
    t.setKind i info.connectKind
  else t

def handleBridgeAppeared (t : NodeTracker) (info : BridgeTopologyInfo) : NodeTracker :=
  let t := (t.noticeInstance info.bridgeId info.instanceId).modifyNode info.bridgeId
    fun node => node.assign .bridge
  if info.oppositeId ≠ 0 then
    let (i,t) := t.getConnection info.bridgeId info.oppositeId
    t.setKind i .remoteInterprocess
  else t

/-- What is received of a node tells its kind and that it is alive; the rest of
it is left out. -/
def handleReceived (t : NodeTracker) (id : EndpointId) (kind : NodeKind) : NodeTracker :=
  t.modifyNode id fun node => (node.assign kind).noticeAlive

/-- The statistics of a connection do no more than to list it. -/
def handleConnectionStatsReceived (t : NodeTracker) (localId remoteId : EndpointId) :
    NodeTracker :=
  (t.getConnection localId remoteId).2

def step (t : NodeTracker) : TrackerEvent → NodeTracker
  | .alive id instanceId => t.handleAlive id instanceId
  | .subscribed id instanceId msgId => t.handleSubscribed id instanceId msgId
  | .unsubscribed id instanceId msgId => t.handleUnsubscribed id instanceId msgId
  | .notSubscribed id instanceId msgId => t.handleUnsubscribed id instanceId msgId
  | .routerAppeared info => t.handleRouterAppeared info
  | .bridgeAppeared info => t.handleBridgeAppeared info
  | .endpointAppeared id instanceId => t.handleAlive id instanceId
  | .routerDisappeared id => t.removeNode id
  | .bridgeDisappeared id => t.removeNode id
  | .endpointDisappeared id => t.removeNode id
  | .routerStatsReceived id => t.handleReceived id .router
  | .bridgeStatsReceived id => t.handleReceived id .bridge
  | .endpointStatsReceived id => t.handleReceived id .endpoint
  | .connectionStatsReceived localId remoteId => t.handleConnectionStatsReceived localId remoteId
  | .endpointInfoReceived id => t.handleReceived id .endpoint
  | .pingResponse id age => t.modifyNode id fun node => node.pingResponse age
  | .pingTimeout id age => t.modifyNode id fun node => node.pingTimeout age
  | .update => t.update.2

end NodeTracker

/-! ## What is known of the links -/

/-- The instance id that a node has shown since it was last removed, zero if
none, and the kind of each link that is known. -/
structure TopologyLinks where
  instanceOf : EndpointId → ℕ
  kind : Sym2 EndpointId → Option ConnectionKind

namespace TopologyLinks

/-- Another instance of the node has none of its links. -/
def notice (l : TopologyLinks) (id : EndpointId) (instanceId : ℕ) : TopologyLinks where
  instanceOf := Function.update l.instanceOf id instanceId
  kind := if l.instanceOf id ≠ 0 ∧ l.instanceOf id ≠ instanceId then
      fun e => if id ∈ e then none else l.kind e
    else l.kind

def ensure (l : TopologyLinks) (e : Sym2 EndpointId) : TopologyLinks :=
  { l with kind := Function.update l.kind e (some ((l.kind e).getD .unknown)) }

def tell (l : TopologyLinks) (e : Sym2 EndpointId) (kind : ConnectionKind) : TopologyLinks :=
  { l with kind := Function.update l.kind e (some kind) }

def leave (l : TopologyLinks) (id : EndpointId) : TopologyLinks :=
  { l with instanceOf := Function.update l.instanceOf id 0 }

def step (l : TopologyLinks) : TrackerEvent → TopologyLinks
  | .alive id instanceId => l.notice id instanceId
  | .subscribed id instanceId _ => l.notice id instanceId
  | .unsubscribed id instanceId _ => l.notice id instanceId
  | .notSubscribed id instanceId _ => l.notice id instanceId
  | .routerAppeared info =>
    let l := l.notice info.routerId info.instanceId
    if info.remoteId ≠ 0 then l.tell s(info.routerId,info.remoteId) info.connectKind else l
  | .bridgeAppeared info =>
    let l := l.notice info.bridgeId info.instanceId
    if info.oppositeId ≠ 0 then l.tell s(info.bridgeId,info.oppositeId) .remoteInterprocess else l
  | .endpointAppeared id instanceId => l.notice id instanceId
  | .routerDisappeared id => l.leave id
  | .bridgeDisappeared id => l.leave id
  | .endpointDisappeared id => l.leave id
  | .connectionStatsReceived localId remoteId => l.ensure s(localId,remoteId)
  | _ => l

def start : TopologyLinks := ⟨fun _ => 0,fun _ => none⟩

theorem kind_ensure (l : TopologyLinks) (e e' : Sym2 EndpointId) : (l.ensure e).kind e' =
    if e' = e then some ((l.kind e).getD .unknown) else l.kind e' := Function.update_apply _ _ _ _

theorem kind_tell (l : TopologyLinks) (e e' : Sym2 EndpointId) (kind : ConnectionKind) :
    (l.tell e kind).kind e' = if e' = e then some kind else l.kind e' :=
  Function.update_apply _ _ _ _

theorem ensure_known {l : TopologyLinks} {e : Sym2 EndpointId} {kind : ConnectionKind}
    (h : l.kind e = some kind) : l.ensure e = l := by
  refine congrArg (TopologyLinks.mk l.instanceOf) ?_
  rw [h, Option.getD_some, ← h, Function.update_eq_self]

theorem ensure_keeps {l : TopologyLinks} {e e' : Sym2 EndpointId} {kind : ConnectionKind}
    (h : l.kind e' = some kind) : (l.ensure e).kind e' = some kind := by
  rw [kind_ensure]
  split_ifs with he
  · rw [← he, h, Option.getD_some]
  · exact h

theorem tell_known {l : TopologyLinks} {e : Sym2 EndpointId} {kind : ConnectionKind}
    (h : l.kind e = some kind) : l.tell e kind = l := by
  refine congrArg (TopologyLinks.mk l.instanceOf) ?_
  rw [← h, Function.update_eq_self]

theorem tell_ensure (l : TopologyLinks) (e : Sym2 EndpointId) (kind : ConnectionKind) :
    (l.ensure e).tell e kind = l.tell e kind :=
  congrArg (TopologyLinks.mk l.instanceOf) (Function.update_idem _ _ _)

end TopologyLinks

namespace NodeConnection

variable {conn : NodeConnection} {id id1 id2 : EndpointId}

theorem connects_iff : conn.connects id = true ↔ id ∈ conn.ends := by
  rw [connects, ends, Sym2.mem_iff, decide_eq_true_iff, eq_comm (a := id), eq_comm (a := id)]

theorem connectsBoth_iff : conn.connectsBoth id1 id2 = true ↔ conn.ends = s(id1,id2) := by
  rw [connectsBoth, ends, Sym2.eq_iff, decide_eq_true_iff]

theorem connectsBoth_eq : (fun conn : NodeConnection => conn.connectsBoth id1 id2) =
    fun conn => decide (conn.ends = s(id1,id2)) := by
  funext conn
  rw [Bool.eq_iff_iff, connectsBoth_iff, decide_eq_true_iff]

theorem oppositeId_iff {other : EndpointId} (h0 : 0 ∉ conn.ends) :
    conn.oppositeId id ≠ 0 ∧ conn.oppositeId id = other ↔ conn.ends = s(id,other) := by
  rw [ends, Sym2.mem_iff, not_or] at h0
  rw [ends, Sym2.eq_iff, oppositeId]
  split_ifs with h1 h2
  · grind
  · grind
  · grind

end NodeConnection

namespace TrackedNode

/-- The next update tells of the node's connections or of its new instance. -/
def Marked (node : TrackedNode) : Prop :=
  node.connectionInfo = true ∨ node.changes.instanceId = true

/-- A change that is not one of the instance or of the connections. -/
def Aside (f : TrackedNode → TrackedNode) : Prop :=
  ∀ node, (f node).instanceId = node.instanceId ∧ (node.Marked → (f node).Marked)

theorem aside_remote {f : RemoteNode → RemoteNode} (hf : ∀ node,
    (f node).instanceId = node.instanceId ∧ (f node).changes.instanceId = node.changes.instanceId) :
    Aside fun node => { node with toRemoteNode := f node.toRemoteNode } :=
  fun node => ⟨(hf node.toRemoteNode).1,Or.imp_right fun h => (hf node.toRemoteNode).2.trans h⟩

theorem aside_addSubscription (msgId : MessageId) :
    Aside fun node => node.addSubscription msgId := by
  refine aside_remote fun node => ⟨(RemoteNode.addSubscription_spec node msgId msgId).1,?_⟩
  simp only [RemoteNode.addSubscription, RemoteNode.getSubRef, RemoteNode.setSub]
  split_ifs <;> rfl

theorem aside_removeSubscription (msgId : MessageId) :
    Aside fun node => node.removeSubscription msgId := by
  refine aside_remote fun node => ⟨(RemoteNode.removeSubscription_spec node msgId msgId).1,?_⟩
  simp only [RemoteNode.removeSubscription, RemoteNode.getSubRef, RemoteNode.setSub]
  split_ifs <;> rfl

theorem aside_assign (kind : NodeKind) : Aside fun node => node.assign kind := by
  refine aside_remote (f := fun node => node.assign kind) fun node => ?_
  simp only [RemoteNode.assign]
  split_ifs <;> exact ⟨rfl,rfl⟩

theorem aside_noticeAlive : Aside noticeAlive := by
  intro node
  refine ⟨rfl,Or.imp_right fun h => ?_⟩
  simp only [noticeAlive, PingedNode.noticeAlive, RemoteNode.noticeAlive]
  split_ifs <;> exact h

theorem aside_pingResponse (age : ℕ) : Aside fun node => node.pingResponse age := by
  intro node
  refine ⟨rfl,Or.imp_right fun h => ?_⟩
  simp only [pingResponse, PingedNode.pingResponse]
  split_ifs <;> exact h

theorem aside_pingTimeout (age : ℕ) : Aside fun node => node.pingTimeout age :=
  fun _ => ⟨rfl,id⟩

theorem Aside.comp {f g : TrackedNode → TrackedNode} (hg : Aside g) (hf : Aside f) :
    Aside fun node => g (f node) :=
  fun node => ⟨(hg (f node)).1.trans (hf node).1,fun h => (hg (f node)).2 ((hf node).2 h)⟩

theorem setInstanceId_spec (node : TrackedNode) (instanceId : ℕ) :
    (node.setInstanceId instanceId).instanceId = instanceId ∧
      (node.Marked → (node.setInstanceId instanceId).Marked) ∧
      (node.instanceId ≠ instanceId → (node.setInstanceId instanceId).Marked) := by
  unfold setInstanceId PingedNode.setInstanceId RemoteNode.setInstanceId
  split_ifs with h
  · exact ⟨rfl,fun _ => Or.inr rfl,fun _ => Or.inr rfl⟩
  · exact ⟨not_not.mp h,id,fun hne => absurd hne h⟩

/-- A node that shows another instance id than before is told of. -/
theorem noticeInstance_spec (node : TrackedNode) {instanceId : ℕ} (h0 : instanceId ≠ 0) :
    (node.noticeInstance instanceId).instanceId = instanceId ∧
      (node.Marked → (node.noticeInstance instanceId).Marked) ∧
      (node.instanceId ≠ instanceId → (node.noticeInstance instanceId).Marked) := by
  have halive := aside_noticeAlive
  unfold noticeInstance
  split_ifs with hknown hother
  · obtain ⟨hid,-,hnew⟩ := setInstanceId_spec {} instanceId
    have hm := (halive _).2 (hnew h0.symm)
    exact ⟨(halive _).1.trans hid,fun _ => hm,fun _ => hm⟩
  · exact ⟨(halive _).1.trans (not_not.mp hother),(halive _).2,fun hne => absurd hne hother⟩
  · obtain ⟨hid,hkeep,hnew⟩ := setInstanceId_spec node instanceId
    exact ⟨(halive _).1.trans hid,fun h => (halive _).2 (hkeep h),fun h => (halive _).2 (hnew h)⟩

end TrackedNode

namespace NodeTracker

open NodeConnection (ends)

/-- What the tracker knows of the links. -/
def links (t : NodeTracker) : TopologyLinks where
  instanceOf id := (t.getNode id).instanceId
  kind := labelAt ends NodeConnection.kind t.connections

/-- No two nodes have two connections, and all have ids. -/
structure Listed (t : NodeTracker) : Prop where
  simple : Simple ends t.connections
  ids : ∀ e ∈ t.connections.map ends, 0 ∉ e

/-- A change of the tracker that leads to these links; each link that changes
has a node of which the next update tells. -/
structure Moves (t t' : NodeTracker) (l : TopologyLinks) : Prop where
  listed : t.Listed → t'.Listed
  links : t'.links = l
  marks : ∀ a, (t.getNode a).Marked → (t'.getNode a).Marked
  changed : ∀ e, l.kind e ≠ t.links.kind e → ∃ a ∈ e, (t'.getNode a).Marked

section Moves

variable {t t' t'' : NodeTracker} {l l' : TopologyLinks} {id id1 id2 : EndpointId}

theorem Moves.trans (h : Moves t t' l) (h' : Moves t' t'' l') : Moves t t'' l' where
  listed hl := h'.listed (h.listed hl)
  links := h'.links
  marks a ha := h'.marks a (h.marks a ha)
  changed e he := by
    by_cases hmid : l.kind e = t.links.kind e
    · exact h'.changed e (by rwa [h.links, hmid])
    · obtain ⟨a,ha,hm⟩ := h.changed e hmid
      exact ⟨a,ha,h'.marks a hm⟩

theorem getNode_modifyNode (f : TrackedNode → TrackedNode) (id' : EndpointId) :
    (t.modifyNode id f).getNode id' = if id = id' then f (t.getNode id) else t.getNode id' := by
  unfold modifyNode getNode
  rw [OrderedMap.find?_assign]
  split_ifs <;> rfl

variable (t id) in
theorem moves_modifyNode {f : TrackedNode → TrackedNode} (hf : TrackedNode.Aside f) :
    Moves t (t.modifyNode id f) t.links where
  listed hl := ⟨hl.simple,hl.ids⟩
  links := by
    refine congrArg₂ TopologyLinks.mk (funext fun a => ?_) rfl
    rw [getNode_modifyNode]
    split_ifs with ha
    · rw [(hf _).1, ha]
    · rfl
  marks a ha := by
    rw [getNode_modifyNode]
    split_ifs with hid
    · exact (hf _).2 (hid ▸ ha)
    · exact ha
  changed e he := absurd rfl he

theorem aside_addConnectionChange : TrackedNode.Aside .addConnectionChange :=
  fun _ => ⟨rfl,fun _ => Or.inl rfl⟩

/-- The connections change and both nodes of a link are told of. -/
theorem moves_told {conns : List NodeConnection} {kind : Sym2 EndpointId → Option ConnectionKind}
    (hl : t.Listed → Listed { t with connections := conns })
    (hk : labelAt ends NodeConnection.kind conns = kind)
    (hc : ∀ e, kind e ≠ t.links.kind e → id1 ∈ e ∨ id2 ∈ e) :
    let t' : NodeTracker := { t with connections := conns }
    Moves t ((t'.modifyNode id1 .addConnectionChange).modifyNode id2 .addConnectionChange)
      { t.links with kind } := by
  intro t'
  have h1 : Moves t' (t'.modifyNode id1 .addConnectionChange) t'.links :=
    moves_modifyNode t' id1 aside_addConnectionChange
  have h2 := moves_modifyNode (t'.modifyNode id1 .addConnectionChange) id2
    aside_addConnectionChange
  have h := h1.trans h2
  refine ⟨fun ht => h.listed (hl ht),?_,h.marks,fun e he => ?_⟩
  · rw [h.links, h1.links]
    exact congrArg (TopologyLinks.mk t.links.instanceOf) hk
  · rcases hc e he with he | he
    · refine ⟨id1,he,h2.marks id1 ?_⟩
      rw [getNode_modifyNode, if_pos rfl]
      exact Or.inl rfl
    · refine ⟨id2,he,?_⟩
      rw [getNode_modifyNode, if_pos rfl]
      exact Or.inl rfl

theorem ids_ends (h1 : id1 ≠ 0) (h2 : id2 ≠ 0) : 0 ∉ s(id1,id2) := by
  rw [Sym2.mem_iff]
  rintro (h | h)
  · exact h1 h.symm
  · exact h2 h.symm

/-- After the connection was got there is one, at the place that is given. -/
theorem moves_getConnection (h1 : id1 ≠ 0) (h2 : id2 ≠ 0) :
    Moves t (t.getConnection id1 id2).2 (t.links.ensure s(id1,id2)) ∧
      (t.getConnection id1 id2).2.connections.findIdx? (fun conn => conn.ends = s(id1,id2)) =
        some (t.getConnection id1 id2).1 := by
  unfold getConnection
  rw [NodeConnection.connectsBoth_eq]
  cases hi : t.connections.findIdx? fun conn => conn.ends = s(id1,id2) with
  | some i =>
    obtain ⟨conn,-,-,hat⟩ : ∃ conn : NodeConnection, _ ∧ _ ∧
        t.links.kind s(id1,id2) = some conn.kind :=
      labelAt_place hi
    rw [TopologyLinks.ensure_known hat]
    exact ⟨⟨fun h => h,rfl,fun _ h => h,fun e he => absurd rfl he⟩,hi⟩
  | none =>
    have hnone := List.findIdx?_eq_none_iff.mp hi
    have hnew : labelAt ends NodeConnection.kind t.connections s(id1,id2) = none :=
      labelAt_eq_none.mpr fun conn hconn => by simpa using hnone conn hconn
    have hnone' : t.links.kind s(id1,id2) = none := hnew
    have hlast : labelAt ends NodeConnection.kind (t.connections ++ [⟨id1,id2,.unknown⟩]) =
        (t.links.ensure s(id1,id2)).kind := by
      funext e
      rw [labelAt_append hnew, TopologyLinks.kind_ensure, hnone']
      exact if_congr eq_comm rfl rfl
    refine ⟨moves_told (fun ht => ⟨simple_append ht.simple hnew,?_⟩) hlast fun e he => ?_,?_⟩
    · intro e he
      rw [List.map_append] at he
      rcases List.mem_append.mp he with he | he
      · exact ht.ids e he
      · rw [List.mem_singleton.mp he]
        exact ids_ends h1 h2
    · by_cases hse : e = s(id1,id2)
      · exact Or.inl (hse ▸ Sym2.mem_mk_left id1 id2)
      · exact absurd ((TopologyLinks.kind_ensure _ _ _).trans (if_neg hse)) he
    · change (t.connections ++ [_]).findIdx? _ = _
      rw [List.findIdx?_append, hi]
      simp [ends]

theorem moves_setKind {i : ℕ} {e : Sym2 EndpointId} (kind : ConnectionKind)
    (hi : t.connections.findIdx? (fun conn => conn.ends = e) = some i) :
    Moves t (t.setKind i kind) (t.links.tell e kind) := by
  obtain ⟨conn,hget,hends,hat⟩ : ∃ conn : NodeConnection, _ ∧ _ ∧ t.links.kind e = some conn.kind :=
    labelAt_place hi
  have hkeep (conn : NodeConnection) : ends { conn with kind } = conn.ends := rfl
  unfold setKind
  rw [hget]
  dsimp only
  split_ifs with hkind
  · have hmodify : labelAt ends NodeConnection.kind
        (t.connections.modify i fun conn => { conn with kind }) = (t.links.tell e kind).kind := by
      funext e'
      rw [labelAt_modify hkeep hi hget, TopologyLinks.kind_tell]
      exact if_congr eq_comm rfl rfl
    refine moves_told (fun ht => ⟨simple_modify hkeep ht.simple,?_⟩) hmodify
      fun e' he => ?_
    · rw [map_ends_modify hkeep]
      exact ht.ids
    · by_cases hse : e' = e
      · rw [hse, ← hends]
        exact Or.inl (Sym2.mem_mk_left conn.id1 conn.id2)
      · exact absurd ((TopologyLinks.kind_tell _ _ _ _).trans (if_neg hse)) he
  · rw [not_not] at hkind
    rw [TopologyLinks.tell_known (hkind ▸ hat)]
    exact ⟨fun h => h,rfl,fun _ h => h,fun e he => absurd rfl he⟩

theorem moves_noticeInstance {instanceId : ℕ} (h0 : instanceId ≠ 0) :
    Moves t (t.noticeInstance id instanceId) (t.links.notice id instanceId) := by
  have hspec := (t.getNode id).noticeInstance_spec h0
  have hmark (a : EndpointId) (ha : (t.getNode a).Marked) :
      ((t.modifyNode id fun node => node.noticeInstance instanceId).getNode a).Marked := by
    rw [getNode_modifyNode]
    split_ifs with hid
    · exact hspec.2.1 (hid ▸ ha)
    · exact ha
  have hlinks : (fun a => ((t.modifyNode id fun node => node.noticeInstance instanceId).getNode
      a).instanceId) = Function.update t.links.instanceOf id instanceId := by
    funext a
    rw [getNode_modifyNode, Function.update_apply]
    by_cases ha : a = id
    · rw [if_pos ha.symm, if_pos ha, hspec.1]
    · rw [if_neg (Ne.symm ha), if_neg ha]
      rfl
  unfold noticeInstance TopologyLinks.notice
  dsimp only
  split_ifs with hother hlinked hlinked
  · have hdrop (conn : NodeConnection) : (!conn.connects id) = true ↔ id ∉ conn.ends := by
      rw [Bool.not_eq_true', ← Bool.not_eq_true, NodeConnection.connects_iff]
    refine ⟨fun ht => ⟨simple_filter _ ht.simple,?_⟩,?_,hmark,fun e he => ?_⟩
    · intro e he
      obtain ⟨conn,hconn,rfl⟩ := List.mem_map.mp he
      exact ht.ids _ (List.mem_map_of_mem (List.mem_of_mem_filter hconn))
    · exact congrArg₂ TopologyLinks.mk hlinks (funext fun e => labelAt_drop hdrop)
    · refine ⟨id,by_contra fun hid => he (if_neg hid),?_⟩
      have hmade : ((t.modifyNode id fun node => node.noticeInstance instanceId).getNode
          id).Marked := by
        rw [getNode_modifyNode, if_pos rfl]
        exact hspec.2.2 hother.2
      exact hmade
  · exact absurd hother hlinked
  · exact absurd hlinked hother
  · exact ⟨fun ht => ⟨ht.simple,ht.ids⟩,congrArg₂ TopologyLinks.mk hlinks rfl,hmark,
      fun e he => absurd rfl he⟩

/-- The nodes of connections have ids, and what shows an instance shows one. -/
def Proper : TrackerEvent → Prop
  | .alive _ instanceId => instanceId ≠ 0
  | .subscribed _ instanceId _ => instanceId ≠ 0
  | .unsubscribed _ instanceId _ => instanceId ≠ 0
  | .notSubscribed _ instanceId _ => instanceId ≠ 0
  | .routerAppeared info => info.instanceId ≠ 0 ∧ info.routerId ≠ 0
  | .bridgeAppeared info => info.instanceId ≠ 0 ∧ info.bridgeId ≠ 0
  | .endpointAppeared _ instanceId => instanceId ≠ 0
  | .connectionStatsReceived localId remoteId => localId ≠ 0 ∧ remoteId ≠ 0
  | _ => True

/-- A node shows its instance and then something else of it changes. -/
theorem moves_noticed {f : TrackedNode → TrackedNode} (hf : TrackedNode.Aside f) {instanceId : ℕ}
    (h0 : instanceId ≠ 0) : Moves t ((t.noticeInstance id instanceId).modifyNode id f)
      (t.links.notice id instanceId) := by
  have hnotice : Moves t (t.noticeInstance id instanceId) _ := moves_noticeInstance h0
  have h := hnotice.trans (moves_modifyNode _ id hf)
  rwa [hnotice.links] at h

theorem moves_told_kind (h1 : id1 ≠ 0) (h2 : id2 ≠ 0) (kind : ConnectionKind) :
    Moves t ((t.getConnection id1 id2).2.setKind (t.getConnection id1 id2).1 kind)
      (t.links.tell s(id1,id2) kind) := by
  obtain ⟨hget,hat⟩ := moves_getConnection (t := t) h1 h2
  have h := hget.trans (moves_setKind kind hat)
  rwa [hget.links, TopologyLinks.tell_ensure] at h

/-- What is told of a node and of one of its connections. -/
theorem moves_appeared {f : TrackedNode → TrackedNode} (hf : TrackedNode.Aside f)
    {instanceId : ℕ} (h0 : instanceId ≠ 0) (hid : id ≠ 0) (remoteId : EndpointId)
    (kind : ConnectionKind) :
    let t' := (t.noticeInstance id instanceId).modifyNode id f
    let l := t.links.notice id instanceId
    Moves t (if remoteId ≠ 0 then
        (t'.getConnection id remoteId).2.setKind (t'.getConnection id remoteId).1 kind
      else t') (if remoteId ≠ 0 then l.tell s(id,remoteId) kind else l) := by
  intro t' l
  have hnoticed : Moves t t' l := moves_noticed hf h0
  split_ifs with hremote
  · have h := hnoticed.trans (moves_told_kind hid hremote kind)
    rwa [hnoticed.links] at h
  · exact hnoticed

theorem listed_removeNode (h : t.Listed) : (t.removeNode id).Listed := ⟨h.simple,h.ids⟩

theorem getNode_removeNode (a : EndpointId) :
    (t.removeNode id).getNode a = if a = id then {} else t.getNode a := by
  unfold removeNode getNode
  rw [OrderedMap.find?_erase]
  split_ifs <;> rfl

theorem links_removeNode : (t.removeNode id).links = t.links.leave id := by
  refine congrArg₂ TopologyLinks.mk (funext fun a => ?_) rfl
  rw [getNode_removeNode, Function.update_apply]
  split_ifs <;> rfl

theorem getNode_update (a : EndpointId) :
    t.update.2.getNode a = (t.getNode a).clearChanges := by
  unfold update getNode
  rw [OrderedMap.find?_mapValues]
  cases t.nodes.find? a <;> rfl

theorem links_update : t.update.2.links = t.links := by
  refine congrArg₂ TopologyLinks.mk (funext fun a => ?_) rfl
  rw [getNode_update]
  rfl

theorem moves_step {e : TrackerEvent} (hp : Proper e) (hl : e.leaver = none)
    (hu : e ≠ .update) : Moves t (t.step e) (t.links.step e) := by
  cases e with
  | alive id instanceId => exact moves_noticed (TrackedNode.aside_assign _) hp
  | subscribed id instanceId msgId =>
    exact moves_noticed (TrackedNode.aside_addSubscription msgId) hp
  | unsubscribed id instanceId msgId =>
    exact moves_noticed (TrackedNode.aside_removeSubscription msgId) hp
  | notSubscribed id instanceId msgId =>
    exact moves_noticed (TrackedNode.aside_removeSubscription msgId) hp
  | routerAppeared info =>
    exact moves_appeared (TrackedNode.aside_assign _) hp.1 hp.2 info.remoteId info.connectKind
  | bridgeAppeared info =>
    exact moves_appeared (TrackedNode.aside_assign _) hp.1 hp.2 info.oppositeId _
  | endpointAppeared id instanceId => exact moves_noticed (TrackedNode.aside_assign _) hp
  | connectionStatsReceived localId remoteId => exact (moves_getConnection hp.1 hp.2).1
  | pingResponse id age => exact moves_modifyNode t id (TrackedNode.aside_pingResponse age)
  | pingTimeout id age => exact moves_modifyNode t id (TrackedNode.aside_pingTimeout age)
  | routerDisappeared id => cases hl
  | bridgeDisappeared id => cases hl
  | endpointDisappeared id => cases hl
  | update => exact absurd rfl hu
  | _ =>
    exact moves_modifyNode t _ (TrackedNode.aside_noticeAlive.comp (TrackedNode.aside_assign _))

theorem step_leaver {e : TrackerEvent} (hl : e.leaver = some id) :
    t.step e = t.removeNode id ∧ t.links.step e = t.links.leave id := by
  cases e <;> cases hl <;> exact ⟨rfl,rfl⟩

/-- The tracker knows of the links what the events have told. -/
theorem links_step {e : TrackerEvent} (hp : Proper e) : (t.step e).links = t.links.step e := by
  cases hl : e.leaver with
  | some id =>
    obtain ⟨hstep,hlinks⟩ := step_leaver (t := t) hl
    rw [hstep, hlinks]
    exact links_removeNode
  | none =>
    by_cases hu : e = .update
    · subst hu
      exact links_update
    · exact (moves_step hp hl hu).links

end Moves

section Reading

variable {t : NodeTracker} {id other : EndpointId}

theorem opposite_eq {conn : NodeConnection} (h : t.Listed) (hconn : conn ∈ t.connections) :
    (if conn.oppositeId id ≠ 0 then some (conn.oppositeId id) else none) = some other ↔
      conn.ends = s(id,other) := by
  rw [← NodeConnection.oppositeId_iff (h.ids _ (List.mem_map_of_mem hconn)),
    Option.ite_none_right_eq_some, Option.some.injEq]

variable (id other) in
theorem mem_connectionsOf (h : t.Listed) :
    other ∈ t.connectionsOf id ↔ t.links.kind s(id,other) ≠ none := by
  have hlinked : t.links.kind s(id,other) = none ↔ ∀ conn ∈ t.connections,
      conn.ends ≠ s(id,other) := labelAt_eq_none
  rw [Ne, hlinked, connectionsOf, List.mem_filterMap]
  push Not
  exact exists_congr fun conn => and_congr_right fun hconn => opposite_eq h hconn

/-- A node is listed once. -/
theorem nodup_connectionsOf (h : t.Listed) : (t.connectionsOf id).Nodup := by
  have hends : t.connections.Pairwise fun conn conn' => conn.ends ≠ conn'.ends :=
    List.pairwise_map.mp h.simple
  refine List.pairwise_filterMap.mpr (hends.imp_of_mem ?_)
  rintro conn conn' hconn hconn' hne other hother _ hother' rfl
  exact hne (((opposite_eq h hconn).mp hother).trans ((opposite_eq h hconn').mp hother').symm)

theorem kindOf_eq : t.kindOf id other = (t.links.kind s(id,other)).getD .unknown := by
  change _ = ((t.connections.find? fun conn => conn.ends = s(id,other)).map _).getD _
  rw [kindOf, NodeConnection.connectsBoth_eq]
  cases t.connections.find? fun conn => conn.ends = s(id,other) <;> rfl

end Reading

end NodeTracker

/-- A client reads the connections of a node again when the node has changed
in them or in its instance, and when it has disappeared. -/
structure TopologyWatch where
  tracker : NodeTracker := {}
  picture : Sym2 EndpointId → Option ConnectionKind := fun _ => none

namespace TopologyWatch

open NodeTracker (Proper)

def read (t : NodeTracker) (id : EndpointId) (picture : Sym2 EndpointId → Option ConnectionKind) :
    Sym2 EndpointId → Option ConnectionKind :=
  fun e => if h : id ∈ e then
      let other := Sym2.Mem.other' h
      if other ∈ t.connectionsOf id then some (t.kindOf id other) else none
    else picture e

def handleChanged (t : NodeTracker) (picture : Sym2 EndpointId → Option ConnectionKind)
    (changed : List (EndpointId × TrackedNode)) : Sym2 EndpointId → Option ConnectionKind :=
  (changed.filter fun e => e.2.connectionInfo || e.2.changes.instanceId).foldl
    (fun picture e => read t e.1 picture) picture

def step (w : TopologyWatch) (e : TrackerEvent) : TopologyWatch where
  tracker := w.tracker.step e
  picture := match e with
    | .update => handleChanged w.tracker w.picture w.tracker.update.1
    | .routerDisappeared id => read w.tracker id w.picture
    | .bridgeDisappeared id => read w.tracker id w.picture
    | .endpointDisappeared id => read w.tracker id w.picture
    | _ => w.picture

structure Inv (w : TopologyWatch) : Prop where
  listed : w.tracker.Listed
  fresh : LinkView.Fresh (fun a => (w.tracker.getNode a).Marked) w.tracker.links.kind w.picture

variable {w : TopologyWatch}

theorem read_eq {t : NodeTracker} (h : t.Listed) (id : EndpointId)
    (picture : Sym2 EndpointId → Option ConnectionKind) :
    read t id picture = LinkView.reread t.links.kind id picture := by
  funext e
  unfold read LinkView.reread
  by_cases hid : id ∈ e
  · have hmem := NodeTracker.mem_connectionsOf id (Sym2.Mem.other' hid) h
    rw [Sym2.other_spec' hid] at hmem
    rw [dif_pos hid, if_pos hid]
    dsimp only
    rw [NodeTracker.kindOf_eq, Sym2.other_spec' hid]
    cases hkind : t.links.kind e with
    | some kind => exact if_pos (hmem.mpr (by simp [hkind]))
    | none => exact if_neg fun hin => hmem.mp hin hkind
  · rw [dif_neg hid, if_neg hid]

theorem handleChanged_eq (h : w.Inv) :
    handleChanged w.tracker w.picture w.tracker.update.1 = w.tracker.links.kind := by
  have hread : (fun (picture : Sym2 EndpointId → Option ConnectionKind)
      (e : EndpointId × TrackedNode) => read w.tracker e.1 picture) =
      fun picture e => LinkView.reread w.tracker.links.kind e.1 picture := by
    funext picture e
    exact read_eq h.listed e.1 picture
  rw [handleChanged, hread, ← List.foldl_map (f := Prod.fst)
    (g := fun picture id => LinkView.reread w.tracker.links.kind id picture)]
  refine LinkView.reread_all h.fresh fun a ha => ?_
  cases hfind : w.tracker.nodes.find? a with
  | none =>
    rw [NodeTracker.getNode, hfind] at ha
    rcases ha with ha | ha <;> cases ha
  | some node =>
    rw [NodeTracker.getNode, hfind, Option.getD_some] at ha
    have hchanged : node.hasChanges = true := by
      refine decide_eq_true ?_
      rcases ha with ha | ha
      · exact Or.inr (Or.inr (Or.inr ha))
      · exact Or.inl fun hnone => by rw [hnone] at ha; cases ha
    refine List.mem_map.mpr ⟨(a,node),List.mem_filter.mpr ⟨List.mem_filter.mpr
      ⟨OrderedMap.find?_eq_some.mp hfind,hchanged⟩,?_⟩,rfl⟩
    exact (Bool.or_eq_true _ _).mpr ha

theorem inv_start : Inv {} :=
  ⟨⟨simple_nil,by simp⟩,LinkView.fresh_refl⟩

theorem inv_step (h : w.Inv) {e : TrackerEvent} (hp : Proper e) : (w.step e).Inv := by
  cases hl : e.leaver with
  | some id =>
    have hpicture : (w.step e).picture = read w.tracker id w.picture := by
      cases e <;> cases hl <;> rfl
    have hstep := (NodeTracker.step_leaver (t := w.tracker) hl).1
    refine ⟨?_,?_⟩
    · change (w.tracker.step e).Listed
      rw [hstep]
      exact NodeTracker.listed_removeNode h.listed
    · change LinkView.Fresh (fun a => ((w.tracker.step e).getNode a).Marked)
        (w.tracker.step e).links.kind (w.step e).picture
      rw [hpicture, hstep, read_eq h.listed]
      refine LinkView.fresh_reread h.fresh fun b hb => ?_
      rw [NodeTracker.getNode_removeNode]
      by_cases hbid : b = id
      · exact Or.inl hbid
      · exact Or.inr (by rwa [if_neg hbid])
  | none =>
    by_cases hu : e = .update
    · subst hu
      have hlisted : w.tracker.update.2.Listed := ⟨h.listed.simple,h.listed.ids⟩
      refine ⟨hlisted,?_⟩
      change LinkView.Fresh _ w.tracker.update.2.links.kind (handleChanged _ _ _)
      rw [handleChanged_eq h, NodeTracker.links_update]
      exact LinkView.fresh_refl
    · have hpicture : (w.step e).picture = w.picture := by
        cases e <;> first | rfl | exact absurd rfl hu | cases hl
      have hmoves := NodeTracker.moves_step (t := w.tracker) hp hl hu
      refine ⟨hmoves.listed h.listed,?_⟩
      rw [hpicture]
      refine LinkView.fresh_change h.fresh hmoves.marks fun e' he' => ?_
      exact hmoves.changed e' (by rwa [← hmoves.links])

theorem run_spec {l : TopologyLinks} (h : w.Inv) (hl : w.tracker.links = l)
    (es : List TrackerEvent) (hes : ∀ e ∈ es, Proper e) :
    (StepRun.run step w es).Inv ∧
      (StepRun.run step w es).tracker.links = StepRun.run TopologyLinks.step l es := by
  induction es generalizing w l with
  | nil => exact ⟨h,hl⟩
  | cons e es ih =>
    have hp := hes e List.mem_cons_self
    exact ih (inv_step h hp) (hl ▸ NodeTracker.links_step hp)
      fun e' he' => hes e' (List.mem_cons_of_mem e he')

/-- The picture after an update is that of the links. -/
theorem picture_run (es : List TrackerEvent) (hes : ∀ e ∈ es, Proper e) :
    ((StepRun.run step {} es).step .update).picture =
      (StepRun.run TopologyLinks.step .start es).kind := by
  obtain ⟨hinv,hlinks⟩ := run_spec inv_start rfl es hes
  exact (handleChanged_eq hinv).trans (congrArg TopologyLinks.kind hlinks)

/-- In every run each node is listed once for each other one that it has a
link with, as the events have told, and the kinds are those that were told
last; after an update the picture of the client shows just that. No id or
instance that is told is zero (`Proper`). -/
theorem topology_watched (es : List TrackerEvent) (hes : ∀ e ∈ es, Proper e) :
    let w := StepRun.run step {} es
    let l := StepRun.run TopologyLinks.step .start es
    (∀ id, (w.tracker.connectionsOf id).Nodup) ∧
      (∀ id other, other ∈ w.tracker.connectionsOf id ↔ l.kind s(id,other) ≠ none) ∧
      (∀ id other, w.tracker.kindOf id other = (l.kind s(id,other)).getD .unknown) ∧
      (w.step .update).picture = l.kind := by
  intro w l
  obtain ⟨hinv,hlinks⟩ := run_spec inv_start rfl es hes
  refine ⟨fun id => NodeTracker.nodup_connectionsOf hinv.listed,fun id other => ?_,
    fun id other => ?_,?_⟩
  · rw [NodeTracker.mem_connectionsOf id other hinv.listed, hlinks]
    rfl
  · rw [NodeTracker.kindOf_eq, hlinks]
    rfl
  · exact picture_run es hes

/-- A router tells of two connections; the second node is then restarted. -/
def sampleEvents : List TrackerEvent := [
  .routerAppeared ⟨50,7,1,.inProcess⟩,.routerAppeared ⟨50,9,1,.localInterprocess⟩,
  .alive 9 1,.update,.alive 9 2]

theorem restart_watched :
    let picture := ((StepRun.run step {} sampleEvents).step .update).picture
    picture s(50,7) = some .inProcess ∧ picture s(50,9) = none := by
  intro picture
  have hproper : ∀ e ∈ sampleEvents, Proper e := by simp [sampleEvents, Proper]
  have hpicture : picture = (StepRun.run TopologyLinks.step .start sampleEvents).kind :=
    (topology_watched sampleEvents hproper).2.2.2
  rw [hpicture]
  decide

end TopologyWatch

end MsgBus
