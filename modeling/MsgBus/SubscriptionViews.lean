import Mathlib.Logic.Function.Basic
import MsgBus.RouterRun

/-!
# What routers and trackers know of subscriptions

A router keeps two lists for each endpoint and drops both when the endpoint
shows another instance id. A remote node tracker keeps an answer for each
message of each node. Both are compared with what the messages have told. The
hosts, instances and connections of a tracker are left out.
-/

set_option autoImplicit false

namespace MsgBus

inductive NodeKind where
  | unknown | endpoint | router | bridge
  deriving DecidableEq, Repr

/-- Those of the node changes that messages about subscriptions bring. -/
structure RemoteNodeChanges where
  kind : Bool := false
  instanceId : Bool := false
  methodsAdded : Bool := false
  methodsRemoved : Bool := false
  startedResponding : Bool := false
  deriving DecidableEq, Repr

/-- An answer that is not known to be true or false is `none`. -/
structure RemoteNode where
  instanceId : ℕ := 0
  kind : NodeKind := .unknown
  pingBits : UInt8 := 0
  subscriptions : MessageId → Option (Option Bool) := fun _ => none
  changes : RemoteNodeChanges := {}

namespace RemoteNode

def getSub (node : RemoteNode) (msgId : MessageId) : Option Bool :=
  (node.subscriptions msgId).getD none

/-- The `get_sub` that gives a reference makes an entry if there is none. -/
def getSubRef (node : RemoteNode) (msgId : MessageId) : RemoteNode :=
  if (node.subscriptions msgId).isNone then
    { node with subscriptions := Function.update node.subscriptions msgId (some none) }
  else node

def setSub (node : RemoteNode) (msgId : MessageId) (answer : Bool) : RemoteNode :=
  { node with subscriptions := Function.update node.subscriptions msgId (some (some answer)) }

def addSubscription (node : RemoteNode) (msgId : MessageId) : RemoteNode :=
  let node := node.getSubRef msgId
  if node.getSub msgId ≠ some true then
    { node.setSub msgId true with changes := { node.changes with methodsAdded := true } }
  else node

def removeSubscription (node : RemoteNode) (msgId : MessageId) : RemoteNode :=
  let node := node.getSubRef msgId
  if node.getSub msgId ≠ some false then
    { node.setSub msgId false with changes := { node.changes with methodsRemoved := true } }
  else node

def assign (node : RemoteNode) (kind : NodeKind) : RemoteNode :=
  if node.kind ≠ kind then { node with kind, changes := { node.changes with kind := true } }
  else node

def setInstanceId (node : RemoteNode) (instanceId : ℕ) : RemoteNode :=
  if node.instanceId ≠ instanceId then
    { node with instanceId, changes := { node.changes with instanceId := true } }
  else node

def noticeAlive (node : RemoteNode) : RemoteNode :=
  let pingBits := (node.pingBits <<< 1) ||| 1
  { node with
    pingBits
    changes := if decide (node.pingBits ≠ 0) ≠ decide (pingBits ≠ 0) then
        { node.changes with startedResponding := true }
      else node.changes }

def noticeInstance (node : RemoteNode) (instanceId : ℕ) : RemoteNode :=
  let node := if node.instanceId ≠ 0 then
      if node.instanceId ≠ instanceId then ({} : RemoteNode).setInstanceId instanceId else node
    else node.setInstanceId instanceId
  node.noticeAlive

end RemoteNode

structure RemoteNodeTracker where
  nodes : OrderedMap EndpointId RemoteNode := .empty

namespace RemoteNodeTracker

def getNode (t : RemoteNodeTracker) (nodeId : EndpointId) : RemoteNode :=
  (t.nodes.find? nodeId).getD {}

/-- A change of the node, which is made if there is none. -/
def modifyNode (t : RemoteNodeTracker) (nodeId : EndpointId) (f : RemoteNode → RemoteNode) :
    RemoteNodeTracker :=
  ⟨t.nodes.assign nodeId (f (t.getNode nodeId))⟩

def noticeInstance (t : RemoteNodeTracker) (nodeId : EndpointId) (instanceId : ℕ) :
    RemoteNodeTracker :=
  t.modifyNode nodeId (fun node => node.noticeInstance instanceId)

def removeNode (t : RemoteNodeTracker) (nodeId : EndpointId) : RemoteNodeTracker :=
  ⟨t.nodes.erase nodeId⟩

/-- Nothing is known of a node that is not there. -/
def subscribesTo (t : RemoteNodeTracker) (nodeId : EndpointId) (msgId : MessageId) :
    Option Bool :=
  match t.nodes.find? nodeId with
  | some node => node.getSub msgId
  | none => none

end RemoteNodeTracker

/-- What a message tells of its source. -/
inductive News where
  | alive
  | subscription (msgId : MessageId) (subscribed : Bool)
  | bye
  deriving DecidableEq

def News.about (msgId : MessageId) : News → Option Bool
  | .subscription subMsgId subscribed => if subMsgId = msgId then some subscribed else none
  | _ => none

structure Notice where
  source : EndpointId
  instanceId : ℕ
  news : News

/-- All that was told, the last notice first. -/
abbrev Notices := List Notice

namespace Notices

def own (h : Notices) (id : EndpointId) : Notices := h.filter (fun n => n.source = id)

/-- What the endpoint has told with this instance id, back to where it had
another one or has said bye. -/
def since (instanceId : ℕ) (own : Notices) : Notices :=
  own.takeWhile (fun n => n.news ≠ .bye ∧ n.instanceId = instanceId)

/-- What the endpoint has told since the last change of its instance id. -/
def current (h : Notices) (id : EndpointId) : Notices :=
  match h.own id with
  | [] => []
  | n::rest => since n.instanceId (n::rest)

/-- The last of what it has told of the message. -/
def standing (h : Notices) (id : EndpointId) (msgId : MessageId) : Option Bool :=
  (h.current id).findSome? (fun n => n.news.about msgId)

/-- The instance id it has now, none after a bye. -/
def lastInstance (h : Notices) (id : EndpointId) : Option ℕ :=
  (h.current id).head?.map (fun n => n.instanceId)

section Rules

variable {h : Notices} {n : Notice} {id : EndpointId} {msgId : MessageId}

theorem current_other (hid : n.source ≠ id) : current (n::h) id = h.current id := by
  simp [current, own, hid]

theorem standing_other (hid : n.source ≠ id) : standing (n::h) id msgId = h.standing id msgId := by
  rw [standing, current_other hid, standing]

theorem lastInstance_other (hid : n.source ≠ id) :
    lastInstance (n::h) id = h.lastInstance id := by
  rw [lastInstance, current_other hid, lastInstance]

theorem current_bye (hid : n.source = id) (hb : n.news = .bye) : current (n::h) id = [] := by
  simp [current, own, since, hid, hb]

/-- A notice joins those before it if they are under the same instance id. -/
theorem current_told (hid : n.source = id) (hb : n.news ≠ .bye) :
    current (n::h) id =
      n::(if h.lastInstance id = some n.instanceId then h.current id else []) := by
  have hown : own (n::h) id = n::h.own id := by simp [own, hid]
  have hsince : current (n::h) id = n::since n.instanceId (h.own id) := by
    rw [current, hown]
    simp [since, hb]
  rw [hsince, lastInstance, current]
  cases ho : h.own id with
  | nil => simp [since]
  | cons m rest =>
    dsimp only
    by_cases hm : m.news = .bye
    · simp [since, hm]
    · by_cases hi : m.instanceId = n.instanceId
      · simp [since, hm, hi]
      · simp [since, hm, hi]

theorem standing_told (hid : n.source = id) (hb : n.news ≠ .bye) :
    standing (n::h) id msgId = (n.news.about msgId).or
      (if h.lastInstance id = some n.instanceId then h.standing id msgId else none) := by
  rw [standing, current_told hid hb, List.findSome?_cons]
  cases n.news.about msgId with
  | some b => rfl
  | none => split_ifs <;> rfl

theorem lastInstance_told (hid : n.source = id) (hb : n.news ≠ .bye) :
    lastInstance (n::h) id = some n.instanceId := by
  rw [lastInstance, current_told hid hb]
  rfl

theorem standing_bye (hid : n.source = id) (hb : n.news = .bye) :
    standing (n::h) id msgId = none := by
  rw [standing, current_bye hid hb]
  rfl

theorem lastInstance_bye (hid : n.source = id) (hb : n.news = .bye) :
    lastInstance (n::h) id = none := by
  rw [lastInstance, current_bye hid hb]
  rfl

theorem standing_none (hi : h.lastInstance id = none) : h.standing id msgId = none := by
  have hc : h.current id = [] := by simpa [lastInstance] using hi
  rw [standing, hc]
  rfl

end Rules

end Notices

namespace RemoteNode

section Rules

variable {node : RemoteNode} {msgId msgId' : MessageId} {instanceId : ℕ}

@[simp] theorem getSub_getSubRef : (node.getSubRef msgId).getSub msgId' = node.getSub msgId' := by
  unfold getSubRef
  split_ifs with h
  · by_cases hm : msgId' = msgId
    · subst hm
      simp [getSub, Option.isNone_iff_eq_none.mp h]
    · simp [getSub, hm]
  · rfl

@[simp] theorem instanceId_getSubRef : (node.getSubRef msgId).instanceId = node.instanceId := by
  unfold getSubRef
  split_ifs <;> rfl

theorem getSub_setSub {answer : Bool} : (node.setSub msgId answer).getSub msgId' =
    if msgId = msgId' then some answer else node.getSub msgId' := by
  by_cases hm : msgId = msgId'
  · subst hm
    simp [setSub, getSub]
  · simp [setSub, getSub, hm, Ne.symm hm]

variable (node msgId msgId') in
theorem addSubscription_spec : (node.addSubscription msgId).instanceId = node.instanceId ∧
    (node.addSubscription msgId).getSub msgId' =
      if msgId = msgId' then some true else node.getSub msgId' := by
  unfold addSubscription
  by_cases h : (node.getSubRef msgId).getSub msgId = some true
  · simp only [h, ne_eq, not_true_eq_false, if_false]
    refine ⟨instanceId_getSubRef,?_⟩
    split_ifs with hm
    · subst hm
      exact h
    · exact getSub_getSubRef
  · simp only [ne_eq, h, not_false_eq_true, if_true]
    refine ⟨instanceId_getSubRef,getSub_setSub.trans ?_⟩
    rw [getSub_getSubRef]

variable (node msgId msgId') in
theorem removeSubscription_spec : (node.removeSubscription msgId).instanceId = node.instanceId ∧
    (node.removeSubscription msgId).getSub msgId' =
      if msgId = msgId' then some false else node.getSub msgId' := by
  unfold removeSubscription
  by_cases h : (node.getSubRef msgId).getSub msgId = some false
  · simp only [h, ne_eq, not_true_eq_false, if_false]
    refine ⟨instanceId_getSubRef,?_⟩
    split_ifs with hm
    · subst hm
      exact h
    · exact getSub_getSubRef
  · simp only [ne_eq, h, not_false_eq_true, if_true]
    refine ⟨instanceId_getSubRef,getSub_setSub.trans ?_⟩
    rw [getSub_getSubRef]

theorem assign_spec {kind : NodeKind} : (node.assign kind).instanceId = node.instanceId ∧
    (node.assign kind).getSub msgId = node.getSub msgId := by
  unfold assign
  split_ifs <;> exact ⟨rfl,rfl⟩

variable (instanceId msgId) in
/-- Another instance id than before drops the answers. -/
theorem noticeInstance_spec (hi : node.instanceId = 0 → ∀ msgId, node.getSub msgId = none) :
    (node.noticeInstance instanceId).instanceId = instanceId ∧
    (node.noticeInstance instanceId).getSub msgId =
      if node.instanceId = instanceId then node.getSub msgId else none := by
  unfold noticeInstance setInstanceId
  dsimp only
  split_ifs with h0 h1 h2 h3 h4
  all_goals simp_all [noticeAlive, getSub]

end Rules

end RemoteNode

namespace RouterEndpointInfo

/-- The lists hold each message id once, and none in both. -/
structure Separate (info : RouterEndpointInfo) : Prop where
  subscriptions : info.subscriptions.Nodup
  unsubscriptions : info.unsubscriptions.Nodup
  disjoint : info.subscriptions.Disjoint info.unsubscriptions

theorem mem_listAdd (l : List MessageId) (m m' : MessageId) :
    m' ∈ messageIdListAdd l m ↔ m' = m ∨ m' ∈ l := by
  unfold messageIdListAdd messageIdListContains
  split_ifs with h
  · constructor
    · exact Or.inr
    · rintro (rfl | hm)
      · simpa using h
      · exact hm
  · simp [or_comm]

theorem nodup_listAdd {l : List MessageId} {m : MessageId} (h : l.Nodup) :
    (messageIdListAdd l m).Nodup := by
  unfold messageIdListAdd messageIdListContains
  split_ifs with hm
  · exact h
  · exact List.nodup_append.mpr ⟨h,List.pairwise_singleton _ m,fun a ha b hb hab =>
      hm (by simpa [← List.mem_singleton.mp hb, ← hab] using ha)⟩

theorem mem_listRemove {l : List MessageId} (m m' : MessageId) (h : l.Nodup) :
    m' ∈ messageIdListRemove l m ↔ m' ≠ m ∧ m' ∈ l := h.mem_erase_iff

variable {info : RouterEndpointInfo}

theorem Separate.add {m : MessageId} (h : info.Separate) : (info.addSubscription m).Separate := by
  refine ⟨nodup_listAdd h.subscriptions,h.unsubscriptions.erase m,fun m' hs hu => ?_⟩
  obtain ⟨hne,hu⟩ := (mem_listRemove _ _ h.unsubscriptions).mp hu
  rcases (mem_listAdd ..).mp hs with rfl | hs
  · exact hne rfl
  · exact h.disjoint hs hu

theorem Separate.remove {m : MessageId} (h : info.Separate) :
    (info.removeSubscription m).Separate := by
  refine ⟨h.subscriptions.erase m,nodup_listAdd h.unsubscriptions,fun m' hs hu => ?_⟩
  obtain ⟨hne,hs⟩ := (mem_listRemove _ _ h.subscriptions).mp hs
  rcases (mem_listAdd ..).mp hu with rfl | hu
  · exact hne rfl
  · exact h.disjoint hs hu

/-- Another instance id than before drops both lists. -/
theorem assignInstanceId_spec (info : RouterEndpointInfo) (now : ℕ) (message : MessageView) :
    (info.assignInstanceId now message).instanceId = message.sequenceNo ∧
    (info.assignInstanceId now message).subscriptions =
      (if info.instanceId = message.sequenceNo then info.subscriptions else []) ∧
    (info.assignInstanceId now message).unsubscriptions =
      (if info.instanceId = message.sequenceNo then info.unsubscriptions else []) := by
  unfold assignInstanceId
  by_cases h : info.instanceId = message.sequenceNo
  · simp [h]
  · simp [h]

end RouterEndpointInfo

/-- A router and a tracker that are told the same, and what they were told. -/
structure SubscriptionViews where
  router : Router
  tracker : RemoteNodeTracker := {}
  history : Notices := []

namespace SubscriptionViews

open Router RouterRun

/-- A message about a type that cannot be read tells nothing. -/
def newsOf (env : RouterEnv) (msgId : MessageId) (message : MessageView) : Option News :=
  if isSpecialMessage msgId then
    match msgId.method with
    | .stillAlive => some .alive
    | .subscribTo => (env.readMessageType (content env message)).map
        (fun subMsgId => .subscription subMsgId true)
    | .unsubFrom => (env.readMessageType (content env message)).map
        (fun subMsgId => .subscription subMsgId false)
    | .notSubTo => (env.readMessageType (content env message)).map
        (fun subMsgId => .subscription subMsgId false)
    | .byeByeEndp => some .bye
    | .byeByeRutr => some .bye
    | .byeByeBrdg => some .bye
    | _ => none
  else none

def noticeOf (env : RouterEnv) (msgId : MessageId) (message : MessageView) : Option Notice :=
  (newsOf env msgId message).map (fun news => ⟨message.sourceId,message.sequenceNo,news⟩)

/-- The messages of connections that are there are the ones that tell something. -/
def received (env : RouterEnv) (r : Router) : Event → Option Notice
  | .fromNode _ id msgId _ message =>
    if (r.nodes.find id).any (fun node => node.connection.isSome) then noticeOf env msgId message
    else none
  | .fromParent _ msgId _ message =>
    if r.parentRouter.connection.isSome then noticeOf env msgId message else none
  | _ => none

/-- The handlers of `node_tracker` for these messages. -/
def track (t : RemoteNodeTracker) (n : Notice) : RemoteNodeTracker :=
  match n.news with
  | .alive => (t.noticeInstance n.source n.instanceId).modifyNode n.source
      (fun node => node.assign .endpoint)
  | .subscription msgId true => (t.noticeInstance n.source n.instanceId).modifyNode n.source
      (fun node => node.addSubscription msgId)
  | .subscription msgId false => (t.noticeInstance n.source n.instanceId).modifyNode n.source
      (fun node => node.removeSubscription msgId)
  | .bye => t.removeNode n.source

def step (env : RouterEnv) (s : SubscriptionViews) (e : Event) : SubscriptionViews :=
  match received env s.router e with
  | some n => ⟨RouterRun.step env s.router e,track s.tracker n,n::s.history⟩
  | none => { s with router := RouterRun.step env s.router e }

def start (setup : Setup) : SubscriptionViews where
  router := RouterRun.start setup

/-- A message about subscriptions, under an instance id other than zero unless
it is a bye. -/
def Telling (msgId : MessageId) (message : MessageView) : Prop :=
  isSpecialMessage msgId = true ∧
    (msgId.method ∈ [.byeByeEndp,.byeByeRutr,.byeByeBrdg] ∨
      msgId.method ∈ [.stillAlive,.subscribTo,.unsubFrom,.notSubTo] ∧ message.sequenceNo ≠ 0)

/-- A message of the users, or one by which the parent confirms the id. -/
def Silent (msgId : MessageId) : Prop :=
  isSpecialMessage msgId = false ∨ msgId.method = .confirmId

/-- No other messages come, and no endpoint becomes outdated. -/
def Admitted (s : SubscriptionViews) : Event → Prop
  | .fromNode _ _ msgId _ message => Telling msgId message ∨ Silent msgId
  | .fromParent _ msgId _ message => Telling msgId message ∨ Silent msgId
  | .removeTimeouted clk => ∀ id info,
      s.router.nodes.endpointInfos.find? id = some info → info.outdated.isExpired clk.now = false
  | _ => True

/-- The answer of a router: subscribed, not subscribed or unknown. -/
def answerOf (n : RouterNodes) (id : EndpointId) (msgId : MessageId) : Option Bool :=
  let (isSub,isNotSub,_) := n.subscribesTo id msgId
  if isSub = some true then some true else if isNotSub = some true then some false else none

structure Agree (s : SubscriptionViews) : Prop where
  answers : ∀ id msgId, answerOf s.router.nodes id msgId = s.history.standing id msgId
  lists : ∀ id info, s.router.nodes.endpointInfos.find? id = some info → info.Separate
  keys : ∀ id, s.router.nodes.endpointIdx.contains id = s.router.nodes.endpointInfos.contains id
  tracked : ∀ id msgId, s.tracker.subscribesTo id msgId = answerOf s.router.nodes id msgId

/-- A bye that comes from the parent is of an endpoint about which the router
has no answers. -/
def ByeOfUnknown (s : SubscriptionViews) : Event → Prop
  | .fromParent _ msgId _ message => s.router.parentRouter.connection.isSome = true →
      isSpecialMessage msgId = true → msgId.method ∈ [.byeByeEndp,.byeByeRutr,.byeByeBrdg] →
      ∀ subMsgId, answerOf s.router.nodes message.sourceId subMsgId = none
  | _ => True

section Infos

variable {env : RouterEnv} {clk : Clock} {r r' : Router} {id incomingId : EndpointId}
  {message : MessageView} {n : Notice}

/-- The infos of endpoints and their keys are as before. -/
structure SameInfos (r r' : Router) : Prop where
  infos : ∀ id, r'.nodes.endpointInfos.find? id = r.nodes.endpointInfos.find? id
  keys : ∀ id, r'.nodes.endpointIdx.contains id = r.nodes.endpointIdx.contains id

theorem SameInfos.refl (r : Router) : SameInfos r r := ⟨fun _ => rfl,fun _ => rfl⟩

theorem SameInfos.trans {r'' : Router} (h : SameInfos r r') (h' : SameInfos r' r'') :
    SameInfos r r'' :=
  ⟨fun id => (h'.infos id).trans (h.infos id),fun id => (h'.keys id).trans (h.keys id)⟩

/-- The info of an endpoint after a notice of it. -/
def heard (clk : Clock) (info : Option RouterEndpointInfo) (message : MessageView)
    (news : News) : RouterEndpointInfo :=
  let info := (info.getD { outdated := ⟨clk.now,clk.adjustedDuration 60000⟩ }).assignInstanceId
    clk.now message
  match news with
  | .subscription msgId true => info.addSubscription msgId
  | .subscription msgId false => info.removeSubscription msgId
  | _ => info

/-- The router has taken in the notice. -/
structure Heard (r : Router) (clk : Clock) (message : MessageView) (news : News) (r' : Router) :
    Prop where
  infos : ∀ id, r'.nodes.endpointInfos.find? id = if message.sourceId = id
    then some (heard clk (r.nodes.endpointInfos.find? id) message news)
    else r.nodes.endpointInfos.find? id
  keys : ∀ id, r'.nodes.endpointIdx.contains id =
    (decide (message.sourceId = id) || r.nodes.endpointIdx.contains id)

/-- The router has dropped the endpoint. -/
structure Dropped (r : Router) (source : EndpointId) (r' : Router) : Prop where
  infos : ∀ id, r'.nodes.endpointInfos.find? id =
    if id = source then none else r.nodes.endpointInfos.find? id
  keys : ∀ id, r'.nodes.endpointIdx.contains id =
    (!decide (id = source) && r.nodes.endpointIdx.contains id)

/-- What the router does when it handles a message with these news. -/
def Takes (r : Router) (clk : Clock) (message : MessageView) (r' : Router) : Option News → Prop
  | none => SameInfos r r'
  | some .bye => Dropped r message.sourceId r'
  | some news => Heard r clk message news r'

theorem Takes.trans {r'' : Router} {news : Option News} (h : Takes r clk message r' news)
    (h' : SameInfos r' r'') : Takes r clk message r'' news := by
  rcases news with _ | _ | ⟨subMsgId,subscribed⟩ | _
  · exact SameInfos.trans h h'
  · exact ⟨fun id => (h'.infos id).trans (Heard.infos h id),
      fun id => (h'.keys id).trans (Heard.keys h id)⟩
  · exact ⟨fun id => (h'.infos id).trans (Heard.infos h id),
      fun id => (h'.keys id).trans (Heard.keys h id)⟩
  · exact ⟨fun id => (h'.infos id).trans (Dropped.infos h id),
      fun id => (h'.keys id).trans (Dropped.keys h id)⟩

theorem contains_assign {m : OrderedMap EndpointId EndpointId} {k k' v : EndpointId} :
    (m.assign k v).contains k' = (decide (k = k') || m.contains k') := by
  rw [OrderedMap.contains, OrderedMap.find?_assign]
  by_cases hk : k = k'
  · simp [hk]
  · simp [hk, OrderedMap.contains]

variable (r clk incomingId message) in
theorem updateEndpointInfo_takes :
    Takes r clk message (r.updateEndpointInfo clk incomingId message) (some .alive) := by
  refine ⟨fun id => ?_,fun id => contains_assign⟩
  simp only [updateEndpointInfo, RouterNodes.updateEndpointInfo, OrderedMap.find?_assign]
  split_ifs with hid
  · rw [hid]
    rfl
  · rfl

/-- The lists of the source are changed after its info is updated. -/
theorem modifyInfo_heard {f : RouterEndpointInfo → RouterEndpointInfo} {news : News}
    (hf : ∀ info, heard clk info message news = f (heard clk info message .alive)) :
    Heard r clk message news
      ((r.updateEndpointInfo clk incomingId message).modifyInfo message.sourceId f) := by
  obtain ⟨hinfos,hkeys⟩ := updateEndpointInfo_takes clk r incomingId message
  refine ⟨fun id => ?_,hkeys⟩
  simp only [modifyInfo, RouterNodes.modifyInfo, OrderedMap.find?_mapValues, hinfos id]
  by_cases hid : message.sourceId = id
  · rw [if_pos hid, if_pos hid, hf, Option.map_some, if_pos hid.symm]
  · rw [if_neg hid, if_neg hid]
    cases r.nodes.endpointInfos.find? id with
    | none => rfl
    | some info => rw [Option.map_some, if_neg (Ne.symm hid)]

theorem handleSubscribed_takes :
    Takes r clk message (r.handleSubscribed env clk incomingId message).2
      ((env.readMessageType (content env message)).map
        (fun subMsgId => .subscription subMsgId true)) := by
  unfold handleSubscribed
  cases env.readMessageType (content env message) with
  | none => exact .refl r
  | some subMsgId => exact modifyInfo_heard (fun info => rfl)

theorem handleNotSubscribed_takes :
    Takes r clk message (r.handleNotSubscribed env clk incomingId message).2
      ((env.readMessageType (content env message)).map
        (fun subMsgId => .subscription subMsgId false)) := by
  unfold handleNotSubscribed
  cases env.readMessageType (content env message) with
  | none => exact .refl r
  | some subMsgId => exact modifyInfo_heard (fun info => rfl)

theorem handleByeBye_takes :
    Takes r clk message (r.handleByeBye incomingId message).2 (some .bye) := by
  refine ⟨fun id => OrderedMap.find?_erase _ _ _,fun id => ?_⟩
  simp only [handleByeBye, RouterNodes.erase, OrderedMap.contains, OrderedMap.find?_erase]
  by_cases hid : id = message.sourceId
  · simp [hid]
  · simp [hid, modifyNode, RouterNodes.modifyNode]

theorem handleSpecial_takes {msgId : MessageId} (ht : Telling msgId message) :
    Takes r clk message (r.handleSpecial env clk incomingId message msgId).2
      (newsOf env msgId message) := by
  obtain ⟨hs,hm⟩ := ht
  rw [handleSpecial, if_pos hs, handleSpecialFromNode, newsOf, if_pos hs]
  simp only [List.mem_cons, List.not_mem_nil, or_false] at hm
  rcases hm with (hm | hm | hm) | ⟨hm | hm | hm | hm,-⟩ <;> simp only [hm]
  · exact handleByeBye_takes
  · exact handleByeBye_takes
  · exact handleByeBye_takes
  · exact updateEndpointInfo_takes ..
  · simpa only [handleSpecialCommon, hm] using handleSubscribed_takes
  · simpa only [handleSpecialCommon, hm] using handleNotSubscribed_takes
  · simpa only [handleSpecialCommon, hm] using handleNotSubscribed_takes

theorem route_same {msgId : MessageId} :
    SameInfos r (r.route env clk msgId incomingId message) := ⟨fun _ => rfl,fun _ => rfl⟩

/-- The age of a message makes no difference. -/
theorem Takes.of_aged {age : MessageAge} {news : Option News}
    (h : Takes r clk (aged message age) r' news) : Takes r clk message r' news := by
  rcases news with _ | _ | ⟨subMsgId,subscribed⟩ | _
  · exact h
  · have h' : Heard r clk (aged message age) .alive r' := h
    exact ⟨h'.infos,h'.keys⟩
  · have h' : Heard r clk (aged message age) (.subscription subMsgId subscribed) r' := h
    exact ⟨h'.infos,h'.keys⟩
  · exact ⟨Dropped.infos h,Dropped.keys h⟩

theorem handleNodeMessage_takes {msgId : MessageId} {age : MessageAge}
    (ht : Telling msgId message) :
    Takes r clk message (r.handleNodeMessage env clk incomingId msgId age message)
      (newsOf env msgId message) := by
  have h : Takes r clk message (r.handleSpecial env clk incomingId (aged message age) msgId).2
      (newsOf env msgId message) := by
    have ht' : Telling msgId (aged message age) := ht
    exact (handleSpecial_takes ht').of_aged
  rw [handleNodeMessage]
  split_ifs
  · exact h
  · exact h
  · exact h.trans route_same

theorem handleSpecialFromParent_takes {msgId : MessageId} (hs : isSpecialMessage msgId = true)
    (hm : msgId.method ∈ [.stillAlive,.subscribTo,.unsubFrom,.notSubTo]) :
    Takes r clk message (r.handleSpecialFromParent env clk incomingId message msgId).2
      (newsOf env msgId message) := by
  simp only [List.mem_cons, List.not_mem_nil, or_false] at hm
  rw [handleSpecialFromParent, newsOf, if_pos hs]
  rcases hm with hm | hm | hm | hm
  · simpa [hm] using updateEndpointInfo_takes ..
  · simpa [handleSpecialCommon, hm] using handleSubscribed_takes
  · simpa [handleSpecialCommon, hm] using handleNotSubscribed_takes
  · simpa [handleSpecialCommon, hm] using handleNotSubscribed_takes

theorem newsOf_silent {msgId : MessageId} (h : Silent msgId) :
    newsOf env msgId message = none := by
  rw [newsOf]
  rcases h with h | h
  · simp [h]
  · simp [h]

theorem handleNodeMessage_silent {msgId : MessageId} {age : MessageAge} (h : Silent msgId) :
    SameInfos r (r.handleNodeMessage env clk incomingId msgId age message) := by
  have hspecial : r.handleSpecial env clk incomingId (aged message age) msgId = (false,r) := by
    rw [handleSpecial]
    rcases h with h | h
    · simp [h]
    · simp [handleSpecialFromNode, handleSpecialCommon, h]
  rw [handleNodeMessage]
  simp only [hspecial]
  split_ifs <;> exact ⟨fun _ => rfl,fun _ => rfl⟩

theorem handleParentMessage_silent {msgId : MessageId} {age : MessageAge} (h : Silent msgId) :
    SameInfos r (r.handleParentMessage env clk incomingId msgId age message) := by
  rw [handleParentMessage]
  rcases h with h | h
  · simp only [h, Bool.false_eq_true, if_false]
    split_ifs <;> exact ⟨fun _ => rfl,fun _ => rfl⟩
  · simp only [handleSpecialParentMessage, h]
    split_ifs <;> exact ⟨fun _ => rfl,fun _ => rfl⟩

theorem newsOf_bye {msgId : MessageId} (hs : isSpecialMessage msgId = true)
    (hm : msgId.method ∈ [.byeByeEndp,.byeByeRutr,.byeByeBrdg]) :
    newsOf env msgId message = some .bye := by
  simp only [List.mem_cons, List.not_mem_nil, or_false] at hm
  rw [newsOf, if_pos hs]
  rcases hm with hm | hm | hm <;> simp only [hm]

/-- Byes from the parent change nothing. -/
theorem handleParentMessage_bye {msgId : MessageId} {age : MessageAge}
    (hs : isSpecialMessage msgId = true)
    (hm : msgId.method ∈ [.byeByeEndp,.byeByeRutr,.byeByeBrdg]) :
    r.handleParentMessage env clk incomingId msgId age message = r := by
  simp only [List.mem_cons, List.not_mem_nil, or_false] at hm
  rcases hm with hm | hm | hm <;>
    simp [handleParentMessage, hs, handleSpecialParentMessage, hm]

theorem handleParentMessage_takes {msgId : MessageId} {age : MessageAge}
    (hs : isSpecialMessage msgId = true)
    (hm : msgId.method ∈ [.stillAlive,.subscribTo,.unsubFrom,.notSubTo]) :
    Takes r clk message (r.handleParentMessage env clk incomingId msgId age message)
      (newsOf env msgId message) := by
  have h : Takes r clk message
      (r.handleSpecialFromParent env clk r.parentRouter.confirmedId (aged message age) msgId).2
      (newsOf env msgId message) :=
    (handleSpecialFromParent_takes hs hm).of_aged
  have hparent : r.handleParentMessage env clk incomingId msgId age message =
      let handled := r.handleSpecialFromParent env clk r.parentRouter.confirmedId
        (aged message age) msgId
      if handled.1 then handled.2 else handled.2.route env clk msgId r.getId
        (aged message age) := by
    simp only [List.mem_cons, List.not_mem_nil, or_false] at hm
    rw [handleParentMessage]
    simp only [if_pos hs, handleSpecialParentMessage]
    rcases hm with hm | hm | hm | hm <;> simp only [hm]
  rw [hparent]
  dsimp only
  split_ifs
  · exact h
  · exact h.trans route_same

end Infos

section Agreement

variable {clk : Clock} {h : Notices} {n : Notice} {id : EndpointId} {message : MessageView}

/-- The lists of the info are what stands of the history. After a bye that the
router has not taken in, the instance id may be an old one. -/
structure InfoAgrees (info : RouterEndpointInfo) (h : Notices) (id : EndpointId) : Prop where
  told : info.instanceId ≠ 0
  separate : info.Separate
  last : ∀ instanceId, h.lastInstance id = some instanceId → info.instanceId = instanceId
  subscribed : ∀ msgId, msgId ∈ info.subscriptions ↔ h.standing id msgId = some true
  unsubscribed : ∀ msgId, msgId ∈ info.unsubscriptions ↔ h.standing id msgId = some false

/-- What stands of the history if the next notice is under this instance id. -/
def kept (h : Notices) (id : EndpointId) (instanceId : ℕ) (msgId : MessageId) : Option Bool :=
  if h.lastInstance id = some instanceId then h.standing id msgId else none

/-- Empty lists are what is kept where nothing is. -/
theorem emptied_agrees {i : RouterEndpointInfo} {instanceId : ℕ} (hs : i.subscriptions = [])
    (hu : i.unsubscriptions = []) (hkept : ∀ msgId, kept h id instanceId msgId = none) :
    i.Separate ∧ ∀ msgId,
      (msgId ∈ i.subscriptions ↔ kept h id instanceId msgId = some true) ∧
      (msgId ∈ i.unsubscriptions ↔ kept h id instanceId msgId = some false) := by
  refine ⟨⟨by simp [hs],by simp [hu],by simp [hs]⟩,fun msgId => ?_⟩
  rw [hs, hu, hkept]
  simp

variable (clk message) in
/-- The lists after a change or not of the instance id are what is kept. -/
theorem heard_alive {info : Option RouterEndpointInfo}
    (hnone : info = none → h.lastInstance id = none)
    (hsome : ∀ i, info = some i → InfoAgrees i h id) :
    (heard clk info message .alive).Separate ∧ ∀ msgId,
      (msgId ∈ (heard clk info message .alive).subscriptions ↔
        kept h id message.sequenceNo msgId = some true) ∧
      (msgId ∈ (heard clk info message .alive).unsubscriptions ↔
        kept h id message.sequenceNo msgId = some false) := by
  cases info with
  | none =>
    obtain ⟨-,hs,hu⟩ := RouterEndpointInfo.assignInstanceId_spec
      { outdated := ⟨clk.now,clk.adjustedDuration 60000⟩ } clk.now message
    exact emptied_agrees (hs.trans (ite_self [])) (hu.trans (ite_self []))
      (fun msgId => by simp [kept, hnone rfl])
  | some info =>
    obtain ⟨-,hs,hu⟩ := RouterEndpointInfo.assignInstanceId_spec info clk.now message
    obtain ⟨-,hsep,hlast,hsub,hunsub⟩ := hsome info rfl
    by_cases hi : info.instanceId = message.sequenceNo
    · have hs' : (heard clk (some info) message .alive).subscriptions = info.subscriptions :=
        hs.trans (if_pos hi)
      have hu' : (heard clk (some info) message .alive).unsubscriptions = info.unsubscriptions :=
        hu.trans (if_pos hi)
      have hkept (msgId : MessageId) :
          kept h id message.sequenceNo msgId = h.standing id msgId := by
        cases hl : h.lastInstance id with
        | none => simp [kept, hl, Notices.standing_none hl]
        | some i => simp [kept, hl, ← hlast i hl, hi]
      refine ⟨⟨hs' ▸ hsep.1,hu' ▸ hsep.2,hs' ▸ hu' ▸ hsep.3⟩,fun msgId => ?_⟩
      rw [hs', hu', hkept]
      exact ⟨hsub msgId,hunsub msgId⟩
    · exact emptied_agrees (hs.trans (if_neg hi)) (hu.trans (if_neg hi))
        (fun msgId => if_neg (fun hl => hi (hlast _ hl)))

theorem heard_instanceId {info : Option RouterEndpointInfo} {news : News} :
    (heard clk info message news).instanceId = message.sequenceNo := by
  rcases news with _ | ⟨m,_ | _⟩ | _ <;>
    exact (RouterEndpointInfo.assignInstanceId_spec ..).1

theorem heard_lists {info : Option RouterEndpointInfo} {news : News} {msgId : MessageId}
    (hsep : (heard clk info message .alive).Separate)
    (hs : msgId ∈ (heard clk info message .alive).subscriptions ↔
      kept h id message.sequenceNo msgId = some true)
    (hu : msgId ∈ (heard clk info message .alive).unsubscriptions ↔
      kept h id message.sequenceNo msgId = some false) :
    (msgId ∈ (heard clk info message news).subscriptions ↔
      (news.about msgId).or (kept h id message.sequenceNo msgId) = some true) ∧
    (msgId ∈ (heard clk info message news).unsubscriptions ↔
      (news.about msgId).or (kept h id message.sequenceNo msgId) = some false) := by
  rcases news with _ | ⟨m,_ | _⟩ | _
  · exact ⟨hs,hu⟩
  · have hr := RouterEndpointInfo.mem_listRemove m msgId hsep.1
    have ha := RouterEndpointInfo.mem_listAdd (heard clk info message .alive).unsubscriptions m
      msgId
    rw [hs] at hr
    rw [hu] at ha
    refine ⟨hr.trans ?_,ha.trans ?_⟩
    · by_cases hm : m = msgId
      · simp [News.about, hm]
      · simp [News.about, hm, Ne.symm hm]
    · by_cases hm : m = msgId
      · simp [News.about, hm]
      · simp [News.about, hm, Ne.symm hm]
  · have hr := RouterEndpointInfo.mem_listRemove m msgId hsep.2
    have ha := RouterEndpointInfo.mem_listAdd (heard clk info message .alive).subscriptions m msgId
    rw [hu] at hr
    rw [hs] at ha
    refine ⟨ha.trans ?_,hr.trans ?_⟩
    · by_cases hm : m = msgId
      · simp [News.about, hm]
      · simp [News.about, hm, Ne.symm hm]
    · by_cases hm : m = msgId
      · simp [News.about, hm]
      · simp [News.about, hm, Ne.symm hm]
  · exact ⟨hs,hu⟩

/-- An info that takes in the notice agrees with the longer history. -/
theorem heard_agrees {info : Option RouterEndpointInfo}
    (hnone : info = none → h.lastInstance id = none)
    (hsome : ∀ i, info = some i → InfoAgrees i h id)
    (hid : n.source = id) (hb : n.news ≠ .bye) (hseq : n.instanceId = message.sequenceNo)
    (h0 : n.instanceId ≠ 0) : InfoAgrees (heard clk info message n.news) (n::h) id := by
  obtain ⟨hsep,hlists⟩ := heard_alive clk message hnone hsome
  have hstand (msgId : MessageId) : Notices.standing (n::h) id msgId =
      (n.news.about msgId).or (kept h id message.sequenceNo msgId) := by
    rw [Notices.standing_told hid hb, hseq, kept]
  refine ⟨?_,?_,?_,fun msgId => ?_,fun msgId => ?_⟩
  · rwa [heard_instanceId, ← hseq]
  · rcases n.news with _ | ⟨m,_ | _⟩ | _
    · exact hsep
    · exact hsep.remove
    · exact hsep.add
    · exact hsep
  · intro i hi
    rw [Notices.lastInstance_told hid hb, hseq] at hi
    rw [heard_instanceId, Option.some.inj hi]
  · rw [hstand]
    exact (heard_lists hsep (hlists msgId).1 (hlists msgId).2).1
  · rw [hstand]
    exact (heard_lists hsep (hlists msgId).1 (hlists msgId).2).2

/-- The answers of the node are what stands of the history. -/
structure NodeAgrees (node : RemoteNode) (h : Notices) (id : EndpointId) : Prop where
  told : node.instanceId ≠ 0
  last : h.lastInstance id = some node.instanceId
  answers : ∀ msgId, node.getSub msgId = h.standing id msgId

theorem noticeInstance_agrees {t : RemoteNodeTracker} (instanceId : ℕ)
    (hnone : t.nodes.find? id = none → h.lastInstance id = none)
    (hsome : ∀ node, t.nodes.find? id = some node → NodeAgrees node h id) :
    ((t.getNode id).noticeInstance instanceId).instanceId = instanceId ∧
    ∀ msgId, ((t.getNode id).noticeInstance instanceId).getSub msgId =
      kept h id instanceId msgId := by
  cases hf : t.nodes.find? id with
  | none =>
    have hnode : t.getNode id = {} := by rw [RemoteNodeTracker.getNode, hf]; rfl
    have hspec (msgId : MessageId) := RemoteNode.noticeInstance_spec msgId instanceId
      (show (t.getNode id).instanceId = 0 → _ by simp [hnode, RemoteNode.getSub])
    refine ⟨(hspec (msgbusId .ping)).1,fun msgId => ?_⟩
    rw [(hspec msgId).2, hnode]
    simp [RemoteNode.getSub, kept, hnone hf]
  | some node =>
    obtain ⟨h0,hlast,hans⟩ := hsome node hf
    have hnode : t.getNode id = node := by rw [RemoteNodeTracker.getNode, hf]; rfl
    have hspec (msgId : MessageId) := RemoteNode.noticeInstance_spec msgId instanceId
      (show node.instanceId = 0 → _ from fun h => absurd h h0)
    rw [hnode]
    refine ⟨(hspec (msgbusId .ping)).1,fun msgId => ?_⟩
    rw [(hspec msgId).2, hans, kept, hlast]
    simp

/-- A node that takes in the notice agrees with the longer history. -/
theorem track_agrees {t : RemoteNodeTracker}
    (hnone : t.nodes.find? n.source = none → h.lastInstance n.source = none)
    (hsome : ∀ node, t.nodes.find? n.source = some node → NodeAgrees node h n.source)
    (hb : n.news ≠ .bye) (h0 : n.instanceId ≠ 0) :
    ∃ node, (∀ id, (track t n).nodes.find? id =
        if n.source = id then some node else t.nodes.find? id) ∧
      NodeAgrees node (n::h) n.source := by
  obtain ⟨hinst,hsub⟩ := noticeInstance_agrees n.instanceId hnone hsome
  have hmodify (f : RemoteNode → RemoteNode) (id : EndpointId) :
      ((t.noticeInstance n.source n.instanceId).modifyNode n.source f).nodes.find? id =
        if n.source = id then some (f ((t.getNode n.source).noticeInstance n.instanceId))
        else t.nodes.find? id := by
    simp only [RemoteNodeTracker.modifyNode, RemoteNodeTracker.noticeInstance,
      RemoteNodeTracker.getNode, OrderedMap.find?_assign, if_true, Option.getD_some]
    split_ifs <;> rfl
  have hagrees (f : RemoteNode → RemoteNode)
      (hf : ∀ node msgId, (f node).instanceId = node.instanceId ∧
        (f node).getSub msgId = (n.news.about msgId).or (node.getSub msgId)) :
      NodeAgrees (f ((t.getNode n.source).noticeInstance n.instanceId)) (n::h) n.source := by
    have hi := (hf ((t.getNode n.source).noticeInstance n.instanceId) (msgbusId .ping)).1.trans
      hinst
    refine ⟨by rwa [hi],?_,fun msgId => ?_⟩
    · rw [hi, Notices.lastInstance_told rfl hb]
    · rw [(hf _ msgId).2, hsub, Notices.standing_told rfl hb, kept]
  rw [track]
  generalize hnews : n.news = news at hb hagrees
  rcases news with _ | ⟨m,_ | _⟩ | _
  · exact ⟨_,hmodify _,hagrees (fun node => node.assign .endpoint)
      (fun node msgId => RemoteNode.assign_spec)⟩
  · refine ⟨_,hmodify _,hagrees (fun node => node.removeSubscription m) (fun node msgId => ?_)⟩
    obtain ⟨hi,hs⟩ := RemoteNode.removeSubscription_spec node m msgId
    refine ⟨hi,hs.trans ?_⟩
    rw [News.about]
    split_ifs <;> rfl
  · refine ⟨_,hmodify _,hagrees (fun node => node.addSubscription m) (fun node msgId => ?_)⟩
    obtain ⟨hi,hs⟩ := RemoteNode.addSubscription_spec node m msgId
    refine ⟨hi,hs.trans ?_⟩
    rw [News.about]
    split_ifs <;> rfl
  · exact absurd rfl hb

end Agreement

section Maintenance

variable {env : RouterEnv} {clk : Clock} {r : Router}

theorem assignId_same (r : Router) (link : ℕ) : SameInfos r (r.assignId env link) := by
  unfold assignId
  cases r.ids.getNextId r.hasNodeId env.getNextIdFuel with
  | none => exact .refl r
  | some next =>
    dsimp only
    split_ifs <;> exact ⟨fun _ => rfl,fun _ => rfl⟩

theorem handlePendingMessage_same (r : Router) (pending : RouterPending) (msgId : MessageId)
    (message : MessageView) :
    SameInfos r (r.handlePendingMessage env pending msgId message).2 := by
  unfold handlePendingMessage
  by_cases hs : isSpecialMessage msgId = true
  · rw [if_pos hs]
    split
    · exact assignId_same r _
    · exact .refl r
    · exact .refl r
    · by_cases hm : env.matchesEncryptedSharedPassword pending.nonce message.data = true
      · rw [if_pos hm]
        exact .refl r
      · rw [if_neg hm]
        exact .refl r
    · exact .refl r
  · rw [if_neg hs]
    exact .refl r

variable (env clk) in
theorem updatePending_same (random : Block) (fetched : List (MessageId × MessageView))
    (pending : RouterPending) (r : Router) :
    SameInfos r (updatePending env clk random fetched pending r).2 := by
  induction fetched generalizing pending r with
  | nil => exact ⟨fun _ => rfl,fun _ => rfl⟩
  | cons a rest ih => exact (handlePendingMessage_same r pending a.1 a.2).trans (ih _ _)

variable (env clk) in
theorem handlePendingLoop_same (fetched : ℕ → List (MessageId × MessageView))
    (random : ℕ → Block) (ps : List RouterPending) (r : Router) :
    SameInfos r (handlePendingLoop env clk fetched random ps r).2 := by
  induction ps generalizing r with
  | nil => exact .refl r
  | cons pending rest ih =>
    rw [handlePendingLoop]
    split_ifs with hremove
    · exact ih r
    · have hupdate := updatePending_same env clk (random pending.link)
        (fetched pending.link) pending r
      dsimp only
      split_ifs with hadopt
      · have hadopted (p : RouterPending) (r : Router) : SameInfos r (r.adoptPending env p).2 :=
          ⟨fun _ => rfl,fun _ => rfl⟩
        exact hupdate.trans ((hadopted _ _).trans (ih _))
      · exact hupdate.trans (ih _)

theorem removeDisconnected_same : SameInfos r (r.removeDisconnected clk) := by
  have hfold (n : RouterNodes) (es : List (EndpointId × AdjacentNode)) :
      (es.foldl (fun n e => n.markDisconnected clk.now e.1) n).endpointInfos = n.endpointInfos ∧
      (es.foldl (fun n e => n.markDisconnected clk.now e.1) n).endpointIdx = n.endpointIdx := by
    induction es generalizing n with
    | nil => exact ⟨rfl,rfl⟩
    | cons e es ih => exact ih _
  constructor
  · intro id
    rw [removeDisconnected, RouterNodes.removeDisconnected, (hfold _ _).1]
  · intro id
    rw [removeDisconnected, RouterNodes.removeDisconnected, (hfold _ _).2]

/-- Without outdated infos nothing is known less. -/
theorem removeTimeouted_same (h : ∀ id info, r.nodes.endpointInfos.find? id = some info →
    info.outdated.isExpired clk.now = false) : SameInfos r (r.removeTimeouted clk) := by
  have hnone : (r.nodes.endpointInfos.filter
      (fun _ info => info.outdated.isExpired clk.now)).entries = [] := by
    apply List.filter_eq_nil_iff.mpr
    intro e he
    simp [h e.1 e.2 (OrderedMap.find?_eq_some.mpr he)]
  constructor
  · intro id
    simp only [removeTimeouted, RouterNodes.removeTimeouted, hnone, List.foldl_nil]
    rw [OrderedMap.eraseIf, OrderedMap.find?_filter]
    cases hf : r.nodes.endpointInfos.find? id with
    | none => rfl
    | some info => simp [Option.filter, h id info hf]
  · intro id
    simp only [removeTimeouted, RouterNodes.removeTimeouted, hnone, List.foldl_nil]

end Maintenance

section Run

variable {env : RouterEnv} {s : SubscriptionViews}

structure Inv (s : SubscriptionViews) : Prop where
  keys : ∀ id, s.router.nodes.endpointIdx.contains id = s.router.nodes.endpointInfos.contains id
  absent : ∀ id, s.router.nodes.endpointInfos.find? id = none → s.history.lastInstance id = none
  infos : ∀ id info, s.router.nodes.endpointInfos.find? id = some info →
    InfoAgrees info s.history id
  untracked : ∀ id, s.tracker.nodes.find? id = none → s.history.lastInstance id = none
  nodes : ∀ id node, s.tracker.nodes.find? id = some node → NodeAgrees node s.history id

theorem Inv.start (setup : Setup) : Inv (start setup) :=
  ⟨fun _ => rfl,fun _ _ => rfl,fun _ _ h => (nomatch h),fun _ _ => rfl,
    fun _ _ h => (nomatch h)⟩

theorem Inv.answers (hi : Inv s) (id : EndpointId) (msgId : MessageId) :
    answerOf s.router.nodes id msgId = s.history.standing id msgId := by
  rw [answerOf, RouterNodes.subscribesTo]
  cases hf : s.router.nodes.endpointInfos.find? id with
  | none => simp [Notices.standing_none (hi.absent id hf)]
  | some info =>
    obtain ⟨h0,-,-,hsub,hunsub⟩ := hi.infos id info hf
    have hinst : info.hasInstanceId = true := by simpa [RouterEndpointInfo.hasInstanceId] using h0
    simp only [hinst, if_true, messageIdListContains, Option.some.injEq, List.contains_iff_mem,
      hsub, hunsub]
    rcases s.history.standing id msgId with _ | _ | _ <;> rfl

theorem Inv.tracked (hi : Inv s) (id : EndpointId) (msgId : MessageId) :
    s.tracker.subscribesTo id msgId = s.history.standing id msgId := by
  rw [RemoteNodeTracker.subscribesTo]
  cases hf : s.tracker.nodes.find? id with
  | none => exact (Notices.standing_none (hi.untracked id hf)).symm
  | some node => exact (hi.nodes id node hf).answers msgId

theorem Inv.agree (hi : Inv s) : Agree s :=
  ⟨hi.answers,fun id info hf => (hi.infos id info hf).separate,hi.keys,
    fun id msgId => (hi.tracked id msgId).trans (hi.answers id msgId).symm⟩

theorem InfoAgrees.other {info : RouterEndpointInfo} {h : Notices} {n : Notice} {id : EndpointId}
    (ha : InfoAgrees info h id) (hid : n.source ≠ id) : InfoAgrees info (n::h) id := by
  obtain ⟨h0,hsep,hlast,hsub,hunsub⟩ := ha
  refine ⟨h0,hsep,?_,?_,?_⟩
  · rwa [Notices.lastInstance_other hid]
  · intro msgId
    rw [Notices.standing_other hid, hsub]
  · intro msgId
    rw [Notices.standing_other hid, hunsub]

theorem NodeAgrees.other {node : RemoteNode} {h : Notices} {n : Notice} {id : EndpointId}
    (ha : NodeAgrees node h id) (hid : n.source ≠ id) : NodeAgrees node (n::h) id := by
  obtain ⟨h0,hlast,hans⟩ := ha
  refine ⟨h0,?_,?_⟩
  · rwa [Notices.lastInstance_other hid]
  · intro msgId
    rw [Notices.standing_other hid, hans]

theorem Inv.same (hi : Inv s) {r' : Router} (h : SameInfos s.router r') :
    Inv { s with router := r' } := by
  refine ⟨fun id => ?_,fun id hf => hi.absent id ?_,fun id info hf => hi.infos id info ?_,
    hi.untracked,hi.nodes⟩
  · have hk := hi.keys id
    simp only [OrderedMap.contains, h.infos id] at hk ⊢
    exact (h.keys id).trans hk
  · exact (h.infos id).symm.trans hf
  · exact (h.infos id).symm.trans hf

/-- Both sides take in a notice that is not a bye. -/
theorem Inv.heard (hi : Inv s) {r' : Router} {clk : Clock} {message : MessageView} {n : Notice}
    (hr : Heard s.router clk message n.news r') (hsource : n.source = message.sourceId)
    (hseq : n.instanceId = message.sequenceNo) (hb : n.news ≠ .bye) (h0 : n.instanceId ≠ 0) :
    Inv ⟨r',track s.tracker n,n::s.history⟩ := by
  obtain ⟨node,hnode,hagrees⟩ := track_agrees (hi.untracked n.source) (hi.nodes n.source) hb h0
  refine ⟨fun id => ?_,fun id hf => ?_,fun id info hf => ?_,fun id hf => ?_,fun id m hf => ?_⟩
  · have hk := hi.keys id
    rw [hr.keys, hk, OrderedMap.contains, OrderedMap.contains, hr.infos]
    split_ifs with hid
    · simp [hid]
    · simp [hid]
  · rw [hr.infos, ← hsource] at hf
    split_ifs at hf with hid
    rw [Notices.lastInstance_other hid, hi.absent id hf]
  · rw [hr.infos, ← hsource] at hf
    split_ifs at hf with hid
    · obtain rfl := Option.some.inj hf
      exact heard_agrees (hi.absent id) (hi.infos id) hid hb hseq h0
    · exact (hi.infos id info hf).other hid
  · rw [hnode] at hf
    split_ifs at hf with hid
    rw [Notices.lastInstance_other hid, hi.untracked id hf]
  · rw [hnode] at hf
    split_ifs at hf with hid
    · obtain rfl := Option.some.inj hf
      exact hid ▸ hagrees
    · exact (hi.nodes id m hf).other hid

/-- The side of the tracker of a bye. -/
theorem Inv.removed (hi : Inv s) {n : Notice} (hb : n.news = .bye) :
    (∀ id, (track s.tracker n).nodes.find? id = none →
      Notices.lastInstance (n::s.history) id = none) ∧
    ∀ id node, (track s.tracker n).nodes.find? id = some node →
      NodeAgrees node (n::s.history) id := by
  have htrack : track s.tracker n = s.tracker.removeNode n.source := by rw [track, hb]
  simp only [htrack, RemoteNodeTracker.removeNode, OrderedMap.find?_erase]
  refine ⟨fun id hf => ?_,fun id node hf => ?_⟩
  · by_cases hid : n.source = id
    · exact Notices.lastInstance_bye hid hb
    · rw [if_neg (Ne.symm hid)] at hf
      rw [Notices.lastInstance_other hid, hi.untracked id hf]
  · split_ifs at hf with hid
    exact (hi.nodes id node hf).other (Ne.symm hid)

theorem Inv.dropped (hi : Inv s) {r' : Router} {n : Notice} (hr : Dropped s.router n.source r')
    (hb : n.news = .bye) : Inv ⟨r',track s.tracker n,n::s.history⟩ := by
  obtain ⟨huntracked,hnodes⟩ := hi.removed hb
  refine ⟨fun id => ?_,fun id hf => ?_,fun id info hf => ?_,huntracked,hnodes⟩
  · have hk := hi.keys id
    rw [hr.keys, hk, OrderedMap.contains, OrderedMap.contains, hr.infos]
    split_ifs with hid
    · simp [hid]
    · simp [hid]
  · by_cases hid : n.source = id
    · exact Notices.lastInstance_bye hid hb
    · rw [hr.infos, if_neg (Ne.symm hid)] at hf
      rw [Notices.lastInstance_other hid, hi.absent id hf]
  · rw [hr.infos] at hf
    split_ifs at hf with hid
    exact (hi.infos id info hf).other (Ne.symm hid)

/-- The router has not taken in the bye, but has no answers to drop. -/
theorem Inv.ignored (hi : Inv s) {n : Notice} (hb : n.news = .bye)
    (hnone : ∀ msgId, answerOf s.router.nodes n.source msgId = none) :
    Inv ⟨s.router,track s.tracker n,n::s.history⟩ := by
  obtain ⟨huntracked,hnodes⟩ := hi.removed hb
  refine ⟨hi.keys,fun id hf => ?_,fun id info hf => ?_,huntracked,hnodes⟩
  · by_cases hid : n.source = id
    · exact Notices.lastInstance_bye hid hb
    · rw [Notices.lastInstance_other hid, hi.absent id hf]
  · by_cases hid : n.source = id
    · obtain ⟨h0,hsep,-,hsub,hunsub⟩ := hi.infos id info hf
      have hstand (msgId : MessageId) : s.history.standing id msgId = none := by
        rw [← hi.answers, ← hid, hnone]
      refine ⟨h0,hsep,?_,fun msgId => ?_,fun msgId => ?_⟩
      · intro i hl
        rw [Notices.lastInstance_bye hid hb] at hl
        cases hl
      · rw [hsub, hstand, Notices.standing_bye hid hb]
      · rw [hunsub, hstand, Notices.standing_bye hid hb]
    · exact (hi.infos id info hf).other hid

/-- A message that the router handles like one from a node. -/
theorem Inv.taken (hi : Inv s) {r' : Router} {clk : Clock} {msgId : MessageId}
    {message : MessageView} (ht : Telling msgId message)
    (hr : Takes s.router clk message r' (newsOf env msgId message)) :
    Inv (match noticeOf env msgId message with
      | some n => ⟨r',track s.tracker n,n::s.history⟩
      | none => { s with router := r' }) := by
  rw [noticeOf]
  cases hn : newsOf env msgId message with
  | none =>
    rw [hn] at hr
    exact hi.same hr
  | some news =>
    rw [hn] at hr
    by_cases hb : news = .bye
    · subst hb
      exact hi.dropped (n := ⟨_,_,_⟩) hr rfl
    · have hheard : Heard s.router clk message news r' := by
        rcases news with _ | _ | _
        · exact hr
        · exact hr
        · exact absurd rfl hb
      have hseq : message.sequenceNo ≠ 0 := by
        rcases ht.2 with hm | hm
        · rw [newsOf_bye ht.1 hm] at hn
          exact absurd (Option.some.inj hn).symm hb
        · exact hm.2
      exact hi.heard (n := ⟨_,_,_⟩) hheard rfl rfl hb hseq

theorem Inv.untold (hi : Inv s) {r' : Router} {msgId : MessageId} {message : MessageView}
    (h : Silent msgId) (hr : SameInfos s.router r') :
    Inv (match noticeOf env msgId message with
      | some n => ⟨r',track s.tracker n,n::s.history⟩
      | none => { s with router := r' }) := by
  rw [noticeOf, newsOf_silent h]
  exact hi.same hr

theorem Inv.step (hi : Inv s) (e : Event) (hadm : Admitted s e) (hok : ByeOfUnknown s e) :
    Inv (step env s e) := by
  cases e with
  | fromNode clk id msgId age message =>
    rw [SubscriptionViews.step, received, RouterRun.step]
    split_ifs
    · rcases hadm with ht | hsilent
      · exact hi.taken ht (handleNodeMessage_takes ht)
      · exact hi.untold hsilent (handleNodeMessage_silent hsilent)
    · exact hi
  | fromParent clk msgId age message =>
    rw [SubscriptionViews.step, received, RouterRun.step]
    split_ifs with hc
    · rcases hadm with ht | hsilent
      · by_cases hb : msgId.method ∈ [.byeByeEndp,.byeByeRutr,.byeByeBrdg]
        · rw [handleParentMessage_bye ht.1 hb, noticeOf, newsOf_bye ht.1 hb]
          exact hi.ignored (n := ⟨_,_,_⟩) rfl (hok hc ht.1 hb)
        · exact hi.taken ht (handleParentMessage_takes ht.1 (ht.2.resolve_left hb).1)
      · exact hi.untold hsilent (handleParentMessage_silent hsilent)
    · exact hi
  | handlePending clk fetched random =>
    have hloop := handlePendingLoop_same env clk fetched random
      s.router.nodes.pending s.router
    exact hi.same ⟨hloop.infos,hloop.keys⟩
  | updateParent clk => exact hi.same ⟨fun _ => rfl,fun _ => rfl⟩
  | processBlobs clk =>
    refine hi.same ?_
    show SameInfos s.router (s.router.processBlobs env clk)
    unfold processBlobs
    dsimp only
    split_ifs <;> exact ⟨fun _ => rfl,fun _ => rfl⟩
  | removeTimeouted clk => exact hi.same (removeTimeouted_same hadm)
  | removeDisconnected clk => exact hi.same removeDisconnected_same
  | addConnection connection => exact hi.same ⟨fun _ => rfl,fun _ => rfl⟩
  | handleAccept clk connection => exact hi.same ⟨fun _ => rfl,fun _ => rfl⟩
  | nodeConnection id usable maxDataSize => exact hi.same ⟨fun _ => rfl,fun _ => rfl⟩
  | parentConnection usable maxDataSize => exact hi.same ⟨fun _ => rfl,fun _ => rfl⟩
  | sendFlowInfo serialized => exact hi.same ⟨fun _ => rfl,fun _ => rfl⟩

/-- After a bye from the parent the answers are as before it. -/
theorem byeOfUnknown_of_agree {e : Event} (h : Agree (step env s e)) : ByeOfUnknown s e := by
  cases e with
  | fromParent clk msgId age message =>
    intro hc hs hb subMsgId
    have hans := h.answers message.sourceId subMsgId
    rw [SubscriptionViews.step, received, RouterRun.step, if_pos hc, if_pos hc, noticeOf,
      newsOf_bye hs hb, handleParentMessage_bye hs hb] at hans
    exact hans.trans (Notices.standing_bye rfl rfl)
  | _ => trivial

/-- The answers of a router and of a tracker are those of the history in every
state of a run exactly if the parent passes on no bye of an endpoint that the
router has answers about. -/
theorem subscription_views_agree_iff (env : RouterEnv) (setup : Setup) (es : List Event)
    (hadm : StepRun.Steps (step env) Admitted (start setup) es) :
    StepRun.Always (step env) Agree (start setup) es ↔
      StepRun.Steps (step env) ByeOfUnknown (start setup) es :=
  StepRun.always_iff_steps_of (fun _ => Inv.agree) (fun _ e hi ha hok => Inv.step hi e ha hok)
    (fun _ _ _ _ h => byeOfUnknown_of_agree h) (Inv.start setup) hadm

/-- An endpoint of a node subscribes and unsubscribes, one behind the parent
tells that it is alive, and both say bye. -/
def sampleRun : List Event :=
  joinNode 1 7 ++ joinParent 2 ++
    [.fromNode sampleClock 7 (msgbusId .subscribTo) 0
        { sourceId := 7, sequenceNo := 31, data := [8,9] },
      .fromParent sampleClock (msgbusId .stillAlive) 0 { sourceId := 9, sequenceNo := 32 },
      .fromNode sampleClock 7 (msgbusId .unsubFrom) 0
        { sourceId := 7, sequenceNo := 31, data := [8,9] },
      .fromNode sampleClock 7 (msgbusId .byeByeEndp) 0 { sourceId := 7 },
      .fromParent sampleClock (msgbusId .byeByeEndp) 0 { sourceId := 9 }]

theorem sampleRun_agree :
    StepRun.Steps (step sampleEnv) Admitted (start sampleSetup) sampleRun ∧
      (StepRun.Always (step sampleEnv) Agree (start sampleSetup) sampleRun ↔
        StepRun.Steps (step sampleEnv) ByeOfUnknown (start sampleSetup) sampleRun) := by
  have hadm : StepRun.Steps (step sampleEnv) Admitted (start sampleSetup) sampleRun := by
    refine ⟨trivial,trivial,trivial,Or.inr (Or.inr rfl),?_⟩
    refine ⟨Or.inl ⟨rfl,?_⟩,Or.inl ⟨rfl,?_⟩,Or.inl ⟨rfl,?_⟩,Or.inl ⟨rfl,?_⟩,
      Or.inl ⟨rfl,?_⟩,trivial⟩ <;> decide
  exact ⟨hadm,subscription_views_agree_iff sampleEnv sampleSetup sampleRun hadm⟩

/-- An endpoint behind the parent subscribes and says bye. -/
def parentBye : List Event :=
  joinParent 2 ++
    [.fromParent sampleClock (msgbusId .subscribTo) 0
        { sourceId := 9, sequenceNo := 32, data := [8,9] },
      .fromParent sampleClock (msgbusId .byeByeEndp) 0 { sourceId := 9 }]

/-- The router goes on to answer that the endpoint subscribes. -/
theorem parentBye_disagree :
    StepRun.Steps (step sampleEnv) Admitted (start sampleSetup) parentBye ∧
      ∃ s, s = StepRun.run (step sampleEnv) (start sampleSetup) parentBye ∧
        answerOf s.router.nodes 9 ⟨.other 8,.other 9⟩ = some true ∧
        s.history.standing 9 ⟨.other 8,.other 9⟩ = none ∧
        s.tracker.subscribesTo 9 ⟨.other 8,.other 9⟩ = none ∧ ¬Agree s := by
  have hadm : StepRun.Steps (step sampleEnv) Admitted (start sampleSetup) parentBye := by
    refine ⟨trivial,Or.inr (Or.inr rfl),Or.inl ⟨rfl,?_⟩,Or.inl ⟨rfl,?_⟩,trivial⟩ <;> decide
  have hans : answerOf (StepRun.run (step sampleEnv) (start sampleSetup) parentBye).router.nodes 9
      ⟨.other 8,.other 9⟩ = some true := by decide
  have hstand : (StepRun.run (step sampleEnv) (start sampleSetup) parentBye).history.standing 9
      ⟨.other 8,.other 9⟩ = none := by decide
  refine ⟨hadm,_,rfl,hans,hstand,by decide,fun h => ?_⟩
  have heq := h.answers 9 ⟨.other 8,.other 9⟩
  rw [hans, hstand] at heq
  cases heq

end Run

end SubscriptionViews

end MsgBus
