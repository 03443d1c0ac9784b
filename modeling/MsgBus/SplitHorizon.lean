import MsgBus.RouterRun

/-!
# Split horizon

A routed message carries the id of where it came from: that of the node, or
for the parent its confirmed id or the own one. The flood and the broadcast
leave out the node with that id, and the parent if it is the own one. The
index and the direct path do not look at it.
-/

set_option autoImplicit false

namespace MsgBus.SplitHorizon

open Router RouterRun

section Forward

variable (env : RouterEnv) (clk : Clock) (r : Router) (msgId : MessageId) (age : MessageAge)
  (message : MessageView)

/-- The router and the incoming id with which a message from a node is routed,
if it is not handled and not too old. -/
def forwardFromNode (id : EndpointId) : Option (Router × EndpointId) :=
  let handled := r.handleSpecial env clk id (aged message age) msgId
  if handled.1 || (aged message age).tooOld then none else some (handled.2,id)

def forwardFromParent : Option (Router × EndpointId) :=
  if isSpecialMessage msgId then
    match msgId.method with
    | .byeByeEndp => none
    | .byeByeRutr => none
    | .byeByeBrdg => none
    | .confirmId => none
    | _ =>
      let handled := r.handleSpecialFromParent env clk r.parentRouter.confirmedId
        (aged message age) msgId
      if handled.1 then none else some (handled.2,r.getId)
  else if (aged message age).tooOld then none
  else some (r,r.parentRouter.confirmedId)

/-- How a message that has come over this hop is forwarded. -/
def forward : Hop → Option (Router × EndpointId)
  | .node id =>
    if (r.nodes.find id).any (fun node => node.connection.isSome) then
      forwardFromNode env clk r msgId age message id
    else none
  | .parent =>
    if r.parentRouter.connection.isSome then forwardFromParent env clk r msgId age message
    else none
  | .pending _ => none

variable {env clk r msgId age message}

theorem step_fromNode {id : EndpointId} {r' : Router} {incomingId : EndpointId}
    (h : forward env clk r msgId age message (.node id) = some (r',incomingId)) :
    step env r (.fromNode clk id msgId age message) =
      r'.route env clk msgId incomingId (aged message age) := by
  unfold forward forwardFromNode at h
  dsimp only at h
  split_ifs at h with hguard hout
  obtain ⟨rfl,rfl⟩ := Prod.mk.inj (Option.some.inj h)
  obtain ⟨hhandled,hold⟩ : (r.handleSpecial env clk id (aged message age) msgId).1 = false ∧
      (aged message age).tooOld = false := by simpa using hout
  rw [step, if_pos hguard]
  unfold handleNodeMessage
  simp only [hhandled, hold, Bool.false_eq_true, if_false]

theorem step_fromParent {r' : Router} {incomingId : EndpointId}
    (h : forward env clk r msgId age message .parent = some (r',incomingId)) :
    step env r (.fromParent clk msgId age message) =
      r'.route env clk msgId incomingId (aged message age) := by
  by_cases hguard : r.parentRouter.connection.isSome = true
  · rw [forward, if_pos hguard, forwardFromParent] at h
    rw [step, if_pos hguard, handleParentMessage]
    dsimp only at h ⊢
    by_cases hs : isSpecialMessage msgId = true
    · rw [if_pos hs] at h ⊢
      unfold handleSpecialParentMessage
      split at h
      · cases h
      · cases h
      · cases h
      · cases h
      · split_ifs at h with hhandled
        obtain ⟨rfl,rfl⟩ := Prod.mk.inj (Option.some.inj h)
        simp only [hhandled]
        rfl
    · rw [if_neg hs] at h ⊢
      split_ifs at h ⊢
      obtain ⟨rfl,rfl⟩ := Prod.mk.inj (Option.some.inj h)
      rfl
  · rw [forward, if_neg hguard] at h
    cases h

end Forward

/-- Nothing goes back over the hop that the message has come over; a
broadcast goes once to each other node that allows it, and to the parent
unless it has come from there. -/
structure KeepsHorizon (r : Router) (origin : Hop) (msgId : MessageId) (message : MessageView)
    (hops : List Hop) : Prop where
  notBack : origin ∉ hops
  nodes : message.targetId = broadcastEndpointId → message.tooManyHops = false →
    ∀ id node, r.nodes.find id = some node → .node id ≠ origin →
      node.isAllowed msgId = true → hops.count (.node id) = 1
  parent : message.targetId = broadcastEndpointId → message.tooManyHops = false →
    hops.count .parent =
      if origin ≠ .parent ∧ r.parentRouter.connection.isSome then 1 else 0

section Conditions

variable (r : Router) (tr : Transport) (now : ℕ) (sent : List Sent) (msgId : MessageId)
  (incomingId : EndpointId) (message : MessageView)

/-- A broadcast comes from a node under an id that is not that of the router;
for another message the index does not name the node it comes from, nor is it
for that node, unless the send that the index asks for is accepted. -/
def LeavesNode (id : EndpointId) : Prop :=
  if message.targetId = broadcastEndpointId then
    id ≠ r.getId ∨ r.parentRouter.connection.isSome = false
  else ∀ node, r.nodes.find id = some node → node.isAllowed msgId = true →
    (r.nodes.findOutgoing message.targetId = id → id = r.getId) ∧
      (message.targetId = id → r.IndexAccepts tr sent msgId (hopped message))

/-- A broadcast comes from the parent under the id of the router, which no
node that allows it has; for another message the index does not name the
parent, and it comes under the id of the router if it is flooded. -/
def LeavesParent : Prop :=
  if message.targetId = broadcastEndpointId then
    incomingId = r.getId ∧
      ∀ node, r.nodes.find r.getId = some node → node.isAllowed msgId = false
  else r.nodes.findOutgoing message.targetId ≠ r.getId ∧
    (r.Floods tr now sent msgId message → incomingId = r.getId)

def Leaves : Hop → Prop
  | .node id => message.tooManyHops = false → LeavesNode r tr sent msgId message id
  | .parent => message.tooManyHops = false → LeavesParent r tr now sent msgId incomingId message
  | .pending _ => True

end Conditions

section Hops

variable {r : Router} {tr : Transport} {now : ℕ} {sent : List Sent} {msgId : MessageId}
  {incomingId : EndpointId} {message : MessageView}

theorem routeHops_broadcast (ht : message.targetId = broadcastEndpointId)
    (hops : message.tooManyHops = false) :
    r.routeHops tr now sent msgId incomingId message = r.broadcastHops msgId incomingId := by
  unfold routeHops
  rw [if_neg (by simp [hops]), if_pos ht]

theorem count_parent : (r.broadcastHops msgId incomingId).count .parent =
    if incomingId ≠ r.getId ∧ r.parentRouter.connection.isSome = true then 1 else 0 := by
  simp only [broadcastHops_nodup.count, parent_mem_broadcastHops]

theorem count_node (id : EndpointId) : (r.broadcastHops msgId incomingId).count (.node id) = 1 ↔
    ∃ node, r.nodes.find id = some node ∧ incomingId ≠ id ∧ node.Takes msgId := by
  rw [← node_mem_broadcastHops, broadcastHops_nodup.count]
  split_ifs with h <;> simp [h]

theorem node_back (hv : Valid r) (id : EndpointId) :
    .node id ∉ r.routeHops tr now sent msgId id message ↔
      (message.tooManyHops = false → message.targetId ≠ broadcastEndpointId →
        ∀ node, r.nodes.find id = some node → node.isAllowed msgId = true →
          (r.nodes.findOutgoing message.targetId = id → id = r.getId) ∧
            (message.targetId = id → r.IndexAccepts tr sent msgId (hopped message))) := by
  rw [mem_routeHops, node_mem_broadcastHops, node_mem_indexedHops, mem_nodeHops,
    node_mem_floodHops]
  constructor
  · intro h hops ht node hf ha
    have hmem := OrderedMap.find?_eq_some.mp hf
    have htk : node.Takes msgId := ⟨ha,hv.connections _ hmem⟩
    constructor
    · intro hindex
      by_contra ho
      exact h ⟨hops,Or.inr (Or.inl ⟨ht,Or.inl ⟨hindex,hv.ids _ hmem,ho,node,hf,htk⟩⟩)⟩
    · rintro rfl
      by_contra hi
      exact h ⟨hops,Or.inr (Or.inl ⟨ht,Or.inr ⟨hi,rfl,node,hf,htk⟩⟩)⟩
  · rintro h ⟨hops,⟨-,node,-,hne,-⟩ |
      ⟨ht,⟨hindex,-,ho,node,hf,htk⟩ | ⟨hi,hid,node,hf,htk⟩⟩ | ⟨-,node,-,hne,-⟩⟩
    · exact hne rfl
    · exact ho ((h hops ht node hf htk.1).1 hindex)
    · obtain rfl := Hop.node.inj hid
      exact hi ((h hops ht node hf htk.1).2 rfl)
    · exact hne rfl

theorem parent_back (hv : Valid r) (hc : r.parentRouter.connection.isSome = true) :
    .parent ∉ r.routeHops tr now sent msgId incomingId message ↔
      (message.tooManyHops = false →
        (message.targetId = broadcastEndpointId → incomingId = r.getId) ∧
        (message.targetId ≠ broadcastEndpointId →
          r.nodes.findOutgoing message.targetId ≠ r.getId ∧
            (r.Floods tr now sent msgId message → incomingId = r.getId))) := by
  rw [mem_routeHops, parent_mem_broadcastHops, parent_mem_indexedHops, mem_nodeHops,
    parent_mem_floodHops]
  constructor
  · intro h hops
    refine ⟨fun ht => ?_,fun ht => ⟨fun ho => ?_,fun hfl => ?_⟩⟩
    · by_contra hne
      exact h ⟨hops,Or.inl ⟨ht,hne,hc⟩⟩
    · exact h ⟨hops,Or.inr (Or.inl ⟨ht,Or.inl ⟨ho ▸ hv.own,ho,hc⟩⟩)⟩
    · by_contra hne
      exact h ⟨hops,Or.inr (Or.inr ⟨hfl,hne,hc⟩)⟩
  · rintro h ⟨hops,⟨ht,hne,-⟩ | ⟨ht,⟨-,ho,-⟩ | ⟨-,hid,-⟩⟩ | ⟨hfl,hne,-⟩⟩
    · exact hne ((h hops).1 ht)
    · exact ((h hops).2 ht).1 ho
    · cases hid
    · exact hne (((h hops).2 hfl.2.1).2 hfl)

theorem keepsHorizon_node (hv : Valid r) (id : EndpointId) :
    KeepsHorizon r (.node id) msgId message
        (r.routeHops tr now sent msgId id message) ↔
      (message.tooManyHops = false → LeavesNode r tr sent msgId message id) := by
  constructor
  · intro h hops
    unfold LeavesNode
    split_ifs with ht
    · have hcount := h.parent ht hops
      rw [routeHops_broadcast ht hops, count_parent] at hcount
      by_contra hboth
      obtain ⟨hid,hc⟩ : id = r.getId ∧ r.parentRouter.connection.isSome = true := by
        simpa only [not_or, ne_eq, not_not, Bool.not_eq_false] using hboth
      simp [hid, hc] at hcount
    · exact (node_back hv id).mp h.notBack hops ht
  · intro h
    refine ⟨(node_back hv id).mpr (fun hops ht => ?_),?_,?_⟩
    · have hleaves := h hops
      rwa [LeavesNode, if_neg ht] at hleaves
    · intro ht hops id' node hf hne ha
      have hc := hv.connections _ (OrderedMap.find?_eq_some.mp hf)
      rw [routeHops_broadcast ht hops, count_node]
      exact ⟨node,hf,fun heq => hne (heq ▸ rfl),ha,hc⟩
    · intro ht hops
      have hleaves := h hops
      rw [LeavesNode, if_pos ht] at hleaves
      rw [routeHops_broadcast ht hops, count_parent]
      rcases hleaves with hid | hc
      · simp [hid]
      · simp [hc]

theorem keepsHorizon_parent (hv : Valid r) (hc : r.parentRouter.connection.isSome = true) :
    KeepsHorizon r .parent msgId message
        (r.routeHops tr now sent msgId incomingId message) ↔
      (message.tooManyHops = false →
        LeavesParent r tr now sent msgId incomingId message) := by
  constructor
  · intro h hops
    have hback := (parent_back hv hc).mp h.notBack hops
    unfold LeavesParent
    split_ifs with ht
    · refine ⟨hback.1 ht,fun node hf => ?_⟩
      by_contra ha
      have hcount := h.nodes ht hops _ node hf (by simp) (by simpa using ha)
      rw [routeHops_broadcast ht hops, count_node] at hcount
      obtain ⟨_,_,hne,_⟩ := hcount
      exact hne (hback.1 ht)
    · exact hback.2 ht
  · intro h
    refine ⟨(parent_back hv hc).mpr (fun hops => ⟨fun ht => ?_,fun ht => ?_⟩),?_,?_⟩
    · have hleaves := h hops
      rw [LeavesParent, if_pos ht] at hleaves
      exact hleaves.1
    · have hleaves := h hops
      rwa [LeavesParent, if_neg ht] at hleaves
    · intro ht hops id node hf _ ha
      have hleaves := h hops
      rw [LeavesParent, if_pos ht] at hleaves
      have hconn := hv.connections _ (OrderedMap.find?_eq_some.mp hf)
      rw [routeHops_broadcast ht hops, count_node]
      refine ⟨node,hf,?_,ha,hconn⟩
      rintro rfl
      rw [hleaves.2 node (hleaves.1 ▸ hf)] at ha
      cases ha
    · intro ht hops
      have hleaves := h hops
      rw [LeavesParent, if_pos ht] at hleaves
      rw [routeHops_broadcast ht hops, count_parent]
      simp [hleaves.1]

end Hops

section Arrivals

variable {env : RouterEnv} {setup : Setup} {clk : Clock} {r r' : Router} {msgId : MessageId}
  {age : MessageAge} {message : MessageView} {incomingId : EndpointId}

theorem forward_node {id : EndpointId}
    (h : forward env clk r msgId age message (.node id) = some (r',incomingId)) :
    r' = (r.handleSpecial env clk id (aged message age) msgId).2 ∧ incomingId = id := by
  unfold forward forwardFromNode at h
  dsimp only at h
  split_ifs at h
  obtain ⟨rfl,rfl⟩ := Prod.mk.inj (Option.some.inj h)
  exact ⟨rfl,rfl⟩

theorem special_frame : Frame r (r.handleSpecialFromParent env clk incomingId message msgId).2 := by
  unfold handleSpecialFromParent
  split_ifs
  · exact common_frame.toFrame
  · exact ⟨rfl,rfl,rfl⟩

theorem forward_parent (hr : Reachable env setup r)
    (h : forward env clk r msgId age message .parent = some (r',incomingId)) :
    Reachable env setup r' ∧ r'.parentRouter.connection.isSome = true := by
  by_cases hguard : r.parentRouter.connection.isSome = true
  · rw [forward, if_pos hguard, forwardFromParent] at h
    dsimp only at h
    by_cases hs : isSpecialMessage msgId = true
    · rw [if_pos hs] at h
      split at h
      · cases h
      · cases h
      · cases h
      · cases h
      · split_ifs at h
        obtain ⟨rfl,rfl⟩ := Prod.mk.inj (Option.some.inj h)
        refine ⟨hr.fromParent clk _ _ msgId,?_⟩
        rw [special_frame.parent]
        exact hguard
    · rw [if_neg hs] at h
      split_ifs at h
      obtain ⟨rfl,rfl⟩ := Prod.mk.inj (Option.some.inj h)
      exact ⟨hr,hguard⟩
  · rw [forward, if_neg hguard] at h
    cases h

end Arrivals

/-- In every reachable state a message that has come over a connection keeps
the split horizon when it is forwarded exactly if it leaves where it has come
from. -/
theorem keepsHorizon_iff {env : RouterEnv} {setup : Setup} {r r' : Router}
    (hr : Reachable env setup r) (clk : Clock) (msgId : MessageId) (age : MessageAge)
    (message : MessageView) (origin : Hop) (incomingId : EndpointId)
    (hfwd : forward env clk r msgId age message origin = some (r',incomingId)) :
    KeepsHorizon r' origin msgId (aged message age) (hopsSince r'.sent
        (r'.route env clk msgId incomingId (aged message age)).sent) ↔
      Leaves r' env.transport clk.now r'.sent msgId incomingId (aged message age) origin := by
  rw [route, routeMessage_hops]
  cases origin with
  | node id =>
    obtain ⟨rfl,rfl⟩ := forward_node hfwd
    exact keepsHorizon_node (hr.fromNode clk _ _ msgId).valid _
  | parent =>
    obtain ⟨hr',hc⟩ := forward_parent hr hfwd
    exact keepsHorizon_parent hr'.valid hc
  | pending link => cases hfwd

theorem keepsHorizon_iff_node :
    KeepsHorizon (after sampleEnv sampleSetup (joinNode 1 5)) (.node 5) ⟨.other 1,.other 2⟩
        (aged { sourceId := 5 } 0)
        (hopsSince (after sampleEnv sampleSetup (joinNode 1 5)).sent
          ((after sampleEnv sampleSetup (joinNode 1 5)).route sampleEnv sampleClock
            ⟨.other 1,.other 2⟩ 5 (aged { sourceId := 5 } 0)).sent) ↔
      Leaves (after sampleEnv sampleSetup (joinNode 1 5)) sampleEnv.transport 0
        (after sampleEnv sampleSetup (joinNode 1 5)).sent ⟨.other 1,.other 2⟩ 5
        (aged { sourceId := 5 } 0) (.node 5) :=
  keepsHorizon_iff (.of_run sampleEnv sampleSetup (joinNode 1 5)) sampleClock
    ⟨.other 1,.other 2⟩ 0 { sourceId := 5 } (.node 5) 5 rfl

/-- An endpoint behind the confirmed parent has announced itself. -/
def behindParent : List Event :=
  joinParent 1 ++
    [.fromParent sampleClock (msgbusId .stillAlive) 0 { sourceId := 7, sequenceNo := 1 }]

/-- A message for it that the parent has sent goes back to the parent. -/
theorem message_returns :
    forward sampleEnv sampleClock (after sampleEnv sampleSetup behindParent)
        ⟨.other 1,.other 2⟩ 0 { sourceId := 3, targetId := 7 } .parent =
      some (after sampleEnv sampleSetup behindParent,100) ∧
    ¬ KeepsHorizon (after sampleEnv sampleSetup behindParent) .parent ⟨.other 1,.other 2⟩
        (aged { sourceId := 3, targetId := 7 } 0)
        (hopsSince (after sampleEnv sampleSetup behindParent).sent
          ((after sampleEnv sampleSetup behindParent).route sampleEnv sampleClock
            ⟨.other 1,.other 2⟩ 100 (aged { sourceId := 3, targetId := 7 } 0)).sent) :=
  ⟨rfl,fun h => h.notBack (by decide)⟩

end MsgBus.SplitHorizon
