import MsgBus.Router

/-!
# The hops of a routed message

What a call of `_route_message` tries is a list of hops: one by the endpoint
index, one to the node of the target, then the flood, each only if no send
before it was accepted; or the hops of a broadcast. The call sends the hopped
message over each of them in turn and changes nothing else.
-/

set_option autoImplicit false

namespace MsgBus

/-- The message is sent over each of the hops in turn. -/
def sendAll (tr : Transport) (msgId : MessageId) (message : MessageView) :
    List Sent → List Hop → List Sent
  | sent, [] => sent
  | sent, hop::hops => sendAll tr msgId message (tr.send sent hop msgId message).2 hops

section SendAll

variable (tr : Transport) (msgId : MessageId) (message : MessageView)

theorem sendAll_append (sent : List Sent) (hs ks : List Hop) :
    sendAll tr msgId message sent (hs++ks) =
      sendAll tr msgId message (sendAll tr msgId message sent hs) ks := by
  induction hs generalizing sent with
  | nil => rfl
  | cons h hs ih => exact ih _

/-- What is sent comes after what was sent before, over these hops. -/
theorem sendAll_parts (sent : List Sent) (hops : List Hop) :
    ∃ new, sendAll tr msgId message sent hops = sent++new ∧ new.map (·.hop) = hops ∧
      ∀ x ∈ new, x.msgId = msgId ∧ x.message = message := by
  induction hops generalizing sent with
  | nil => exact ⟨[],by simp [sendAll],rfl,by simp⟩
  | cons hop hops ih =>
    obtain ⟨new,heq,hhops,hall⟩ := ih (tr.send sent hop msgId message).2
    refine ⟨⟨hop,msgId,message,tr sent hop msgId message⟩::new,?_,by simp [hhops],?_⟩
    · rw [sendAll, heq]
      exact List.append_assoc sent _ new
    · intro x hx
      rcases List.mem_cons.mp hx with rfl | hx
      · exact ⟨rfl,rfl⟩
      · exact hall x hx

end SendAll

/-- The hops that were used since the log was this one. -/
def hopsSince (before after : List Sent) : List Hop := (after.drop before.length).map (·.hop)

theorem hopsSince_sendAll (tr : Transport) (msgId : MessageId) (message : MessageView)
    (sent : List Sent) (hops : List Hop) :
    hopsSince sent (sendAll tr msgId message sent hops) = hops := by
  obtain ⟨new,heq,hhops,-⟩ := sendAll_parts tr msgId message sent hops
  rw [hopsSince, heq, List.drop_left, hhops]

def Hop.isPending : Hop → Bool
  | .pending _ => true
  | _ => false

/-- What was sent to pending connections. -/
def pendingSent (sent : List Sent) : List Sent := sent.filter (fun x => x.hop.isPending)

theorem mem_pendingSent {sent : List Sent} {x : Sent} :
    x ∈ pendingSent sent ↔ x ∈ sent ∧ x.hop.isPending = true := List.mem_filter

theorem pendingSent_send (tr : Transport) (sent : List Sent) {hop : Hop} (msgId : MessageId)
    (message : MessageView) (h : hop.isPending = false) :
    pendingSent (tr.send sent hop msgId message).2 = pendingSent sent := by
  simp [pendingSent, Transport.send, List.filter_append, h]

theorem pendingSent_sendAll (tr : Transport) (msgId : MessageId) (message : MessageView)
    (sent : List Sent) {hops : List Hop} (h : ∀ hop ∈ hops, hop.isPending = false) :
    pendingSent (sendAll tr msgId message sent hops) = pendingSent sent := by
  induction hops generalizing sent with
  | nil => rfl
  | cons hop hops ih =>
    rw [sendAll, ih _ (fun k hk => h k (List.mem_cons_of_mem _ hk))]
    exact pendingSent_send tr sent msgId message (h hop (by simp))

namespace AdjacentNode

/-- The connection of an allowed message. -/
def Takes (node : AdjacentNode) (msgId : MessageId) : Prop :=
  node.isAllowed msgId = true ∧ node.connection.isSome = true

instance (node : AdjacentNode) (msgId : MessageId) : Decidable (node.Takes msgId) :=
  inferInstanceAs (Decidable (_ ∧ _))

end AdjacentNode

namespace Router

section Hops

variable (r : Router) (msgId : MessageId) (incomingId targetId : EndpointId)

/-- The hop over the connection to the parent, if there is one. -/
def parentHops : List Hop := if r.parentRouter.connection.isSome then [.parent] else []

/-- The hop to a node, if it is there, connected, and allows the message. -/
def nodeHops (id : EndpointId) : List Hop :=
  match r.nodes.find id with
  | some node => if node.Takes msgId then [.node id] else []
  | none => []

def indexedHops : List Hop :=
  if r.nodes.findOutgoing targetId = 0 then []
  else if r.nodes.findOutgoing targetId = r.getId then r.parentHops
  else r.nodeHops msgId (r.nodes.findOutgoing targetId)

/-- The hops to the nodes with such an entry. -/
def entryHops (sel : EndpointId × AdjacentNode → Bool)
    (es : List (EndpointId × AdjacentNode)) : List Hop :=
  (es.filter sel).map (fun e => .node e.1)

def routerHops (es : List (EndpointId × AdjacentNode)) : List Hop :=
  entryHops (fun e => incomingId ≠ e.1 ∧ e.2.maybeRouter ∧ e.2.connection.isSome) es

def floodHops : List Hop :=
  routerHops incomingId r.nodes.nodes.entries ++
    if incomingId = r.getId then [] else r.parentHops

def allowedHops (es : List (EndpointId × AdjacentNode)) : List Hop :=
  entryHops (fun e => incomingId ≠ e.1 ∧ e.2.Takes msgId) es

def broadcastHops : List Hop :=
  allowedHops msgId incomingId r.nodes.nodes.entries ++
    if incomingId = r.getId then [] else r.parentHops

end Hops

section Members

variable {r : Router} {msgId : MessageId} {incomingId targetId id : EndpointId}

@[simp] theorem node_mem_parentHops : .node id ∉ r.parentHops := by
  unfold parentHops
  split_ifs <;> simp

@[simp] theorem parent_mem_parentHops :
    .parent ∈ r.parentHops ↔ r.parentRouter.connection.isSome = true := by
  unfold parentHops
  split_ifs with h <;> simp [h]

theorem mem_nodeHops {hop : Hop} : hop ∈ r.nodeHops msgId id ↔
    hop = .node id ∧ ∃ node, r.nodes.find id = some node ∧ node.Takes msgId := by
  unfold nodeHops
  cases hf : r.nodes.find id with
  | none => simp
  | some node => by_cases ht : node.Takes msgId <;> simp [ht]

theorem mem_entryHops {sel : EndpointId × AdjacentNode → Bool} :
    .node id ∈ entryHops sel r.nodes.nodes.entries ↔
      ∃ node, r.nodes.find id = some node ∧ sel (id,node) = true := by
  unfold entryHops
  simp only [List.mem_map, List.mem_filter, Hop.node.injEq]
  constructor
  · rintro ⟨⟨id',node⟩,⟨hmem,hsel⟩,rfl⟩
    exact ⟨node,OrderedMap.find?_eq_some.mpr hmem,hsel⟩
  · rintro ⟨node,hf,hsel⟩
    exact ⟨(id,node),⟨OrderedMap.find?_eq_some.mp hf,hsel⟩,rfl⟩

@[simp] theorem parent_mem_entryHops {sel : EndpointId × AdjacentNode → Bool}
    {es : List (EndpointId × AdjacentNode)} : .parent ∉ entryHops sel es := by
  simp [entryHops]

theorem pending_not_mem_parentHops {link : ℕ} : .pending link ∉ r.parentHops := by
  unfold parentHops
  split_ifs <;> simp

theorem pending_not_mem_entryHops {sel : EndpointId × AdjacentNode → Bool}
    {es : List (EndpointId × AdjacentNode)} {link : ℕ} : .pending link ∉ entryHops sel es := by
  simp [entryHops]

theorem pending_not_mem_indexedHops {link : ℕ} :
    .pending link ∉ r.indexedHops msgId targetId := by
  unfold indexedHops
  split_ifs
  · simp
  · exact pending_not_mem_parentHops
  · simp [mem_nodeHops]

theorem pending_not_mem_floodHops {link : ℕ} : .pending link ∉ r.floodHops incomingId := by
  unfold floodHops routerHops
  rw [List.mem_append]
  rintro (h | h)
  · exact pending_not_mem_entryHops h
  · split_ifs at h
    · cases h
    · exact pending_not_mem_parentHops h

theorem pending_not_mem_broadcastHops {link : ℕ} :
    .pending link ∉ r.broadcastHops msgId incomingId := by
  unfold broadcastHops allowedHops
  rw [List.mem_append]
  rintro (h | h)
  · exact pending_not_mem_entryHops h
  · split_ifs at h
    · cases h
    · exact pending_not_mem_parentHops h

/-- Each node is met once. -/
theorem entryHops_nodup (sel : EndpointId × AdjacentNode → Bool) :
    (entryHops sel r.nodes.nodes.entries).Nodup := by
  have hs := (r.nodes.nodes.sorted.filter sel).imp (fun h => ne_of_lt h)
  exact List.pairwise_map.mpr (hs.imp (fun h heq => h (Hop.node.inj heq)))

theorem node_mem_floodHops : .node id ∈ r.floodHops incomingId ↔
    ∃ node, r.nodes.find id = some node ∧ incomingId ≠ id ∧ node.maybeRouter = true ∧
      node.connection.isSome = true := by
  unfold floodHops routerHops
  rw [List.mem_append, mem_entryHops]
  split_ifs <;> simp

theorem parent_mem_floodHops : .parent ∈ r.floodHops incomingId ↔
    incomingId ≠ r.getId ∧ r.parentRouter.connection.isSome = true := by
  unfold floodHops routerHops
  split_ifs with h <;> simp [h]

theorem node_mem_broadcastHops : .node id ∈ r.broadcastHops msgId incomingId ↔
    ∃ node, r.nodes.find id = some node ∧ incomingId ≠ id ∧ node.Takes msgId := by
  unfold broadcastHops allowedHops
  rw [List.mem_append, mem_entryHops]
  split_ifs <;> simp

theorem parent_mem_broadcastHops : .parent ∈ r.broadcastHops msgId incomingId ↔
    incomingId ≠ r.getId ∧ r.parentRouter.connection.isSome = true := by
  unfold broadcastHops allowedHops
  split_ifs with h <;> simp [h]

/-- A broadcast tries each of its hops once. -/
theorem broadcastHops_nodup : (r.broadcastHops msgId incomingId).Nodup := by
  have hparent : (if incomingId = r.getId then [] else r.parentHops).Nodup := by
    unfold parentHops
    split_ifs <;> simp
  refine List.nodup_append.mpr ⟨entryHops_nodup _,hparent,?_⟩
  rintro hop hnode hop' hpar rfl
  cases hop with
  | node id =>
    revert hpar
    split_ifs <;> simp
  | parent => exact parent_mem_entryHops hnode
  | pending link => simp [allowedHops, entryHops] at hnode

theorem node_mem_indexedHops : .node id ∈ r.indexedHops msgId targetId ↔
    r.nodes.findOutgoing targetId = id ∧ id ≠ 0 ∧ id ≠ r.getId ∧
      ∃ node, r.nodes.find id = some node ∧ node.Takes msgId := by
  unfold indexedHops
  split_ifs with h0 ho
  · simp only [List.not_mem_nil, false_iff]
    rintro ⟨rfl,h,-⟩
    exact h h0
  · simp only [node_mem_parentHops, false_iff]
    rintro ⟨rfl,-,h,-⟩
    exact h ho
  · rw [mem_nodeHops]
    constructor
    · rintro ⟨h,hnode⟩
      obtain rfl := Hop.node.inj h
      exact ⟨rfl,h0,ho,hnode⟩
    · rintro ⟨rfl,-,-,hnode⟩
      exact ⟨rfl,hnode⟩

theorem parent_mem_indexedHops : .parent ∈ r.indexedHops msgId targetId ↔
    r.nodes.findOutgoing targetId ≠ 0 ∧ r.nodes.findOutgoing targetId = r.getId ∧
      r.parentRouter.connection.isSome = true := by
  unfold indexedHops
  split_ifs with h0 ho
  · simp [h0]
  · rw [parent_mem_parentHops]
    exact ⟨fun h => ⟨h0,ho,h⟩,fun h => h.2.2⟩
  · simp [ho, mem_nodeHops]

end Members

section Stages

variable (r : Router) (tr : Transport) (now : ℕ) (sent : List Sent) (msgId : MessageId)
  (incomingId : EndpointId) (message : MessageView)

/-- A send to the parent without a connection counts as accepted. -/
def ParentAccepts : Prop :=
  r.parentRouter.connection.isSome = true → tr sent .parent msgId message = true

def NodeAccepts (id : EndpointId) : Prop :=
  .node id ∈ r.nodeHops msgId id ∧ tr sent (.node id) msgId message = true

/-- The endpoint index has a hop for the target and the send over it is
accepted. -/
def IndexAccepts : Prop :=
  r.nodes.findOutgoing message.targetId ≠ 0 ∧
    (r.nodes.findOutgoing message.targetId = r.getId ∧ r.ParentAccepts tr sent msgId message ∨
      r.nodes.findOutgoing message.targetId ≠ r.getId ∧
        r.NodeAccepts tr sent msgId message (r.nodes.findOutgoing message.targetId))

instance : Decidable (r.ParentAccepts tr sent msgId message) :=
  inferInstanceAs (Decidable (_ → _))

instance (id : EndpointId) : Decidable (r.NodeAccepts tr sent msgId message id) :=
  inferInstanceAs (Decidable (_ ∧ _))

instance : Decidable (r.IndexAccepts tr sent msgId message) :=
  inferInstanceAs (Decidable (_ ∧ (_ ∨ _)))

/-- The log once the hop of the endpoint index has been tried. -/
def afterIndex : List Sent :=
  sendAll tr msgId message sent (r.indexedHops msgId message.targetId)

/-- No send over a single hop is accepted, so that the message is flooded. -/
def Unclaimed : Prop :=
  ¬ r.IndexAccepts tr sent msgId message ∧
    ¬ r.NodeAccepts tr (r.afterIndex tr sent msgId message) msgId message message.targetId

instance : Decidable (r.Unclaimed tr sent msgId message) := inferInstanceAs (Decidable (_ ∧ _))

/-- The hops of a call of `_route_message`. -/
def routeHops : List Hop :=
  if message.tooManyHops then []
  else if message.targetId = broadcastEndpointId then r.broadcastHops msgId incomingId
  else r.indexedHops msgId message.targetId ++
    if r.IndexAccepts tr sent msgId (hopped message) then []
    else r.nodeHops msgId message.targetId ++
      if r.Unclaimed tr sent msgId (hopped message) ∧
          r.nodes.isDisconnected now message.targetId = false then
        r.floodHops incomingId
      else []

theorem parentSend_eq : r.parentRouter.send tr sent msgId message =
    (decide (r.ParentAccepts tr sent msgId message),
      sendAll tr msgId message sent r.parentHops) := by
  unfold ParentRouter.send parentHops ParentAccepts
  by_cases h : r.parentRouter.connection.isSome = true
  · simp [h, sendAll, Transport.send]
  · simp [h, sendAll]

/-- A node that may be sent to only if it allows the message. -/
theorem allowedSend_eq {id : EndpointId} {node : AdjacentNode}
    (hf : r.nodes.find id = some node) :
    (if node.isAllowed msgId then forwardTo tr sent msgId message node id else (false,sent)) =
      (decide (r.NodeAccepts tr sent msgId message id),
        sendAll tr msgId message sent (r.nodeHops msgId id)) := by
  unfold forwardTo AdjacentNode.send NodeAccepts nodeHops AdjacentNode.Takes
  by_cases ha : node.isAllowed msgId = true <;> by_cases hc : node.connection.isSome = true <;>
    simp [hf, ha, hc, sendAll, Transport.send]

theorem routeIndexed_eq : r.routeIndexed tr sent msgId message =
    (decide (r.IndexAccepts tr sent msgId message),r.afterIndex tr sent msgId message) := by
  unfold routeIndexed IndexAccepts afterIndex indexedHops
  by_cases h0 : r.nodes.findOutgoing message.targetId = 0
  · simp [h0, sendAll]
  by_cases ho : r.nodes.findOutgoing message.targetId = r.getId
  · have hown : r.getId ≠ 0 := ho ▸ h0
    rw [if_pos h0, if_pos ho, parentSend_eq, if_neg h0, if_pos ho]
    simp only [ho, hown, not_true_eq_false, ne_eq, not_false_eq_true, true_and, false_and,
      or_false]
  · rw [if_pos h0, if_neg ho, if_neg h0, if_neg ho]
    simp only [ne_eq, h0, not_false_eq_true, ho, true_and, false_and, false_or]
    cases hf : r.nodes.find (r.nodes.findOutgoing message.targetId) with
    | none => simp [NodeAccepts, nodeHops, hf, sendAll]
    | some node => exact r.allowedSend_eq tr sent msgId message hf

theorem directLoop_absent {es : List (EndpointId × AdjacentNode)}
    (h : ∀ e ∈ es, e.1 ≠ message.targetId) (acc : Bool × List Sent) :
    routeDirectLoop tr msgId message es acc = acc := by
  induction es generalizing acc with
  | nil => rfl
  | cons e es ih =>
    rw [routeDirectLoop, if_neg (h e (by simp))]
    exact ih (fun d hd => h d (List.mem_cons_of_mem _ hd)) acc

theorem directLoop_present {es : List (EndpointId × AdjacentNode)} {node : AdjacentNode}
    (hs : es.Pairwise (fun a b => a.1 < b.1)) (h : (message.targetId,node) ∈ es) :
    routeDirectLoop tr msgId message es (false,sent) =
      if node.isAllowed msgId then forwardTo tr sent msgId message node message.targetId
      else (false,sent) := by
  induction es with
  | nil => simp at h
  | cons e es ih =>
    obtain ⟨he,hes⟩ := List.pairwise_cons.mp hs
    rw [routeDirectLoop]
    rcases List.mem_cons.mp h with rfl | h
    · rw [if_pos rfl]
      exact directLoop_absent tr msgId message (fun d hd => (ne_of_lt (he d hd)).symm) _
    · rw [if_neg (ne_of_lt (he _ h))]
      exact ih hes h

theorem routeDirect_eq : r.routeDirect tr sent msgId message =
    (decide (r.NodeAccepts tr sent msgId message message.targetId),
      sendAll tr msgId message sent (r.nodeHops msgId message.targetId)) := by
  cases hf : r.nodes.find message.targetId with
  | none =>
    rw [routeDirect, directLoop_absent tr msgId message (OrderedMap.find?_eq_none.mp hf)]
    simp [NodeAccepts, nodeHops, hf, sendAll]
  | some node =>
    rw [routeDirect, directLoop_present tr sent msgId message r.nodes.nodes.sorted
      (OrderedMap.find?_eq_some.mp hf)]
    exact r.allowedSend_eq tr sent msgId message hf

theorem floodLoop_sent (es : List (EndpointId × AdjacentNode)) (acc : Bool × List Sent) :
    (routeFloodLoop tr msgId incomingId message es acc).2 =
      sendAll tr msgId message acc.2 (routerHops incomingId es) := by
  induction es generalizing acc with
  | nil => rfl
  | cons e es ih =>
    rw [routeFloodLoop, ih]
    unfold routerHops entryHops AdjacentNode.tryRoute AdjacentNode.send
    by_cases hi : incomingId = e.1
    · simp [hi]
    by_cases hm : e.2.maybeRouter = true <;> by_cases hc : e.2.connection.isSome = true <;>
      simp [hi, hm, hc, sendAll]

theorem routeFlood_sent : (r.routeFlood tr sent msgId incomingId message).2 =
    sendAll tr msgId message sent (r.floodHops incomingId) := by
  unfold routeFlood floodHops
  by_cases hi : incomingId = r.getId
  · rw [if_neg (not_not.mpr hi), if_pos hi, floodLoop_sent, List.append_nil]
  · rw [if_pos hi, if_neg hi, parentSend_eq, floodLoop_sent, sendAll_append]

theorem broadcastLoop_sent (es : List (EndpointId × AdjacentNode)) :
    routeBroadcastLoop tr msgId incomingId message es sent =
      sendAll tr msgId message sent (allowedHops msgId incomingId es) := by
  induction es generalizing sent with
  | nil => rfl
  | cons e es ih =>
    rw [routeBroadcastLoop, ih]
    unfold allowedHops entryHops forwardTo AdjacentNode.send AdjacentNode.Takes
    by_cases hi : incomingId = e.1
    · simp [hi]
    by_cases ha : e.2.isAllowed msgId = true <;> by_cases hc : e.2.connection.isSome = true <;>
      simp [hi, ha, hc, sendAll]

theorem routeBroadcast_sent : (r.routeBroadcastMessage tr sent msgId incomingId message).2 =
    sendAll tr msgId message sent (r.broadcastHops msgId incomingId) := by
  unfold routeBroadcastMessage broadcastHops hasId
  by_cases hi : r.getId = incomingId
  · simp [hi, broadcastLoop_sent]
  · simp [hi, Ne.symm hi, broadcastLoop_sent, parentSend_eq, sendAll_append]

theorem routeTargeted_sent :
    (r.routeTargetedMessage tr now sent msgId incomingId message).2 =
      sendAll tr msgId message sent (r.indexedHops msgId message.targetId ++
        if r.IndexAccepts tr sent msgId message then []
        else r.nodeHops msgId message.targetId ++
          if r.Unclaimed tr sent msgId message ∧
              r.nodes.isDisconnected now message.targetId = false then
            r.floodHops incomingId
          else []) := by
  rw [routeTargetedMessage, routeIndexed_eq, sendAll_append]
  by_cases hi : r.IndexAccepts tr sent msgId message
  · simp [hi, afterIndex, sendAll]
  rw [if_neg (by simpa using hi), if_neg hi, routeDirect_eq, sendAll_append]
  by_cases hn : r.NodeAccepts tr (r.afterIndex tr sent msgId message) msgId message
      message.targetId
  · rw [if_pos (by simpa using hn), if_neg (fun h => h.1.2 hn)]
    rfl
  rw [if_neg (by simpa using hn)]
  by_cases hd : r.nodes.isDisconnected now message.targetId = true
  · rw [if_pos hd, if_neg (fun h => by simp [hd] at h)]
    rfl
  · rw [if_neg hd, if_pos ⟨⟨hi,hn⟩,by simpa using hd⟩, routeFlood_sent]
    rfl

/-- A call of `_route_message` sends the hopped message over its hops. -/
theorem routeMessage_sent : (r.routeMessage tr now sent msgId incomingId message).2 =
    sendAll tr msgId (hopped message) sent
      (r.routeHops tr now sent msgId incomingId message) := by
  unfold routeMessage routeHops
  by_cases hh : message.tooManyHops = true
  · rw [if_pos hh, if_pos hh]
    rfl
  rw [if_neg hh, if_neg hh]
  by_cases ht : message.targetId = broadcastEndpointId
  · rw [if_neg (not_not.mpr ht), if_pos ht]
    exact r.routeBroadcast_sent tr sent msgId incomingId (hopped message)
  · rw [if_pos ht, if_neg ht]
    exact r.routeTargeted_sent tr now sent msgId incomingId (hopped message)

/-- The message is flooded: it is targeted, its target has not gone lately,
and no send by the index or to the node of the target is accepted. -/
def Floods : Prop :=
  message.tooManyHops = false ∧ message.targetId ≠ broadcastEndpointId ∧
    r.nodes.isDisconnected now message.targetId = false ∧
    r.Unclaimed tr sent msgId (hopped message)

variable {r tr now sent msgId incomingId message} in
theorem mem_routeHops {hop : Hop} : hop ∈ r.routeHops tr now sent msgId incomingId message ↔
    message.tooManyHops = false ∧
      (message.targetId = broadcastEndpointId ∧ hop ∈ r.broadcastHops msgId incomingId ∨
        message.targetId ≠ broadcastEndpointId ∧
          (hop ∈ r.indexedHops msgId message.targetId ∨
            ¬ r.IndexAccepts tr sent msgId (hopped message) ∧
              hop ∈ r.nodeHops msgId message.targetId) ∨
        r.Floods tr now sent msgId message ∧ hop ∈ r.floodHops incomingId) := by
  unfold routeHops Floods
  by_cases hh : message.tooManyHops = true
  · simp [hh]
  by_cases ht : message.targetId = broadcastEndpointId
  · simp [hh, ht]
  by_cases hi : r.IndexAccepts tr sent msgId (hopped message)
  · have hu : ¬ r.Unclaimed tr sent msgId (hopped message) := fun h => h.1 hi
    simp [hh, ht, hi, hu]
  rw [if_neg hh, if_neg ht, if_neg hi, List.mem_append, List.mem_append]
  by_cases hfl : r.Unclaimed tr sent msgId (hopped message) ∧
      r.nodes.isDisconnected now message.targetId = false
  · simp [hh, ht, hi, hfl.1, hfl.2, or_assoc]
  · have hno : ¬ (r.nodes.isDisconnected now message.targetId = false ∧
        r.Unclaimed tr sent msgId (hopped message)) := fun h => hfl h.symm
    simp [hh, ht, hi, hfl, hno]

variable {r tr now sent msgId incomingId message} in
/-- Nothing is routed to a pending connection. -/
theorem routeHops_adjacent {hop : Hop}
    (h : hop ∈ r.routeHops tr now sent msgId incomingId message) : hop.isPending = false := by
  cases hop with
  | node id => rfl
  | parent => rfl
  | pending link =>
    obtain ⟨-,⟨-,hb⟩ | ⟨-,hindexed | ⟨-,hdirect⟩⟩ | ⟨-,hflood⟩⟩ := mem_routeHops.mp h
    · exact absurd hb pending_not_mem_broadcastHops
    · exact absurd hindexed pending_not_mem_indexedHops
    · simp [mem_nodeHops] at hdirect
    · exact absurd hflood pending_not_mem_floodHops

theorem routeMessage_pendingSent :
    pendingSent (r.routeMessage tr now sent msgId incomingId message).2 = pendingSent sent := by
  rw [routeMessage_sent]
  exact pendingSent_sendAll tr msgId _ sent (fun _ h => routeHops_adjacent h)

theorem routeMessage_hops : hopsSince sent
    (r.routeMessage tr now sent msgId incomingId message).2 =
      r.routeHops tr now sent msgId incomingId message := by
  rw [routeMessage_sent, hopsSince_sendAll]

end Stages

end Router

end MsgBus
