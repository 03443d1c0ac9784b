import MsgBus.RouterRun

/-!
# Messages for adjacent nodes

The endpoint index comes before the node with the id of the target. What it
names for that id may be out of date: the message then goes there, and the
node gets it only if that send is refused.
-/

set_option autoImplicit false

namespace MsgBus.DirectDelivery

open Router RouterRun

/-- What a call sends over this hop, after what was sent before it. -/
def sentOver (hop : Hop) (before after : List Sent) : List Sent :=
  (after.drop before.length).filter (fun x => x.hop = hop)

/-- The target is sent the hopped message once, and accepts it. -/
def Delivers (r : Router) (tr : Transport) (now : ℕ) (sent : List Sent) (msgId : MessageId)
    (incomingId : EndpointId) (message : MessageView) : Prop :=
  sentOver (.node message.targetId) sent
      (r.routeMessage tr now sent msgId incomingId message).2 =
    [⟨.node message.targetId,msgId,hopped message,true⟩]

/-- The index names the target itself, or the send it asks for is not
accepted. A missing connection to the parent counts as accepted. -/
def IndexYields (r : Router) (tr : Transport) (sent : List Sent) (msgId : MessageId)
    (message : MessageView) : Prop :=
  r.nodes.findOutgoing message.targetId = message.targetId ∧ message.targetId ≠ r.getId ∨
    ¬ r.IndexAccepts tr sent msgId (hopped message)

/-- The connection to this node takes this message whenever it is sent. -/
def AlwaysAccepts (tr : Transport) (id : EndpointId) (msgId : MessageId)
    (message : MessageView) : Prop :=
  ∀ sent, tr sent (.node id) msgId message = true

section SentOver

variable {tr : Transport} {sent : List Sent} {msgId : MessageId} {message : MessageView}
  {hop : Hop} {hops : List Hop}

theorem sentOver_absent (h : hop ∉ hops) :
    sentOver hop sent (sendAll tr msgId message sent hops) = [] := by
  obtain ⟨new,heq,hhops,-⟩ := sendAll_parts tr msgId message sent hops
  rw [sentOver, heq, List.drop_left, List.filter_eq_nil_iff]
  intro x hx
  have hmem := List.mem_map_of_mem (f := (·.hop)) hx
  rw [hhops] at hmem
  simpa using fun hxh : x.hop = hop => h (hxh ▸ hmem)

theorem sentOver_last (h : hop ∉ hops) :
    sentOver hop sent (sendAll tr msgId message sent (hops++[hop])) =
      [⟨hop,msgId,message,tr (sendAll tr msgId message sent hops) hop msgId message⟩] := by
  have habsent : sentOver hop sent (sendAll tr msgId message sent hops) = [] :=
    sentOver_absent h
  obtain ⟨new,heq,-,-⟩ := sendAll_parts tr msgId message sent hops
  rw [sentOver, heq, List.drop_left] at habsent
  rw [sendAll_append, heq]
  simp [sendAll, Transport.send, sentOver, habsent]

end SentOver

section Hops

variable {r : Router} {tr : Transport} {now : ℕ} {sent : List Sent} {msgId : MessageId}
  {incomingId : EndpointId} {message : MessageView} {node : AdjacentNode}

theorem routeHops_accepted (hops : message.tooManyHops = false)
    (ht : message.targetId ≠ broadcastEndpointId)
    (hi : r.IndexAccepts tr sent msgId (hopped message)) :
    r.routeHops tr now sent msgId incomingId message =
      r.indexedHops msgId message.targetId := by
  unfold routeHops
  rw [if_neg (by simp [hops]), if_neg ht, if_pos hi, List.append_nil]

theorem nodeHops_taken (hf : r.nodes.find message.targetId = some node)
    (htk : node.Takes msgId) :
    r.nodeHops msgId message.targetId = [.node message.targetId] := by
  unfold nodeHops
  rw [hf]
  exact if_pos htk

/-- A message that the index lets through goes to the node of its target and
is not flooded. -/
theorem routeHops_direct (hops : message.tooManyHops = false)
    (ht : message.targetId ≠ broadcastEndpointId)
    (hf : r.nodes.find message.targetId = some node) (htk : node.Takes msgId)
    (ha : AlwaysAccepts tr message.targetId msgId (hopped message))
    (hi : ¬ r.IndexAccepts tr sent msgId (hopped message)) :
    r.routeHops tr now sent msgId incomingId message =
      r.indexedHops msgId message.targetId++[.node message.targetId] := by
  have hclaimed : ¬ r.Unclaimed tr sent msgId (hopped message) := by
    intro hu
    refine hu.2 ⟨?_,ha _⟩
    rw [show (hopped message).targetId = message.targetId from rfl, nodeHops_taken hf htk]
    simp
  unfold routeHops
  rw [if_neg (by simp [hops]), if_neg ht, if_neg hi, if_neg (fun h => hclaimed h.1),
    nodeHops_taken hf htk, List.append_nil]

/-- The index does not try the target before the send that it asks for is
given up. -/
theorem target_not_tried (hi : ¬ r.IndexAccepts tr sent msgId (hopped message))
    (ha : AlwaysAccepts tr message.targetId msgId (hopped message)) :
    .node message.targetId ∉ r.indexedHops msgId message.targetId := by
  intro h
  obtain ⟨hid,h0,ho,hnode⟩ := node_mem_indexedHops.mp h
  refine hi ⟨?_,Or.inr ⟨?_,?_⟩⟩
  · exact fun h => h0 (hid.symm.trans h)
  · exact fun h => ho (hid.symm.trans h)
  · rw [show (hopped message).targetId = message.targetId from rfl, hid]
    exact ⟨mem_nodeHops.mpr ⟨rfl,hnode⟩,ha sent⟩

end Hops

/-- In every reachable state a message for an adjacent node that allows and
accepts it is delivered there once exactly if the endpoint index yields. -/
theorem delivers_iff {env : RouterEnv} {setup : Setup} {r : Router}
    (hr : Reachable env setup r) (now : ℕ) (sent : List Sent) (msgId : MessageId)
    (incomingId : EndpointId) (message : MessageView) (node : AdjacentNode)
    (hf : r.nodes.find message.targetId = some node) (hallowed : node.isAllowed msgId = true)
    (ha : AlwaysAccepts env.transport message.targetId msgId (hopped message))
    (hops : message.tooManyHops = false) :
    Delivers r env.transport now sent msgId incomingId message ↔
      IndexYields r env.transport sent msgId message := by
  have hmem := OrderedMap.find?_eq_some.mp hf
  have ht : message.targetId ≠ broadcastEndpointId := hr.valid.ids _ hmem
  have htk : node.Takes msgId := ⟨hallowed,hr.valid.connections _ hmem⟩
  unfold Delivers IndexYields
  rw [routeMessage_sent]
  by_cases hi : r.IndexAccepts env.transport sent msgId (hopped message)
  · rw [routeHops_accepted hops ht hi]
    by_cases hself : r.nodes.findOutgoing message.targetId = message.targetId ∧
        message.targetId ≠ r.getId
    · have hindexed : r.indexedHops msgId message.targetId = []++[.node message.targetId] := by
        unfold indexedHops
        rw [hself.1, if_neg (hr.valid.ids _ hmem), if_neg hself.2, nodeHops_taken hf htk,
          List.nil_append]
      rw [hindexed, sentOver_last (by simp), ha]
      exact iff_of_true rfl (Or.inl hself)
    · have hno : .node message.targetId ∉ r.indexedHops msgId message.targetId := by
        intro h
        obtain ⟨hid,-,ho,-⟩ := node_mem_indexedHops.mp h
        exact hself ⟨hid,ho⟩
      rw [sentOver_absent hno]
      simp [hself, hi]
  · rw [routeHops_direct hops ht hf htk ha hi, sentOver_last (target_not_tried hi ha), ha]
    exact iff_of_true rfl (Or.inr hi)

theorem delivers_iff_fresh :
    Delivers (after sampleEnv sampleSetup (joinNode 1 7)) sampleEnv.transport 0 []
        ⟨.other 1,.other 2⟩ 0 { sourceId := 3, targetId := 7 } ↔
      IndexYields (after sampleEnv sampleSetup (joinNode 1 7)) sampleEnv.transport []
        ⟨.other 1,.other 2⟩ { sourceId := 3, targetId := 7 } := by
  have hf : ((after sampleEnv sampleSetup (joinNode 1 7)).nodes.find 7).map
      (fun node => node.isAllowed ⟨.other 1,.other 2⟩) = some true := by decide
  obtain ⟨node,hnode,hallowed⟩ := Option.map_eq_some_iff.mp hf
  exact delivers_iff (.of_run sampleEnv sampleSetup (joinNode 1 7)) 0 [] _ 0 _ node hnode
    hallowed (fun _ => rfl) rfl

/-- An endpoint that was reached through the parent joins the router itself. -/
def moved : List Event :=
  joinParent 1 ++
    [.fromParent sampleClock (msgbusId .stillAlive) 0 { sourceId := 7, sequenceNo := 1 }] ++
    joinNode 2 7

/-- A message for it still goes to the parent, and only there. -/
theorem moved_missed :
    ((after sampleEnv sampleSetup moved).nodes.find 7).any
        (fun node => node.Takes ⟨.other 1,.other 2⟩) = true ∧
      ¬ Delivers (after sampleEnv sampleSetup moved) sampleEnv.transport 0 []
        ⟨.other 1,.other 2⟩ 0 { sourceId := 3, targetId := 7 } := by
  unfold Delivers
  decide

end MsgBus.DirectDelivery
