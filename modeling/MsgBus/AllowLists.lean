import MsgBus.RouterRun

/-!
# Block and allow lists on every route

The indexed, the direct and the broadcast path ask the node whether it allows
the message. The flood does not: it sends to every node that may be a router.
-/

set_option autoImplicit false

namespace MsgBus.AllowLists

open Router RouterRun

/-- No hop leads to a node that does not allow the message. -/
def HonoursLists (r : Router) (msgId : MessageId) (hops : List Hop) : Prop :=
  ∀ id node, r.nodes.find id = some node → node.isAllowed msgId = false → .node id ∉ hops

/-- Every node that a flood reaches allows the message. -/
def FloodAllowed (r : Router) (msgId : MessageId) (incomingId : EndpointId) : Prop :=
  ∀ id node, r.nodes.find id = some node → id ≠ incomingId → node.maybeRouter = true →
    node.isAllowed msgId = true

section

variable {r : Router} {tr : Transport} {now : ℕ} {sent : List Sent} {msgId : MessageId}
  {incomingId : EndpointId} {message : MessageView}

/-- A node that is tried without a flood allows the message. -/
theorem allowed_of_hop {id : EndpointId} {node : AdjacentNode}
    (hf : r.nodes.find id = some node)
    (hhop : .node id ∈ r.routeHops tr now sent msgId incomingId message) :
    node.isAllowed msgId = true ∨
      r.Floods tr now sent msgId message ∧ .node id ∈ r.floodHops incomingId := by
  have htakes (h : ∃ node, r.nodes.find id = some node ∧ node.Takes msgId) :
      node.isAllowed msgId = true := by
    obtain ⟨node',hf',ht⟩ := h
    obtain rfl := Option.some.inj (hf.symm.trans hf')
    exact ht.1
  obtain ⟨-,⟨-,hb⟩ | ⟨-,hindexed | ⟨-,hdirect⟩⟩ | hflood⟩ := mem_routeHops.mp hhop
  · obtain ⟨node',hf',-,htk⟩ := node_mem_broadcastHops.mp hb
    exact Or.inl (htakes ⟨node',hf',htk⟩)
  · exact Or.inl (htakes (node_mem_indexedHops.mp hindexed).2.2.2)
  · obtain ⟨hid,hnode⟩ := mem_nodeHops.mp hdirect
    exact Or.inl (htakes (Hop.node.inj hid ▸ hnode))
  · exact Or.inr hflood

end

/-- In every reachable state a call of `_route_message` honours the lists of
the nodes exactly if it does not flood the message or all that the flood
reaches allow it. -/
theorem honoursLists_iff {env : RouterEnv} {setup : Setup} {r : Router}
    (hr : Reachable env setup r) (now : ℕ) (sent : List Sent) (msgId : MessageId)
    (incomingId : EndpointId) (message : MessageView) :
    HonoursLists r msgId (hopsSince sent
        (r.routeMessage env.transport now sent msgId incomingId message).2) ↔
      (r.Floods env.transport now sent msgId message → FloodAllowed r msgId incomingId) := by
  rw [routeMessage_hops]
  constructor
  · intro h hfl id node hf hid hm
    by_contra ha
    have hc := hr.valid.connections _ (OrderedMap.find?_eq_some.mp hf)
    exact h id node hf (by simpa using ha)
      (mem_routeHops.mpr ⟨hfl.1,Or.inr (Or.inr
        ⟨hfl,node_mem_floodHops.mpr ⟨node,hf,Ne.symm hid,hm,hc⟩⟩)⟩)
  · intro h id node hf ha hhop
    rcases allowed_of_hop hf hhop with hallowed | ⟨hfl,hin⟩
    · simp [ha] at hallowed
    · obtain ⟨node',hf',hid,hm,-⟩ := node_mem_floodHops.mp hin
      obtain rfl := Option.some.inj (hf.symm.trans hf')
      have hallowed := h hfl id node hf (Ne.symm hid) hm
      simp [ha] at hallowed

/-- Two routers are adjacent, and one of them has blocked a message type. -/
def blocking : List Event :=
  joinNode 1 5 ++ joinNode 2 6 ++
    [.fromNode sampleClock 5 (msgbusId .msgBlkList) 0 { sourceId := 5, data := [1,2] }]

theorem honoursLists_iff_blocking :
    HonoursLists (after sampleEnv sampleSetup blocking) ⟨.other 3,.other 4⟩ (hopsSince []
        ((after sampleEnv sampleSetup blocking).routeMessage sampleEnv.transport 0 []
          ⟨.other 3,.other 4⟩ 6 { sourceId := 6, targetId := 9 }).2) ↔
      ((after sampleEnv sampleSetup blocking).Floods sampleEnv.transport 0 []
          ⟨.other 3,.other 4⟩ { sourceId := 6, targetId := 9 } →
        FloodAllowed (after sampleEnv sampleSetup blocking) ⟨.other 3,.other 4⟩ 6) :=
  honoursLists_iff (.of_run sampleEnv sampleSetup blocking) 0 [] _ _ _

/-- The blocked message is flooded to the router that has blocked it. -/
theorem flood_ignoresLists :
    ¬ HonoursLists (after sampleEnv sampleSetup blocking) ⟨.other 1,.other 2⟩ (hopsSince []
        ((after sampleEnv sampleSetup blocking).routeMessage sampleEnv.transport 0 []
          ⟨.other 1,.other 2⟩ 6 { sourceId := 6, targetId := 9 }).2) := by
  intro h
  have hf : ((after sampleEnv sampleSetup blocking).nodes.find 5).map
      (fun node => node.isAllowed ⟨.other 1,.other 2⟩) = some false := by decide
  obtain ⟨node,hnode,hallowed⟩ := Option.map_eq_some_iff.mp hf
  exact h 5 node hnode hallowed (by decide)

end MsgBus.AllowLists
