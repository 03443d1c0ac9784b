import MsgBus.Lib.StepRun
import MsgBus.RouteHops
import MsgBus.RouterHandlers
import MsgBus.SampleSerializer

/-!
# Runs of a router

An event is a message from a connection or one part of the maintenance. The
events come in any order: the rounds of `update` are among the runs.
-/

set_option autoImplicit false

namespace MsgBus.RouterRun

open Router

inductive Event where
  | fromNode (clk : Clock) (id : EndpointId) (msgId : MessageId) (age : MessageAge)
      (message : MessageView)
  | fromParent (clk : Clock) (msgId : MessageId) (age : MessageAge) (message : MessageView)
  | addConnection (connection : Connection)
  | handleAccept (clk : Clock) (connection : Connection)
  | handlePending (clk : Clock) (fetched : ℕ → List (MessageId × MessageView))
      (random : ℕ → Block)
  | nodeConnection (id : EndpointId) (usable : Bool) (maxDataSize : Option ℕ)
  | parentConnection (usable : Bool) (maxDataSize : Option ℕ)
  | updateParent (clk : Clock)
  | processBlobs (clk : Clock)
  | sendFlowInfo (serialized : Block)
  | removeTimeouted (clk : Clock)
  | removeDisconnected (clk : Clock)

def connected (connection : Option Connection) (usable : Bool) (maxDataSize : Option ℕ) :
    Option Connection :=
  connection.map (fun connection => { connection with usable, maxDataSize })

/-- A message comes from a connection that is there. -/
def step (env : RouterEnv) (r : Router) : Event → Router
  | .fromNode clk id msgId age message =>
    if (r.nodes.find id).any (fun node => node.connection.isSome) then
      r.handleNodeMessage env clk id msgId age message
    else r
  | .fromParent clk msgId age message =>
    if r.parentRouter.connection.isSome then
      r.handleParentMessage env clk r.parentRouter.confirmedId msgId age message
    else r
  | .addConnection connection => r.addConnection connection
  | .handleAccept clk connection => r.handleAccept clk connection
  | .handlePending clk fetched random => r.handlePending env clk fetched random
  | .nodeConnection id usable maxDataSize =>
    r.modifyNode id (fun node =>
      { node with connection := connected node.connection usable maxDataSize })
  | .parentConnection usable maxDataSize =>
    { r with
      parentRouter := { r.parentRouter with
        connection := connected r.parentRouter.connection usable maxDataSize } }
  | .updateParent clk => r.updateParent env clk
  | .processBlobs clk => r.processBlobs env clk
  | .sendFlowInfo serialized => r.sendFlowInfo env serialized
  | .removeTimeouted clk => r.removeTimeouted clk
  | .removeDisconnected clk => r.removeDisconnected clk

/-- How a router is set up. -/
structure Setup where
  idBase : ℕ
  idCount : ℕ
  instanceId : ℕ
  ownCertificatePem : Block
  passwordIsRequired : Bool

def start (setup : Setup) : Router :=
  .init (.setupFromConfig setup.idBase setup.idCount setup.instanceId) setup.ownCertificatePem
    setup.passwordIsRequired

/-- The router after these events. -/
def after (env : RouterEnv) (setup : Setup) (es : List Event) : Router :=
  StepRun.run (step env) (start setup) es

section Frame

variable {env : RouterEnv} {clk : Clock} {r : Router} {incomingId : EndpointId}
  {message : MessageView} {msgId : MessageId}

/-- The adjacent nodes, the parent and the own id are as before. -/
structure Frame (r r' : Router) : Prop where
  nodes : r'.nodes.nodes = r.nodes.nodes
  parent : r'.parentRouter = r.parentRouter
  own : r'.getId = r.getId

namespace Frame

theorem refl (r : Router) : Frame r r := ⟨rfl,rfl,rfl⟩

theorem trans {r₁ r₂ r₃ : Router} (h : Frame r₁ r₂) (h' : Frame r₂ r₃) : Frame r₁ r₃ :=
  ⟨h'.nodes.trans h.nodes,h'.parent.trans h.parent,h'.own.trans h.own⟩

end Frame

/-- Moreover the pending connections, the ids, what is asked of them and what
was sent to them are as before. -/
structure Unmoved (r r' : Router) : Prop extends Frame r r' where
  pending : r'.nodes.pending = r.nodes.pending
  ids : r'.ids = r.ids
  password : r'.passwordIsRequired = r.passwordIsRequired
  told : pendingSent r'.sent = pendingSent r.sent

namespace Unmoved

theorem refl (r : Router) : Unmoved r r := ⟨.refl r,rfl,rfl,rfl,rfl⟩

theorem trans {r₁ r₂ r₃ : Router} (h : Unmoved r₁ r₂) (h' : Unmoved r₂ r₃) : Unmoved r₁ r₃ :=
  ⟨h.toFrame.trans h'.toFrame,h'.pending.trans h.pending,h'.ids.trans h.ids,
    h'.password.trans h.password,h'.told.trans h.told⟩

theorem foldl {α : Type} {f : Router → α → Router} (h : ∀ r a, Unmoved r (f r a)) (r : Router)
    (as : List α) : Unmoved r (as.foldl f r) := by
  induction as generalizing r with
  | nil => exact refl r
  | cons a as ih => exact (h r a).trans (ih (f r a))

theorem of_blobs {r r' : Router} {blobs : BlobManipulator BufferBlobIo BufferBlobIo}
    (h : Unmoved { r with blobs } r') : Unmoved r r' :=
  ⟨⟨h.nodes,h.parent,h.own⟩,h.pending,h.ids,h.password,h.told⟩

theorem route (r : Router) (msgId : MessageId) (message : MessageView) :
    Unmoved r (r.route env clk msgId incomingId message) :=
  ⟨⟨rfl,rfl,rfl⟩,rfl,rfl,rfl,routeMessage_pendingSent _ _ _ _ _ _ _⟩

theorem respond (r : Router) (msgId : MessageId) (message : MessageView) :
    Unmoved r (r.respond env clk msgId message) := route r msgId message

theorem toParent (r : Router) (msgId : MessageId) (message : MessageView) :
    Unmoved r { r with sent := (r.parentRouter.send env.transport r.sent msgId message).2 } := by
  refine ⟨⟨rfl,rfl,rfl⟩,rfl,rfl,rfl,?_⟩
  unfold ParentRouter.send
  dsimp only
  split_ifs
  · exact pendingSent_send _ _ _ _ rfl
  · rfl

end Unmoved

theorem ping_frame : Unmoved r (r.handlePing env clk message).2 := by
  unfold handlePing
  split
  · exact .respond r _ _
  · exact .refl r

theorem subscribed_frame : Unmoved r (r.handleSubscribed env clk incomingId message).2 := by
  unfold handleSubscribed
  split <;> exact ⟨⟨rfl,rfl,rfl⟩,rfl,rfl,rfl,rfl⟩

theorem notSubscribed_frame : Unmoved r (r.handleNotSubscribed env clk incomingId message).2 := by
  unfold handleNotSubscribed
  split <;> exact ⟨⟨rfl,rfl,rfl⟩,rfl,rfl,rfl,rfl⟩

theorem subscribersQuery_frame : Unmoved r (r.handleSubscribersQuery env clk message).2 := by
  unfold handleSubscribersQuery
  split
  · dsimp only
    split_ifs
    · exact (Unmoved.respond r _ _).trans (.respond _ _ _)
    · exact .respond r _ _
    · exact .respond r _ _
    · exact .refl r
  · exact .refl r

theorem subscriptionsQuery_frame : Unmoved r (r.handleSubscriptionsQuery env clk message).2 := by
  unfold handleSubscriptionsQuery
  refine .foldl (fun r subMsgId => ?_) r _
  split
  · exact .respond r _ _
  · exact .refl r

theorem passwordRequest_frame : Unmoved r (r.handlePasswordRequest env message).2 := by
  unfold handlePasswordRequest
  split_ifs
  · split
    · exact .toParent r _ _
    · exact .refl r
  · exact .refl r

theorem topology_frame (r : Router) (remoteId : EndpointId) (kind : ConnectionKind) :
    Unmoved r (r.respondTopology env clk remoteId kind message) := by
  unfold respondTopology
  split
  · exact .respond r _ _
  · exact .refl r

theorem topologyQuery_frame : Unmoved r (r.handleTopologyQuery env clk message).2 := by
  have h : Unmoved r (r.nodes.nodes.entries.foldl (fun r e =>
      r.respondTopology env clk e.1 (connectionKindOf e.2.connection) message) r) :=
    .foldl (fun r (e : EndpointId × AdjacentNode) => topology_frame r e.1 _) r _
  unfold handleTopologyQuery
  dsimp only
  split_ifs
  · exact h.trans (topology_frame _ _ _)
  · exact h

theorem statistics_frame (r : Router) (hop : Hop) :
    Unmoved r (r.respondStatistics env clk hop message) := by
  unfold respondStatistics
  split
  · exact .respond r _ _
  · exact .refl r

theorem statsQuery_frame : Unmoved r (r.handleStatsQuery env clk message).2 := by
  have hnodes (r : Router) (es : List (EndpointId × AdjacentNode)) : Unmoved r (es.foldl
      (fun r e => if e.2.connection.isSome then
        r.respondStatistics env clk (.node e.1) message else r) r) := by
    refine .foldl (fun r e => ?_) r es
    split_ifs
    · exact statistics_frame r _
    · exact .refl r
  have hparent (r : Router) : Unmoved r (if r.parentRouter.isConfirmed then
      r.respondStatistics env clk .parent message else r) := by
    split_ifs
    · exact statistics_frame r _
    · exact .refl r
  unfold handleStatsQuery
  dsimp only
  split
  · exact (Unmoved.respond r _ _).trans ((hnodes _ _).trans (hparent _))
  · exact (hnodes _ _).trans (hparent _)

theorem blob_frame (r : Router) (c : Completion BufferBlobIo) :
    Unmoved r (r.handleBlob env clk c) := by
  unfold handleBlob
  split
  · dsimp only
    split_ifs <;> exact ⟨⟨rfl,rfl,rfl⟩,rfl,rfl,rfl,rfl⟩
  · exact .refl r

theorem blobFragment_frame : Unmoved r (r.handleBlobFragment env clk message).2 := by
  unfold handleBlobFragment
  dsimp only
  split_ifs
  · exact .of_blobs (.foldl blob_frame _ _)
  · exact ⟨⟨rfl,rfl,rfl⟩,rfl,rfl,rfl,rfl⟩

theorem endpointCertificateQuery_frame :
    Unmoved r (r.handleEndpointCertificateQuery clk message).2 := by
  unfold handleEndpointCertificateQuery
  dsimp only
  split_ifs <;> exact ⟨⟨rfl,rfl,rfl⟩,rfl,rfl,rfl,rfl⟩

theorem blobResend_frame : Unmoved r (r.handleBlobResend env message).2 := by
  unfold handleBlobResend
  split_ifs <;> exact ⟨⟨rfl,rfl,rfl⟩,rfl,rfl,rfl,rfl⟩

theorem blobPrepare_frame : Unmoved r (r.handleBlobPrepare env clk message).2 := by
  unfold handleBlobPrepare
  split_ifs <;> exact ⟨⟨rfl,rfl,rfl⟩,rfl,rfl,rfl,rfl⟩

/-- The special messages that nodes and the parent have in common change
neither the adjacent nodes nor the parent nor the pending connections. -/
theorem common_frame :
    Unmoved r (r.handleSpecialCommon env clk incomingId message msgId).2 := by
  unfold handleSpecialCommon
  split
  · exact ping_frame
  · exact subscribed_frame
  · exact notSubscribed_frame
  · exact notSubscribed_frame
  · exact subscribersQuery_frame
  · exact subscriptionsQuery_frame
  · exact blobFragment_frame
  · exact blobResend_frame
  · exact blobPrepare_frame
  · exact ⟨⟨rfl,rfl,rfl⟩,rfl,rfl,rfl,rfl⟩
  · exact endpointCertificateQuery_frame
  · exact topologyQuery_frame
  · exact statsQuery_frame
  · exact passwordRequest_frame
  all_goals exact .refl r

theorem handleByeBye_connection (node : AdjacentNode) :
    node.handleByeBye.connection = node.connection := by
  unfold AdjacentNode.handleByeBye
  split_ifs <;> rfl

variable (env clk message msgId) in
/-- A special message of a node changes at most that node, which keeps its
connection, and what is beside the nodes. -/
theorem handleSpecial_cases (r : Router) (incomingId : EndpointId) :
    Unmoved r (r.handleSpecial env clk incomingId message msgId).2 ∨
    ∃ f : AdjacentNode → AdjacentNode, (∀ node, (f node).connection = node.connection) ∧
      Unmoved (r.modifyNode incomingId f) (r.handleSpecial env clk incomingId message msgId).2 := by
  have hbye : Unmoved (r.modifyNode incomingId (fun node => node.handleByeBye))
      (r.handleByeBye incomingId message).2 := ⟨⟨rfl,rfl,rfl⟩,rfl,rfl,rfl,rfl⟩
  unfold handleSpecial
  split_ifs
  · unfold handleSpecialFromNode
    split
    · unfold handleNotNotARouter
      split_ifs
      · exact .inr ⟨AdjacentNode.markNotARouter,fun _ => rfl,.refl _⟩
      · exact .inl (.refl r)
    · exact .inr ⟨AdjacentNode.clearBlockList,fun _ => rfl,.refl _⟩
    · exact .inr ⟨AdjacentNode.clearAllowList,fun _ => rfl,.refl _⟩
    · exact .inl ⟨⟨rfl,rfl,rfl⟩,rfl,rfl,rfl,rfl⟩
    · unfold handleMsgAllow
      split
      · rename_i alwMsgId _
        exact .inr ⟨fun node => node.allowMessage alwMsgId,fun _ => rfl,
          ⟨⟨rfl,rfl,rfl⟩,rfl,rfl,rfl,rfl⟩⟩
      · exact .inl (.refl r)
    · unfold handleMsgBlock
      split
      · rename_i blkMsgId _
        split_ifs
        · exact .inr ⟨fun node => node.blockMessage blkMsgId,fun _ => rfl,
            ⟨⟨rfl,rfl,rfl⟩,rfl,rfl,rfl,rfl⟩⟩
        · exact .inl (.refl r)
      · exact .inl (.refl r)
    · exact .inr ⟨_,handleByeBye_connection,hbye⟩
    · exact .inr ⟨_,handleByeBye_connection,hbye⟩
    · exact .inr ⟨_,handleByeBye_connection,hbye⟩
    · exact .inl common_frame
  · exact .inl (.refl r)

end Frame

/-- The router and its nodes have valid ids, and each node has a connection. -/
structure Valid (r : Router) : Prop where
  own : r.getId ≠ 0
  ids : ∀ e ∈ r.nodes.nodes.entries, e.1 ≠ 0
  connections : ∀ e ∈ r.nodes.nodes.entries, e.2.connection.isSome = true

namespace Valid

variable {env : RouterEnv} {clk : Clock} {r r' : Router} {incomingId : EndpointId}
  {message : MessageView} {msgId : MessageId}

theorem start (setup : Setup) : Valid (start setup) := by
  refine ⟨?_,by simp [RouterRun.start, init, OrderedMap.empty],
    by simp [RouterRun.start, init, OrderedMap.empty]⟩
  unfold RouterRun.start init getId RouterIds.routerId RouterIds.setupFromConfig
  split_ifs with h
  · exact h
  · exact one_ne_zero

theorem of_frame (hv : Valid r) (h : Frame r r') : Valid r' := by
  refine ⟨?_,?_,?_⟩
  · rw [h.own]
    exact hv.own
  · rw [h.nodes]
    exact hv.ids
  · rw [h.nodes]
    exact hv.connections

/-- A node is changed but keeps a connection. -/
theorem of_modifyNode (f : AdjacentNode → AdjacentNode)
    (hf : ∀ node, node.connection.isSome = true → (f node).connection.isSome = true)
    (hv : Valid r) : Valid (r.modifyNode incomingId f) := by
  refine ⟨hv.own,fun e he => ?_,fun e he => ?_⟩
  · obtain ⟨d,hd,rfl⟩ := List.mem_map.mp he
    exact hv.ids d hd
  · obtain ⟨d,hd,rfl⟩ := List.mem_map.mp he
    dsimp only
    split_ifs
    · exact hf _ (hv.connections d hd)
    · exact hv.connections d hd

theorem fromNode (hv : Valid r) :
    Valid (r.handleSpecial env clk incomingId message msgId).2 := by
  rcases handleSpecial_cases env clk message msgId r incomingId with h | ⟨f,hf,h⟩
  · exact hv.of_frame h.toFrame
  · exact (hv.of_modifyNode f (fun node hc => (hf node).symm ▸ hc)).of_frame h.toFrame

theorem fromParent (hv : Valid r) :
    Valid (r.handleSpecialFromParent env clk incomingId message msgId).2 := by
  unfold handleSpecialFromParent
  split_ifs
  · exact hv.of_frame common_frame.toFrame
  · exact hv.of_frame ⟨rfl,rfl,rfl⟩

/-- A change of the parent or of what is beside the nodes. -/
theorem of_nodes (hv : Valid r) (hn : r'.nodes.nodes = r.nodes.nodes)
    (hi : r'.getId = r.getId) : Valid r' := by
  refine ⟨?_,?_,?_⟩
  · rw [hi]
    exact hv.own
  · rw [hn]
    exact hv.ids
  · rw [hn]
    exact hv.connections

theorem fromParentSpecial (hv : Valid r) :
    Valid (r.handleSpecialParentMessage env clk msgId message) := by
  unfold handleSpecialParentMessage
  split
  · exact hv
  · exact hv
  · exact hv
  · exact hv.of_nodes rfl rfl
  · dsimp only
    split_ifs
    · exact hv.fromParent
    · exact hv.fromParent.of_frame ⟨rfl,rfl,rfl⟩

theorem nextIdScan_idBase {hasNodeId : EndpointId → Bool} {seqOrig : EndpointId} {fuel : ℕ}
    {ids : RouterIds} {next : EndpointId × RouterIds}
    (h : RouterIds.nextIdScan hasNodeId seqOrig fuel ids = some next) :
    next.2.idBase = ids.idBase := by
  induction fuel generalizing ids with
  | zero => simp [RouterIds.nextIdScan] at h
  | succ fuel ih =>
    rw [RouterIds.nextIdScan] at h
    by_cases hused : hasNodeId ids.idSequence = true
    · rw [if_pos hused] at h
      dsimp only at h
      split_ifs at h
      · have hbase := ih h
        exact hbase
      · obtain rfl := Option.some.inj h
        rfl
      · have hbase := ih h
        exact hbase
    · rw [if_neg hused] at h
      obtain rfl := Option.some.inj h
      rfl

theorem assignId_frame (env : RouterEnv) (r : Router) (link : ℕ) :
    Frame r (r.assignId env link) := by
  unfold assignId RouterIds.getNextId
  split
  · exact .refl r
  · rename_i nextId ids h
    have hbase : ids.idBase = r.ids.idBase := nextIdScan_idBase h
    dsimp only
    split_ifs <;> exact ⟨rfl,rfl,hbase⟩

theorem pendingMessage_frame (env : RouterEnv) (r : Router) (pending : RouterPending)
    (msgId : MessageId) (message : MessageView) :
    Frame r (r.handlePendingMessage env pending msgId message).2 ∧
      (r.handlePendingMessage env pending msgId message).1.connection = pending.connection := by
  unfold handlePendingMessage
  by_cases hs : isSpecialMessage msgId = true
  · rw [if_pos hs]
    split
    · exact ⟨assignId_frame env r _,rfl⟩
    · exact ⟨.refl r,rfl⟩
    · exact ⟨.refl r,rfl⟩
    · by_cases hm : env.matchesEncryptedSharedPassword pending.nonce message.data = true
      · rw [if_pos hm]
        exact ⟨.refl r,rfl⟩
      · rw [if_neg hm]
        exact ⟨.refl r,rfl⟩
    · exact ⟨.refl r,rfl⟩
  · rw [if_neg hs]
    exact ⟨.refl r,rfl⟩

theorem updatePending_frame (env : RouterEnv) (clk : Clock) (random : Block)
    (fetched : List (MessageId × MessageView)) (pending : RouterPending) (r : Router) :
    Frame r (updatePending env clk random fetched pending r).2 ∧
      (updatePending env clk random fetched pending r).1.connection = pending.connection := by
  induction fetched generalizing pending r with
  | nil =>
    unfold updatePending RouterPending.tryRequestPassword
    split_ifs <;> exact ⟨⟨rfl,rfl,rfl⟩,rfl⟩
  | cons a rest ih =>
    obtain ⟨hr,hc⟩ := pendingMessage_frame env r pending a.1 a.2
    obtain ⟨hr',hc'⟩ := ih (r.handlePendingMessage env pending a.1 a.2).1
      (r.handlePendingMessage env pending a.1 a.2).2
    exact ⟨hr.trans hr',hc'.trans hc⟩

/-- A pending connection with a valid id becomes a node. -/
theorem of_adopt {pending : RouterPending} (hv : Valid r) (hid : pending.id ≠ 0)
    (hc : pending.connection.isSome = true) : Valid (r.adoptPending env pending).2 := by
  refine ⟨hv.own,fun e he => ?_,fun e he => ?_⟩
  · rcases OrderedMap.mem_assignIn he with rfl | he
    · exact hid
    · exact hv.ids e he
  · rcases OrderedMap.mem_assignIn he with rfl | he
    · exact hc
    · exact hv.connections e he

theorem of_pendingLoop (fetched : ℕ → List (MessageId × MessageView)) (random : ℕ → Block)
    (ps : List RouterPending) (hv : Valid r) :
    Valid (handlePendingLoop env clk fetched random ps r).2 := by
  induction ps generalizing r with
  | nil => exact hv
  | cons pending rest ih =>
    rw [handlePendingLoop]
    split_ifs with hremove
    · exact ih hv
    · obtain ⟨hr,hc⟩ := updatePending_frame env clk (random pending.link)
        (fetched pending.link) pending r
      have hsome : pending.connection.isSome = true := by
        cases hp : pending.connection with
        | none => simp [RouterPending.shouldBeRemoved, hp] at hremove
        | some c => rfl
      dsimp only
      split_ifs with hadopt
      · refine ih ((hv.of_frame hr).of_adopt ?_ (by rw [hc, hsome]))
        have hvalid := (Bool.and_eq_true_iff.mp (Bool.and_eq_true_iff.mp hadopt).1).1
        simpa [isValidId] using hvalid
      · exact ih (hv.of_frame hr)

theorem of_timeouted (hv : Valid r) : Valid (r.removeTimeouted clk) := by
  have hfold (n : RouterNodes) (es : List (EndpointId × RouterEndpointInfo)) :
      (es.foldl (fun n e => RouterNodes.markDisconnected
        { n with endpointIdx := n.endpointIdx.erase e.1 } clk.now e.1) n).nodes = n.nodes := by
    induction es generalizing n with
    | nil => rfl
    | cons e es ih => exact ih _
  exact hv.of_nodes (hfold _ _) rfl

/-- The nodes without a connection are dropped. -/
theorem of_disconnected (hv : Valid r) : Valid (r.removeDisconnected clk) := by
  have hfold (n : RouterNodes) (es : List (EndpointId × AdjacentNode)) :
      (es.foldl (fun n e => n.markDisconnected clk.now e.1) n).nodes = n.nodes := by
    induction es generalizing n with
    | nil => rfl
    | cons e es ih => exact ih _
  have hmem {e : EndpointId × AdjacentNode}
      (he : e ∈ (r.removeDisconnected clk).nodes.nodes.entries) :
      e.2.shouldDisconnect = false ∧ ∃ d ∈ r.nodes.nodes.entries, d.1 = e.1 := by
    unfold removeDisconnected RouterNodes.removeDisconnected at he
    rw [hfold] at he
    obtain ⟨hin,hkeep⟩ := List.mem_filter.mp he
    obtain ⟨d,hd,rfl⟩ := List.mem_map.mp hin
    exact ⟨by simpa using hkeep,d,hd,rfl⟩
  refine ⟨hv.own,fun e he => ?_,fun e he => ?_⟩
  · obtain ⟨-,d,hd,hid⟩ := hmem he
    exact hid ▸ hv.ids d hd
  · obtain ⟨hkeep,-⟩ := hmem he
    unfold AdjacentNode.shouldDisconnect at hkeep
    cases hc : e.2.connection with
    | none => simp [hc] at hkeep
    | some c => rfl

theorem of_processBlobs (hv : Valid r) : Valid (r.processBlobs env clk) := by
  unfold processBlobs
  dsimp only
  split_ifs <;> exact hv.of_nodes rfl rfl

theorem of_step (hv : Valid r) (e : Event) : Valid (step env r e) := by
  cases e with
  | fromNode clk id msgId age message =>
    rw [step]
    split_ifs
    · unfold handleNodeMessage
      dsimp only
      split_ifs
      · exact hv.fromNode
      · exact hv.fromNode
      · exact hv.fromNode.of_nodes rfl rfl
    · exact hv
  | fromParent clk msgId age message =>
    rw [step]
    split_ifs
    · unfold handleParentMessage
      dsimp only
      split_ifs
      · exact hv.fromParentSpecial
      · exact hv
      · exact hv.of_nodes rfl rfl
    · exact hv
  | addConnection connection => exact hv.of_nodes rfl rfl
  | handleAccept clk connection => exact hv.of_nodes rfl rfl
  | handlePending clk fetched random =>
    exact (hv.of_pendingLoop fetched random r.nodes.pending).of_nodes rfl rfl
  | nodeConnection id usable maxDataSize =>
    exact hv.of_modifyNode
      (fun node => { node with connection := connected node.connection usable maxDataSize })
      (fun node h => by simpa [connected] using h)
  | parentConnection usable maxDataSize => exact hv.of_nodes rfl rfl
  | updateParent clk => exact hv.of_nodes rfl rfl
  | processBlobs clk => exact hv.of_processBlobs
  | sendFlowInfo serialized => exact hv.of_nodes rfl rfl
  | removeTimeouted clk => exact hv.of_timeouted
  | removeDisconnected clk => exact hv.of_disconnected

end Valid

/-- The states in which a message can be routed: those between two events and
those in the middle of one, when a special message has been handled. -/
inductive Reachable (env : RouterEnv) (setup : Setup) : Router → Prop where
  | start : Reachable env setup (start setup)
  | step {r : Router} (e : Event) : Reachable env setup r → Reachable env setup (step env r e)
  | fromNode {r : Router} (clk : Clock) (incomingId : EndpointId) (message : MessageView)
      (msgId : MessageId) : Reachable env setup r →
      Reachable env setup (r.handleSpecial env clk incomingId message msgId).2
  | fromParent {r : Router} (clk : Clock) (incomingId : EndpointId) (message : MessageView)
      (msgId : MessageId) : Reachable env setup r →
      Reachable env setup (r.handleSpecialFromParent env clk incomingId message msgId).2

namespace Reachable

variable {env : RouterEnv} {setup : Setup} {r : Router}

theorem valid (h : Reachable env setup r) : Valid r := by
  induction h with
  | start => exact .start setup
  | step e _ ih => exact ih.of_step e
  | fromNode clk incomingId message msgId _ ih => exact ih.fromNode
  | fromParent clk incomingId message msgId _ ih => exact ih.fromParent

theorem of_run (env : RouterEnv) (setup : Setup) (es : List Event) :
    Reachable env setup (after env setup es) :=
  StepRun.run_keeps (fun _ e h => h.step e) .start

end Reachable

/-- The environment of the concrete runs: connections accept everything, a
message type is written as two bytes, no password is known. -/
def sampleEnv : RouterEnv where
  transport _ _ _ _ := true
  serializer := sampleSerializer
  readMessageType
    | [classId,method] => some ⟨.other classId.toNat,.other method.toNat⟩
    | _ => none
  writeMessageType _ := none
  writeTopology _ := none
  routerStatistics _ := none
  connectionStatistics _ _ := none
  matchesEncryptedSharedPassword _ _ := false
  encryptSharedPassword _ := none
  parseX509 _ := true
  getNextIdFuel := 4096

def sampleSetup : Setup := ⟨100,4096,1,[],false⟩

/-- A connection is accepted and announces an id as a router. -/
def joinNode (link : ℕ) (id : EndpointId) : List Event :=
  [.handleAccept sampleClock { link },
    .handlePending sampleClock
      (fun l => if l = link then [(msgbusId .announceId,{ sourceId := id })] else [])
      (fun _ => [])]

/-- The parent is connected and confirms the id. -/
def joinParent (link : ℕ) : List Event :=
  [.addConnection { link },
    .fromParent sampleClock (msgbusId .confirmId) 0 { targetId := sampleSetup.idBase }]

end MsgBus.RouterRun
