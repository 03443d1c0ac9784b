import Mathlib.Algebra.Order.Group.Multiset
import Mathlib.Data.Fintype.Basic
import Mathlib.Data.Multiset.Filter
import MsgBus.Lib.ParentTree
import MsgBus.SplitHorizon

/-!
# A network of routers

The members of the network are routers and endpoints. Each but the outermost
one has a connection to its parent, which knows it as the node of its id. A
copy of a message is on a way up or down such a connection; the routers handle
the copies in any order, in between anything else happens at them, and copies
may be lost. A router does not know which messages it has seen: that nobody is
given a message twice rests on the tree and on what each router leaves out.
-/

set_option autoImplicit false

namespace MsgBus

open ParentTree StepRun Router

/-! ## What is accepted of a routed message -/

/-- What sending over the hops adds to the log. -/
def newSent (tr : Transport) (msgId : MessageId) (message : MessageView) :
    List Sent → List Hop → List Sent
  | _, [] => []
  | sent, hop::hops =>
    ⟨hop,msgId,message,tr sent hop msgId message⟩::
      newSent tr msgId message (tr.send sent hop msgId message).2 hops

def acceptedHops (sent : List Sent) : List Hop := (sent.filter (·.accepted)).map (·.hop)

section NewSent

variable {tr : Transport} {msgId : MessageId} {message : MessageView}

theorem sendAll_eq (sent : List Sent) (hops : List Hop) :
    sendAll tr msgId message sent hops = sent ++ newSent tr msgId message sent hops := by
  induction hops generalizing sent with
  | nil => exact (List.append_nil _).symm
  | cons hop hops ih =>
    rw [sendAll, ih, newSent]
    exact List.append_assoc sent [_] _

theorem newSent_append (sent : List Sent) (hs ks : List Hop) :
    newSent tr msgId message sent (hs++ks) = newSent tr msgId message sent hs ++
      newSent tr msgId message (sendAll tr msgId message sent hs) ks := by
  induction hs generalizing sent with
  | nil => rfl
  | cons hop hs ih =>
    rw [List.cons_append, newSent, ih]
    rfl

theorem newSent_mem {sent : List Sent} {hops : List Hop} {x : Sent}
    (h : x ∈ newSent tr msgId message sent hops) :
    x.hop ∈ hops ∧ x.msgId = msgId ∧ x.message = message := by
  induction hops generalizing sent with
  | nil => cases h
  | cons hop hops ih =>
    rcases List.mem_cons.mp h with rfl | h
    · exact ⟨List.mem_cons_self,rfl,rfl⟩
    · exact ⟨List.mem_cons_of_mem _ (ih h).1,(ih h).2⟩

theorem acceptedHops_append (l m : List Sent) :
    acceptedHops (l++m) = acceptedHops l ++ acceptedHops m := by
  simp [acceptedHops]

theorem acceptedHops_sublist (sent : List Sent) (hops : List Hop) :
    (acceptedHops (newSent tr msgId message sent hops)).Sublist hops := by
  induction hops generalizing sent with
  | nil => exact .slnil
  | cons hop hops ih =>
    cases ha : tr sent hop msgId message with
    | true => simpa [acceptedHops, newSent, ha] using (ih _).cons_cons hop
    | false => simpa [acceptedHops, newSent, ha] using (ih _).cons hop

end NewSent

namespace Router

section Accepted

variable (r : Router) (tr : Transport) (now : ℕ) (sent : List Sent) (msgId : MessageId)
  (incomingId : EndpointId) (message : MessageView)

/-- The hops whose connections take the routed message. -/
def takenHops : List Hop :=
  acceptedHops (newSent tr msgId (hopped message) sent
    (r.routeHops tr now sent msgId incomingId message))

variable {r tr now sent msgId incomingId message}

theorem routeMessage_new : (r.routeMessage tr now sent msgId incomingId message).2.drop
    sent.length = newSent tr msgId (hopped message) sent
      (r.routeHops tr now sent msgId incomingId message) := by
  rw [routeMessage_sent, sendAll_eq, List.drop_left]

theorem parentHops_nodup : r.parentHops.Nodup := by
  unfold parentHops
  split_ifs <;> simp

theorem nodeHops_nodup (id : EndpointId) : (r.nodeHops msgId id).Nodup := by
  unfold nodeHops
  split
  · split_ifs <;> simp
  · simp

theorem indexedHops_nodup (targetId : EndpointId) : (r.indexedHops msgId targetId).Nodup := by
  unfold indexedHops
  split_ifs
  · simp
  · exact parentHops_nodup
  · exact nodeHops_nodup _

theorem floodHops_nodup : (r.floodHops incomingId).Nodup := by
  have hparent : (if incomingId = r.getId then [] else r.parentHops).Nodup := by
    split_ifs
    · simp
    · exact parentHops_nodup
  refine List.nodup_append.mpr ⟨entryHops_nodup _,hparent,?_⟩
  rintro hop hnode hop' hpar rfl
  cases hop with
  | node id =>
    revert hpar
    split_ifs <;> simp
  | parent => exact parent_mem_entryHops hnode
  | pending link => exact pending_not_mem_entryHops hnode

theorem nodeHops_of_mem {id : EndpointId} (h : .node id ∈ r.nodeHops msgId id) :
    r.nodeHops msgId id = [.node id] := by
  unfold nodeHops at h ⊢
  split at h
  · split_ifs at h ⊢
    · rfl
    · cases h
  · cases h

/-- A refused node takes nothing. -/
theorem nodeHops_refused {sent : List Sent} {id : EndpointId}
    (h : ¬ r.NodeAccepts tr sent msgId message id) :
    acceptedHops (newSent tr msgId message sent (r.nodeHops msgId id)) = [] := by
  by_cases hmem : .node id ∈ r.nodeHops msgId id
  · have hrefused : tr sent (.node id) msgId message = false := by
      by_contra ha
      exact h ⟨hmem,Bool.not_eq_false _ ▸ ha⟩
    rw [nodeHops_of_mem hmem]
    simp [newSent, acceptedHops, hrefused]
  · have hhops : r.nodeHops msgId id = [] := by
      apply List.eq_nil_iff_forall_not_mem.mpr
      intro hop hhop
      obtain ⟨rfl,-⟩ := mem_nodeHops.mp hhop
      exact hmem hhop
    rw [hhops]
    rfl

theorem indexedHops_refused (h : ¬ r.IndexAccepts tr sent msgId message) :
    acceptedHops (newSent tr msgId message sent (r.indexedHops msgId message.targetId)) = [] := by
  unfold indexedHops
  split_ifs with h0 ho
  · rfl
  · have hnot : ¬ r.ParentAccepts tr sent msgId message := fun hp => h ⟨h0,.inl ⟨ho,hp⟩⟩
    obtain ⟨hc,hrefused⟩ : r.parentRouter.connection.isSome = true ∧
        ¬ tr sent .parent msgId message = true := by
      simpa only [ParentAccepts, Classical.not_imp] using hnot
    rw [parentHops, if_pos hc]
    simp [newSent, acceptedHops, hrefused]
  · exact nodeHops_refused fun hn => h ⟨h0,.inr ⟨ho,hn⟩⟩

/-- No hop takes a message twice in one call. -/
theorem takenHops_nodup : (r.takenHops tr now sent msgId incomingId message).Nodup := by
  have hsub (sent : List Sent) {hops : List Hop} (h : hops.Nodup) :
      (acceptedHops (newSent tr msgId (hopped message) sent hops)).Nodup :=
    h.sublist (acceptedHops_sublist sent hops)
  unfold takenHops routeHops
  split_ifs with hmany ht hi hflood
  · exact hsub sent List.nodup_nil
  · exact hsub sent broadcastHops_nodup
  · rw [List.append_nil]
    exact hsub sent (indexedHops_nodup _)
  · have hrefused : acceptedHops (newSent tr msgId (hopped message) sent
        (r.indexedHops msgId message.targetId)) = [] :=
      indexedHops_refused (show ¬ r.IndexAccepts tr sent msgId (hopped message) from hi)
    rw [newSent_append, acceptedHops_append, hrefused, List.nil_append, newSent_append,
      acceptedHops_append]
    have hnone : acceptedHops (newSent tr msgId (hopped message) (sendAll tr msgId (hopped message)
        sent (r.indexedHops msgId message.targetId)) (r.nodeHops msgId message.targetId)) = [] :=
      nodeHops_refused hflood.1.2
    rw [hnone, List.nil_append]
    exact hsub _ floodHops_nodup
  · have hrefused : acceptedHops (newSent tr msgId (hopped message) sent
        (r.indexedHops msgId message.targetId)) = [] :=
      indexedHops_refused (show ¬ r.IndexAccepts tr sent msgId (hopped message) from hi)
    rw [newSent_append, acceptedHops_append, hrefused, List.nil_append, List.append_nil]
    exact hsub _ (nodeHops_nodup _)

end Accepted

end Router

/-! ## Members and ways -/

/-- Who is whose parent, and the ids by which the parents know their children. -/
structure BusTree (μ : Type) extends ParentTree μ where
  id : μ → EndpointId
  isRouter : μ → Bool
  child : μ → EndpointId → Option μ
  child_iff : ∀ v i c, child v i = some c ↔ parent c = some v ∧ id c = i
  routers : ∀ m v, parent m = some v → isRouter v = true

namespace BusTree

variable {μ : Type} (bus : BusTree μ)

/-- Where a copy comes from when it arrives. -/
def hop : Way μ → Hop
  | .up m => .node (bus.id m)
  | .down _ => .parent

/-- Where a copy goes that a member sends. -/
def way (v : μ) : Hop → Option (Way μ)
  | .node i => (bus.child v i).map .down
  | .parent => (bus.parent v).map fun _ => .up v
  | .pending _ => none

variable {bus} {v : μ}

theorem way_leaves {hop : Hop} {w : Way μ} (h : bus.way v hop = some w) :
    w.Leaves bus.toParentTree v := by
  cases hop with
  | node i =>
    obtain ⟨c,hc,rfl⟩ := Option.map_eq_some_iff.mp h
    exact ((bus.child_iff v i c).mp hc).1
  | parent =>
    obtain ⟨p,hp,rfl⟩ := Option.map_eq_some_iff.mp h
    exact ⟨rfl,p,hp⟩
  | pending link => cases h

/-- Only the hop that a copy has come over leads back. -/
theorem way_back {hop : Hop} {w : Way μ} (he : w.Ends bus.toParentTree v)
    (h : bus.way v hop = some w.back) : hop = bus.hop w := by
  cases w with
  | up c =>
    cases hop with
    | node i =>
      obtain ⟨d,hd,heq⟩ := Option.map_eq_some_iff.mp h
      obtain rfl : d = c := Way.down.inj heq
      rw [BusTree.hop, ((bus.child_iff v i d).mp hd).2]
    | parent =>
      obtain ⟨p,-,heq⟩ := Option.map_eq_some_iff.mp h
      cases heq
    | pending link => cases h
  | down m =>
    cases hop with
    | node i =>
      obtain ⟨d,-,heq⟩ := Option.map_eq_some_iff.mp h
      cases heq
    | parent => rfl
    | pending link => cases h

theorem way_hop {w w' : Way μ} (he : w.Ends bus.toParentTree v)
    (h : bus.way v (bus.hop w) = some w') : w' = w.back := by
  cases w with
  | up c =>
    have hchild := (bus.child_iff v (bus.id c) c).mpr ⟨he,rfl⟩
    simp only [BusTree.hop, way, hchild] at h
    exact (Option.some.inj h).symm
  | down m =>
    obtain rfl : m = v := he
    obtain ⟨p,-,rfl⟩ := Option.map_eq_some_iff.mp h
    rfl

theorem way_inj {hop hop' : Hop} {w : Way μ} (h : bus.way v hop = some w)
    (h' : bus.way v hop' = some w) : hop = hop' := by
  cases w with
  | up c =>
    have hparent {hop : Hop} (h : bus.way v hop = some (.up c)) : hop = .parent := by
      cases hop with
      | node i =>
        obtain ⟨d,-,heq⟩ := Option.map_eq_some_iff.mp h
        cases heq
      | parent => rfl
      | pending link => cases h
    rw [hparent h, hparent h']
  | down c =>
    have hnode {hop : Hop} (h : bus.way v hop = some (.down c)) : hop = .node (bus.id c) := by
      cases hop with
      | node i =>
        obtain ⟨d,hd,heq⟩ := Option.map_eq_some_iff.mp h
        obtain rfl : d = c := Way.down.inj heq
        rw [((bus.child_iff v i d).mp hd).2]
      | parent =>
        obtain ⟨p,-,heq⟩ := Option.map_eq_some_iff.mp h
        cases heq
      | pending link => cases h
    rw [hnode h, hnode h']

end BusTree

/-! ## Runs of the network -/

structure Emission (μ : Type) where
  sender : μ
  msgId : MessageId
  message : MessageView

/-- A copy on its way, with the number of the message that it is a copy of, if
an endpoint has sent it. -/
structure Copy (μ : Type) where
  way : Way μ
  msgId : MessageId
  message : MessageView
  origin : Option ℕ
  deriving DecidableEq

structure RouterNetwork (μ : Type) where
  router : μ → Router
  flying : Multiset (Copy μ) := 0
  /-- The members with the messages that they were given. -/
  given : Multiset (μ × ℕ) := 0
  emitted : List (Emission μ) := []

inductive NetworkEvent (μ : Type) where
  | emit (m : μ) (msgId : MessageId) (message : MessageView)
  | arrive (copy : Copy μ) (clk : Clock) (age : MessageAge)
  | lose (copy : Copy μ)
  | route (v : μ) (e : RouterRun.Event)

namespace RouterNetwork

variable {μ : Type} (bus : BusTree μ)

/-- The copies that a member makes when these sends are accepted. -/
def copies (v : μ) (origin : Option ℕ) (sent : List Sent) : List (Copy μ) :=
  sent.filterMap fun x =>
    if x.accepted then
      (bus.way v x.hop).map fun way => ⟨way,x.msgId,x.message,origin⟩
    else none

def connected (r : Router) : Hop → Bool
  | .node id => (r.nodes.find id).any fun node => node.connection.isSome
  | .parent => r.parentRouter.connection.isSome
  | .pending _ => false

def arrival (clk : Clock) (msgId : MessageId) (age : MessageAge) (message : MessageView) :
    Hop → RouterRun.Event
  | .node id => .fromNode clk id msgId age message
  | _ => .fromParent clk msgId age message

/-- The length of the log when the router goes over to forwarding. -/
def answered (env : RouterEnv) (clk : Clock) (r : Router) (copy : Copy μ) (age : MessageAge)
    (hop : Hop) : ℕ :=
  match SplitHorizon.forward env clk r copy.msgId age copy.message hop with
  | some (r',_) => r'.sent.length
  | none => (RouterRun.step env r (arrival clk copy.msgId age copy.message hop)).sent.length

/-- The hops over which a copy goes on. -/
def forwardedHops (env : RouterEnv) (clk : Clock) (r : Router) (copy : Copy μ) (age : MessageAge)
    (hop : Hop) : List Hop :=
  match SplitHorizon.forward env clk r copy.msgId age copy.message hop with
  | some (r',incomingId) => r'.takenHops env.transport clk.now r'.sent copy.msgId incomingId
      (aged copy.message age)
  | none => []

/-- The ways of the copies of a message. -/
def waysOf (n : ℕ) (copies : Multiset (Copy μ)) : Multiset (Way μ) :=
  (copies.filter fun copy => copy.origin = some n).map (·.way)

section Ways

variable {bus} {v : μ} {n : ℕ}

theorem waysOf_none {flying : Multiset (Copy μ)} (h : ∀ copy ∈ flying, copy.origin ≠ some n) :
    waysOf n flying = 0 := by
  rw [waysOf, Multiset.filter_eq_nil.mpr h, Multiset.map_zero]

theorem waysOf_add (l m : Multiset (Copy μ)) : waysOf n (l+m) = waysOf n l+waysOf n m := by
  rw [waysOf, Multiset.filter_add, Multiset.map_add]
  rfl

theorem waysOf_singleton (copy : Copy μ) :
    waysOf n {copy} = if copy.origin = some n then {copy.way} else 0 := by
  rw [waysOf, Multiset.filter_singleton]
  split_ifs <;> simp

theorem waysOf_copies (origin : Option ℕ) (sent : List Sent) :
    waysOf n ↑(copies bus v origin sent) =
      if origin = some n then
        (((acceptedHops sent).filterMap (bus.way v) : List (Way μ)) : Multiset (Way μ))
      else 0 := by
  have hall : ∀ copy ∈ copies bus v origin sent, copy.origin = origin := by
    intro copy hc
    obtain ⟨x,-,hx⟩ := List.mem_filterMap.mp hc
    split_ifs at hx
    obtain ⟨w,-,rfl⟩ := Option.map_eq_some_iff.mp hx
    rfl
  have hways : (copies bus v origin sent).map (·.way) =
      (acceptedHops sent).filterMap (bus.way v) := by
    rw [copies, List.map_filterMap, acceptedHops, List.filterMap_map, List.filterMap_filter]
    apply List.filterMap_congr
    intro x _
    by_cases ha : x.accepted = true
    · simp [ha, Function.comp_def]
    · simp [ha]
  rw [waysOf]
  split_ifs with ho
  · rw [Multiset.filter_eq_self.mpr (fun copy hc => (hall copy hc).trans ho), ← hways]
    rfl
  · rw [Multiset.filter_eq_nil.mpr (fun copy hc heq => ho ((hall copy hc).symm.trans heq))]
    rfl

/-- A copy that a member makes goes back to something accepted. -/
theorem mem_copies {origin : Option ℕ} {sent : List Sent} {copy : Copy μ}
    (h : copy ∈ copies bus v origin sent) : copy.origin = origin ∧
      ∃ x ∈ sent, copy.msgId = x.msgId ∧ copy.message = x.message := by
  obtain ⟨x,hx,hcopy⟩ := List.mem_filterMap.mp h
  split_ifs at hcopy
  obtain ⟨w,-,rfl⟩ := Option.map_eq_some_iff.mp hcopy
  exact ⟨rfl,x,hx,rfl,rfl⟩

end Ways

section Forwarded

variable {bus} {env : RouterEnv} {clk : Clock} {r : Router} {copy : Copy μ} {age : MessageAge}
  {v : μ} {w : Way μ}

theorem arrival_step {r' : Router} {incomingId : EndpointId}
    (hf : SplitHorizon.forward env clk r copy.msgId age copy.message (bus.hop w) =
      some (r',incomingId)) :
    RouterRun.step env r (arrival clk copy.msgId age copy.message (bus.hop w)) =
      r'.route env clk copy.msgId incomingId (aged copy.message age) := by
  cases w with
  | up m => exact SplitHorizon.step_fromNode hf
  | down m => exact SplitHorizon.step_fromParent hf

theorem forwarded_eq : (RouterRun.step env r
    (arrival clk copy.msgId age copy.message (bus.hop w))).sent.drop
      (answered env clk r copy age (bus.hop w)) =
    match SplitHorizon.forward env clk r copy.msgId age copy.message (bus.hop w) with
    | some (r',incomingId) => newSent env.transport copy.msgId (hopped (aged copy.message age))
        r'.sent (r'.routeHops env.transport clk.now r'.sent copy.msgId incomingId
          (aged copy.message age))
    | none => [] := by
  unfold answered
  cases hf : SplitHorizon.forward env clk r copy.msgId age copy.message (bus.hop w) with
  | none => exact List.drop_length
  | some p =>
    simp only [arrival_step hf]
    exact routeMessage_new

theorem acceptedHops_forwarded : acceptedHops ((RouterRun.step env r
    (arrival clk copy.msgId age copy.message (bus.hop w))).sent.drop
      (answered env clk r copy age (bus.hop w))) =
    forwardedHops env clk r copy age (bus.hop w) := by
  rw [forwarded_eq, forwardedHops]
  split <;> rfl

/-- What is handed on is the message with another age and one more hop. -/
theorem forwarded_mem {x : Sent} (h : x ∈ (RouterRun.step env r
    (arrival clk copy.msgId age copy.message (bus.hop w))).sent.drop
      (answered env clk r copy age (bus.hop w))) :
    x.msgId = copy.msgId ∧ x.message.targetId = copy.message.targetId ∧
      x.message.sourceId = copy.message.sourceId := by
  rw [forwarded_eq] at h
  split at h
  · obtain ⟨-,hid,hmessage⟩ := newSent_mem h
    exact ⟨hid,by rw [hmessage]; rfl,by rw [hmessage]; rfl⟩
  · cases h

theorem forwardedHops_nodup (hop : Hop) : (forwardedHops env clk r copy age hop).Nodup := by
  unfold forwardedHops
  split
  · exact takenHops_nodup
  · exact List.nodup_nil

variable (bus env clk r copy age v w) in
/-- The ways on which a copy goes on. -/
def forwardedWays : Multiset (Way μ) :=
  ((forwardedHops env clk r copy age (bus.hop w)).filterMap (bus.way v) : List (Way μ))

theorem forwardedWays_nodup : (forwardedWays bus env clk r copy age v w).Nodup :=
  Multiset.coe_nodup.mpr
    ((forwardedHops_nodup _).filterMap fun _ _ _ h h' => BusTree.way_inj h h')

theorem mem_forwardedWays {w' : Way μ} : w' ∈ forwardedWays bus env clk r copy age v w ↔
    ∃ hop ∈ forwardedHops env clk r copy age (bus.hop w), bus.way v hop = some w' := by
  rw [forwardedWays, Multiset.mem_coe, List.mem_filterMap]

theorem forwardedWays_leave (he : w.Ends bus.toParentTree v)
    (hback : bus.hop w ∉ forwardedHops env clk r copy age (bus.hop w)) :
    ∀ w' ∈ forwardedWays bus env clk r copy age v w,
      w'.Leaves bus.toParentTree v ∧ w' ≠ w.back := by
  intro w' hw'
  obtain ⟨hop,hhop,hway⟩ := mem_forwardedWays.mp hw'
  refine ⟨BusTree.way_leaves hway,?_⟩
  rintro rfl
  exact hback (BusTree.way_back he hway ▸ hhop)

end Forwarded

def start (setup : μ → RouterRun.Setup) : RouterNetwork μ :=
  { router := fun v => RouterRun.start (setup v) }

/-- The messages are numbered in the order in which they were sent, and a copy
is one of its message. -/
structure Numbered (net : RouterNetwork μ) : Prop where
  senders : ∀ s ∈ net.emitted, bus.isRouter s.sender = false
  given : ∀ g ∈ net.given, g.2 < net.emitted.length
  flying : ∀ copy ∈ net.flying, ∀ n, copy.origin = some n → ∃ e, net.emitted[n]? = some e ∧
    copy.msgId = e.msgId ∧ copy.message.targetId = e.message.targetId ∧
      copy.message.sourceId = e.message.sourceId

variable {bus} in
theorem start_numbered (setup : μ → RouterRun.Setup) : Numbered bus (start setup) :=
  ⟨fun _ hs => absurd hs List.not_mem_nil,fun _ hg => absurd hg (Multiset.notMem_zero _),
    fun _ hc => absurd hc (Multiset.notMem_zero _)⟩

variable {bus} in
/-- Nobody is below an endpoint. -/
theorem below_leaf {m x : μ} (hr : bus.isRouter m = false) : bus.Below m x ↔ x = m := by
  refine below_child.trans ⟨fun h => h.resolve_right ?_,.inl⟩
  rintro ⟨c,hc,-⟩
  rw [bus.routers c m hc] at hr
  cases hr

variable {bus} in
/-- The members that a message goes to. -/
theorem ahead_sender {net : RouterNetwork μ} (h : Numbered bus net) {n : ℕ} {e : Emission μ}
    (he : net.emitted[n]? = some e) (x : μ) : (Way.up e.sender).Ahead bus.toParentTree x ↔
      x ≠ e.sender ∧ bus.Joined e.sender x := by
  rw [Way.Ahead, below_leaf (h.senders e (List.mem_of_getElem? he))]

/-- The share of each member when the message is sent. -/
noncomputable def due (bus : BusTree μ) (e : Emission μ) (x : μ) : ℕ := bus.coming x {.up e.sender}

variable {bus} in
theorem due_le (e : Emission μ) (x : μ) : due bus e x ≤ 1 ∧
    (due bus e x ≠ 0 → (Way.up e.sender).Ahead bus.toParentTree x) := by
  rw [due, coming_singleton]
  split_ifs with ha
  · exact ⟨le_rfl,fun _ => ha⟩
  · exact ⟨Nat.zero_le 1,fun h => absurd rfl h⟩

variable [DecidableEq μ] (env : μ → RouterEnv) (net : RouterNetwork μ)

/-- A router handles a copy: its own answers are new messages. -/
def handle (v : μ) (copy : Copy μ) (clk : Clock) (age : MessageAge) : RouterNetwork μ :=
  let r := net.router v
  let hop := bus.hop copy.way
  if connected r hop then
    let r' := RouterRun.step (env v) r (arrival clk copy.msgId age copy.message hop)
    let n := answered (env v) clk r copy age hop
    { net with
      router := Function.update net.router v r'
      flying := net.flying.erase copy+
        (↑(copies bus v none ((r'.sent.take n).drop r.sent.length))+
          ↑(copies bus v copy.origin (r'.sent.drop n)))
      given := net.given+↑(copy.origin.toList.map fun n => (v,n)) }
  else net

def step : NetworkEvent μ → RouterNetwork μ
  | .emit m msgId message =>
    if bus.isRouter m then net
    else { net with
      flying := ⟨.up m,msgId,message,some net.emitted.length⟩ ::ₘ net.flying
      emitted := net.emitted ++ [⟨m,msgId,message⟩] }
  | .arrive copy clk age =>
    if copy ∈ net.flying then
      match copy.way with
      | .up m =>
        match bus.parent m with
        | some v => net.handle bus env v copy clk age
        | none => net
      | .down m =>
        if bus.isRouter m then net.handle bus env m copy clk age
        else { net with
          flying := net.flying.erase copy
          given := net.given+↑(copy.origin.toList.map fun n => (m,n)) }
    else net
  | .lose copy => { net with flying := net.flying.erase copy }
  | .route v e =>
    let r' := RouterRun.step (env v) (net.router v) e
    { net with
      router := Function.update net.router v r'
      flying := net.flying+↑(copies bus v none (r'.sent.drop (net.router v).sent.length)) }

/-- How often a member was given a message, and how many copies can come to it. -/
noncomputable def share (n : ℕ) (x : μ) : ℕ :=
  net.given.count (x,n)+bus.coming x (waysOf n net.flying)

section Share

variable {bus env net} {v x : μ} {n : ℕ} {copy : Copy μ} {clk : Clock} {age : MessageAge}

theorem waysOf_erase {copy : Copy μ} {flying : Multiset (Copy μ)} (h : copy ∈ flying) :
    waysOf n flying = waysOf n (flying.erase copy)+waysOf n {copy} := by
  conv_lhs => rw [← Multiset.cons_erase h]
  rw [← Multiset.singleton_add, waysOf_add, Multiset.add_comm]

theorem count_given (v x : μ) (n : ℕ) (origin : Option ℕ) :
    Multiset.count (x,n) ↑(origin.toList.map fun k => (v,k)) =
      if origin = some n then Multiset.count x {v} else 0 := by
  cases origin with
  | none => simp
  | some k =>
    by_cases hk : k = n
    · subst hk
      simp [Multiset.count_singleton, eq_comm]
    · simp [hk, Ne.symm hk]

/-- What a copy of another message brings about is no matter of this one. -/
theorem handle_other (hmem : copy ∈ net.flying) (ho : copy.origin ≠ some n) :
    share bus (net.handle bus env v copy clk age) n x = share bus net n x := by
  unfold handle share
  dsimp only
  split_ifs with hc
  · rw [Multiset.count_add, count_given, if_neg ho, waysOf_add, waysOf_add, waysOf_copies,
      waysOf_copies, if_neg ho, waysOf_erase hmem, waysOf_singleton, if_neg ho]
    simp
  · rfl

variable (env x clk age) in
/-- A router that is given a copy makes way for the forwarded ones. -/
theorem handle_own (hmem : copy ∈ net.flying) (ho : copy.origin = some n)
    (hc : connected (net.router v) (bus.hop copy.way) = true) :
    share bus (net.handle bus env v copy clk age) n x+bus.coming x {copy.way} =
      share bus net n x+(Multiset.count x {v}+bus.coming x
        (forwardedWays bus (env v) clk (net.router v) copy age v copy.way)) := by
  unfold handle share
  dsimp only
  rw [if_pos hc, Multiset.count_add, count_given, if_pos ho, waysOf_add, waysOf_add,
    waysOf_copies, waysOf_copies, if_pos ho, if_neg (by simp), acceptedHops_forwarded,
    waysOf_erase hmem, waysOf_singleton, if_pos ho, coming_add, coming_add, coming_add]
  simp only [coming_zero, forwardedWays]
  omega

end Share

/-! ## What is asked of the routers -/

/-- No router hands a copy of the message back to where it has come from. -/
def NoReturn (n : ℕ) (net : RouterNetwork μ) : NetworkEvent μ → Prop
  | .arrive copy clk age => copy.origin = some n →
    ∀ v, copy.way.Ends bus.toParentTree v → bus.isRouter v = true →
      bus.hop copy.way ∉ forwardedHops (env v) clk (net.router v) copy age (bus.hop copy.way)
  | _ => True

instance [Fintype μ] (n : ℕ) (net : RouterNetwork μ) (e : NetworkEvent μ) :
    Decidable (NoReturn bus env n net e) :=
  match e with
  | .arrive _ _ _ => inferInstanceAs (Decidable (_ → ∀ _, _ → _ → _))
  | .emit _ _ _ => inferInstanceAs (Decidable True)
  | .lose _ => inferInstanceAs (Decidable True)
  | .route _ _ => inferInstanceAs (Decidable True)

/-- No copy of the message is lost, and each router hands it on towards the
given member. -/
def Onward (n : ℕ) (x : μ) (net : RouterNetwork μ) : NetworkEvent μ → Prop
  | .arrive copy clk age => copy.origin = some n →
    ∀ v, copy.way.Ends bus.toParentTree v → bus.isRouter v = true →
      connected (net.router v) (bus.hop copy.way) = true →
      ∀ w : Way μ, w.Leaves bus.toParentTree v → w ≠ copy.way.back →
        w.Ahead bus.toParentTree x →
        w ∈ forwardedWays bus (env v) clk (net.router v) copy age v copy.way
  | .lose copy => copy.origin ≠ some n
  | _ => True

section Steps

variable {bus env net} {v x : μ} {n : ℕ}

theorem share_fresh (h : Numbered bus net) (hn : net.emitted.length ≤ n) :
    share bus net n x = 0 := by
  have hgiven : net.given.count (x,n) = 0 :=
    Multiset.count_eq_zero.mpr fun hg => absurd (h.given _ hg) (not_lt.mpr hn)
  have hways : waysOf n net.flying = 0 := by
    refine waysOf_none fun copy hc ho => ?_
    obtain ⟨e,he,-⟩ := h.flying copy hc n ho
    exact absurd (List.getElem?_eq_some_iff.mp he).1 (not_lt.mpr hn)
  rw [share, hgiven, hways, coming_zero]

/-- An endpoint that is given a copy keeps it. -/
theorem given_share {copy : Copy μ} {m : μ} (hw : copy.way = .down m)
    (hr : bus.isRouter m = false) (hmem : copy ∈ net.flying) :
    share bus { net with
      flying := net.flying.erase copy
      given := net.given+↑(copy.origin.toList.map fun k => (m,k)) } n x = share bus net n x := by
  have hself : Multiset.count x {m} = bus.coming x {copy.way} := by
    have hbelow : (Way.down m).Ahead bus.toParentTree x ↔ x = m := below_leaf hr
    rw [hw, coming_singleton, Multiset.count_singleton]
    simp only [hbelow]
  unfold share
  dsimp only
  rw [Multiset.count_add, count_given, waysOf_erase hmem, waysOf_singleton, coming_add]
  split_ifs with ho
  · omega
  · rw [coming_zero]
    rfl

/-- What the copies of a router that is not part of the message count for. -/
theorem route_share (e : RouterRun.Event) :
    share bus (net.step bus env (.route v e)) n x = share bus net n x := by
  unfold share step
  dsimp only
  rw [waysOf_add, waysOf_copies, if_neg (by simp), add_zero]

theorem emit_share (h : n < net.emitted.length) (m : μ) (msgId : MessageId)
    (message : MessageView) :
    share bus (net.step bus env (.emit m msgId message)) n x = share bus net n x := by
  unfold share step
  dsimp only
  split_ifs with hr
  · rfl
  · have hne : ¬ some net.emitted.length = some n := fun heq => by
      rw [Option.some.inj heq] at h
      exact lt_irrefl _ h
    simp only
    rw [← Multiset.singleton_add, waysOf_add, waysOf_singleton, if_neg hne, zero_add]

/-- The one copy with which a message starts. -/
theorem emit_first (h : Numbered bus net) {m : μ} (hr : bus.isRouter m = false) (msgId : MessageId)
    (message : MessageView) :
    share bus (net.step bus env (.emit m msgId message)) net.emitted.length x =
      bus.coming x {.up m} := by
  have hzero : share bus net net.emitted.length x = 0 := share_fresh h le_rfl
  unfold share at hzero ⊢
  unfold step
  dsimp only
  rw [hr]
  simp only [Bool.false_eq_true, if_false]
  rw [← Multiset.singleton_add, waysOf_add, waysOf_singleton, if_pos rfl, coming_add]
  dsimp only
  omega

theorem lose_share (copy : Copy μ) :
    share bus (net.step bus env (.lose copy)) n x ≤ share bus net n x := by
  unfold share step
  dsimp only
  by_cases hmem : copy ∈ net.flying
  · rw [waysOf_erase hmem, coming_add]
    omega
  · rw [Multiset.erase_of_notMem hmem]

theorem lose_other {copy : Copy μ} (ho : copy.origin ≠ some n) :
    share bus (net.step bus env (.lose copy)) n x = share bus net n x := by
  unfold share step
  dsimp only
  by_cases hmem : copy ∈ net.flying
  · rw [waysOf_erase hmem, waysOf_singleton, if_neg ho, add_zero]
  · rw [Multiset.erase_of_notMem hmem]

/-- An arrival of what does not fly does nothing. -/
theorem step_absent {e : NetworkEvent μ}
    (h : ¬ ∀ copy clk age, e = .arrive copy clk age → copy ∈ net.flying) :
    net.step bus env e = net := by
  cases e with
  | arrive copy clk age =>
    have hnot : copy ∉ net.flying := fun hin => h fun c k a heq => by
      obtain ⟨rfl,-,-⟩ := NetworkEvent.arrive.inj heq
      exact hin
    simp [step, hnot]
  | _ => exact absurd (fun _ _ _ heq => nomatch heq) h

variable (bus env net) in
/-- What the arrival of a copy does. -/
theorem arrive_cases (copy : Copy μ) (clk : Clock) (age : MessageAge) :
    net.step bus env (.arrive copy clk age) = net ∨
    copy ∈ net.flying ∧ ∃ v, copy.way.Ends bus.toParentTree v ∧
      (bus.isRouter v = true ∧
        net.step bus env (.arrive copy clk age) = net.handle bus env v copy clk age ∨
      bus.isRouter v = false ∧ copy.way = .down v ∧
        net.step bus env (.arrive copy clk age) = { net with
          flying := net.flying.erase copy
          given := net.given+↑(copy.origin.toList.map fun k => (v,k)) }) := by
  by_cases hmem : copy ∈ net.flying
  · cases hw : copy.way with
    | up m =>
      cases hp : bus.parent m with
      | none => exact .inl (by simp [step, hmem, hw, hp])
      | some v =>
        refine .inr ⟨hmem,v,hp,.inl ⟨bus.routers m v hp,?_⟩⟩
        simp [step, hmem, hw, hp]
    | down m =>
      refine .inr ⟨hmem,m,rfl,?_⟩
      cases hr : bus.isRouter m with
      | true => exact .inl ⟨rfl,by simp [step, hmem, hw, hr]⟩
      | false => exact .inr ⟨rfl,rfl,by simp [step, hmem, hw, hr]⟩
  · exact .inl (by simp [step, hmem])

theorem handle_unconnected {copy : Copy μ} {clk : Clock} {age : MessageAge}
    (hc : connected (net.router v) (bus.hop copy.way) = false) :
    net.handle bus env v copy clk age = net := by
  simp [handle, hc]

/-- When nothing goes back no share grows. -/
theorem step_share_le (hn : n < net.emitted.length) (e : NetworkEvent μ)
    (hok : NoReturn bus env n net e) :
    share bus (net.step bus env e) n x ≤ share bus net n x := by
  cases e with
  | emit m msgId message => exact (emit_share hn m msgId message).le
  | lose copy => exact lose_share copy
  | route v e => exact (route_share e).le
  | arrive copy clk age =>
    rcases arrive_cases bus env net copy clk age with
      hsame | ⟨hmem,v,he,⟨hr,hstep⟩ | ⟨hr,hw,hstep⟩⟩
    · rw [hsame]
    · rw [hstep]
      by_cases ho : copy.origin = some n
      · cases hc : connected (net.router v) (bus.hop copy.way) with
        | false => rw [handle_unconnected hc]
        | true =>
          have hpass := coming_pass (x := x) he forwardedWays_nodup
            (forwardedWays_leave he (hok ho v he hr))
          have hown := handle_own env x clk age hmem ho hc
          omega
      · exact (handle_other hmem ho).le
    · rw [hstep]
      exact (given_share hw hr hmem).le

/-- When moreover each copy goes on towards a member, its share stays. -/
theorem step_share_eq (hn : n < net.emitted.length) (e : NetworkEvent μ)
    (hok : NoReturn bus env n net e) (hon : Onward bus env n x net e) :
    share bus (net.step bus env e) n x = share bus net n x := by
  cases e with
  | emit m msgId message => exact emit_share hn m msgId message
  | lose copy => exact lose_other hon
  | route v e => exact route_share e
  | arrive copy clk age =>
    rcases arrive_cases bus env net copy clk age with
      hsame | ⟨hmem,v,he,⟨hr,hstep⟩ | ⟨hr,hw,hstep⟩⟩
    · rw [hsame]
    · rw [hstep]
      by_cases ho : copy.origin = some n
      · cases hc : connected (net.router v) (bus.hop copy.way) with
        | false => rw [handle_unconnected hc]
        | true =>
          have hpass := coming_pass_eq (x := x) he forwardedWays_nodup
            (forwardedWays_leave he (hok ho v he hr)) (hon ho v he hr hc)
          have hown := handle_own env x clk age hmem ho hc
          omega
      · exact handle_other hmem ho
    · rw [hstep]
      exact given_share hw hr hmem

theorem handle_numbered (h : Numbered bus net) {copy : Copy μ} (hmem : copy ∈ net.flying)
    (clk : Clock) (age : MessageAge) : Numbered bus (net.handle bus env v copy clk age) := by
  cases hc : connected (net.router v) (bus.hop copy.way) with
  | false =>
    rw [handle_unconnected hc]
    exact h
  | true =>
    unfold handle
    dsimp only
    rw [if_pos hc]
    refine ⟨h.senders,fun g hg => ?_,fun c hc n ho => ?_⟩
    · rcases Multiset.mem_add.mp hg with hg | hg
      · exact h.given g hg
      · obtain ⟨n,hn,rfl⟩ := List.mem_map.mp (Multiset.mem_coe.mp hg)
        obtain ⟨e,he,-⟩ := h.flying copy hmem n (Option.mem_toList.mp hn)
        exact (List.getElem?_eq_some_iff.mp he).1
    · rcases Multiset.mem_add.mp hc with hc | hc
      · exact h.flying c (Multiset.mem_of_mem_erase hc) n ho
      · rcases Multiset.mem_add.mp hc with hc | hc
        · obtain ⟨hnone,-⟩ := mem_copies (Multiset.mem_coe.mp hc)
          rw [hnone] at ho
          cases ho
        · obtain ⟨horigin,x,hx,hid,hmessage⟩ := mem_copies (Multiset.mem_coe.mp hc)
          obtain ⟨hid',htarget,hsource⟩ := forwarded_mem hx
          obtain ⟨e,he,hmsg,ht,hs⟩ := h.flying copy hmem n (horigin ▸ ho)
          exact ⟨e,he,hid.trans (hid'.trans hmsg),by rw [hmessage, htarget, ht],
            by rw [hmessage, hsource, hs]⟩

theorem step_numbered (h : Numbered bus net) (e : NetworkEvent μ) :
    Numbered bus (net.step bus env e) := by
  cases e with
  | emit m msgId message =>
    unfold step
    dsimp only
    split_ifs with hr
    · exact h
    · refine ⟨fun s hs => ?_,fun g hg => ?_,fun c hc n ho => ?_⟩
      · rcases List.mem_append.mp hs with hs | hs
        · exact h.senders s hs
        · rw [List.mem_singleton.mp hs]
          exact Bool.eq_false_iff.mpr hr
      · have hlt := h.given g hg
        simp only [List.length_append]
        omega
      · rcases Multiset.mem_cons.mp hc with rfl | hc
        · obtain rfl := Option.some.inj ho
          exact ⟨_,List.getElem?_concat_length,rfl,rfl,rfl⟩
        · obtain ⟨e,he,hmatch⟩ := h.flying c hc n ho
          refine ⟨e,?_,hmatch⟩
          rw [List.getElem?_append_left (List.getElem?_eq_some_iff.mp he).1]
          exact he
  | arrive copy clk age =>
    rcases arrive_cases bus env net copy clk age with
      hsame | ⟨hmem,v,-,⟨-,hstep⟩ | ⟨-,-,hstep⟩⟩
    · rw [hsame]
      exact h
    · rw [hstep]
      exact handle_numbered h hmem clk age
    · rw [hstep]
      refine ⟨h.senders,fun g hg => ?_,fun c hc n ho => ?_⟩
      · rcases Multiset.mem_add.mp hg with hg | hg
        · exact h.given g hg
        · obtain ⟨n,hn,rfl⟩ := List.mem_map.mp (Multiset.mem_coe.mp hg)
          obtain ⟨e,he,-⟩ := h.flying copy hmem n (Option.mem_toList.mp hn)
          exact (List.getElem?_eq_some_iff.mp he).1
      · exact h.flying c (Multiset.mem_of_mem_erase hc) n ho
  | lose copy => exact ⟨h.senders,h.given,fun c hc => h.flying c (Multiset.mem_of_mem_erase hc)⟩
  | route v e =>
    refine ⟨h.senders,h.given,fun c hc n ho => ?_⟩
    rcases Multiset.mem_add.mp hc with hc | hc
    · exact h.flying c hc n ho
    · obtain ⟨hnone,-⟩ := mem_copies (Multiset.mem_coe.mp hc)
      rw [hnone] at ho
      cases ho

variable (bus env net) in
/-- A step sends no message or the next one of an endpoint. -/
theorem emitted_step (e : NetworkEvent μ) :
    (net.step bus env e).emitted = net.emitted ∨
    ∃ m msgId message, e = .emit m msgId message ∧ bus.isRouter m = false ∧
      (net.step bus env e).emitted = net.emitted ++ [⟨m,msgId,message⟩] := by
  cases e with
  | emit m msgId message =>
    cases hr : bus.isRouter m with
    | true => exact .inl (by simp [step, hr])
    | false => exact .inr ⟨m,msgId,message,rfl,hr,by simp [step, hr]⟩
  | arrive copy clk age =>
    refine .inl ?_
    rcases arrive_cases bus env net copy clk age with
      hsame | ⟨hmem,v,-,⟨-,hstep⟩ | ⟨-,-,hstep⟩⟩
    · rw [hsame]
    · rw [hstep, handle]
      dsimp only
      split_ifs <;> rfl
    · rw [hstep]
  | lose copy => exact .inl rfl
  | route v e => exact .inl rfl

/-- What is asked of a message holds once it is sent and is kept by steps that
keep the shares. -/
theorem account_step {rel : ℕ → ℕ → Prop} {good : Emission μ → Prop} (hrefl : ∀ a, rel a a)
    (h : Numbered bus net)
    (hacc : ∀ s, net.emitted[n]? = some s → good s → rel (share bus net n x) (due bus s x))
    (e : NetworkEvent μ)
    (hkeep : ∀ s, net.emitted[n]? = some s → good s → ∀ a, rel (share bus net n x) a →
      rel (share bus (net.step bus env e) n x) a) :
    ∀ s, (net.step bus env e).emitted[n]? = some s → good s →
      rel (share bus (net.step bus env e) n x) (due bus s x) := by
  intro s hs hgood
  have hold (hs : net.emitted[n]? = some s) :
      rel (share bus (net.step bus env e) n x) (due bus s x) :=
    hkeep s hs hgood _ (hacc s hs hgood)
  rcases emitted_step bus env net e with
    hsame | ⟨m,msgId,message,rfl,hr,hmore⟩
  · rw [hsame] at hs
    exact hold hs
  · rw [hmore] at hs
    rcases lt_trichotomy n net.emitted.length with hlt | rfl | hgt
    · rw [List.getElem?_append_left hlt] at hs
      exact hold hs
    · obtain rfl := Option.some.inj (List.getElem?_concat_length.symm.trans hs)
      rw [emit_first h hr]
      exact hrefl _
    · rw [List.getElem?_eq_none (by simp; omega)] at hs
      cases hs

theorem emitted_keeps {s : Emission μ} (e : NetworkEvent μ) (hs : net.emitted[n]? = some s) :
    (net.step bus env e).emitted[n]? = some s := by
  rcases emitted_step bus env net e with hsame | ⟨m,msgId,message,-,-,hmore⟩
  · rw [hsame]
    exact hs
  · rw [hmore, List.getElem?_append_left (List.getElem?_eq_some_iff.mp hs).1]
    exact hs

/-- A copy in flight before a step is a copy of what was emitted before. -/
theorem Numbered.origin (h : Numbered bus net) (e : NetworkEvent μ) {copy : Copy μ}
    (hin : copy ∈ net.flying) (ho : copy.origin = some n) {s : Emission μ}
    (hs : (net.step bus env e).emitted[n]? = some s) :
    net.emitted[n]? = some s ∧ copy.msgId = s.msgId ∧
      copy.message.targetId = s.message.targetId ∧
      copy.message.sourceId = s.message.sourceId := by
  obtain ⟨s',hs',hcopy⟩ := h.flying copy hin n ho
  obtain rfl := Option.some.inj ((emitted_keeps e hs').symm.trans hs)
  exact ⟨hs',hcopy⟩

/-- What was given before a step had been emitted. -/
theorem Numbered.sent (h : Numbered bus net) (e : NetworkEvent μ) {g : μ × ℕ}
    (hg : g ∈ net.given) {s : Emission μ}
    (hs : (net.step bus env e).emitted[g.2]? = some s) : net.emitted[g.2]? = some s := by
  have hsome : net.emitted[g.2]? = some _ := List.getElem?_eq_getElem (h.given g hg)
  rw [← hs, emitted_keeps e hsome, hsome]

/-- Where the copies of a message come from. -/
theorem mem_ways_step (e : NetworkEvent μ) {w : Way μ}
    (hw : w ∈ waysOf n (net.step bus env e).flying) : w ∈ waysOf n net.flying ∨
      (∃ s, (net.step bus env e).emitted[n]? = some s ∧ w = .up s.sender) ∨
      ∃ copy clk age v, copy ∈ net.flying ∧ e = .arrive copy clk age ∧ copy.origin = some n ∧
        copy.way.Ends bus.toParentTree v ∧ bus.isRouter v = true ∧
        connected (net.router v) (bus.hop copy.way) = true ∧
        w ∈ forwardedWays bus (env v) clk (net.router v) copy age v copy.way := by
  have hsub (copy : Copy μ) (hw : w ∈ waysOf n (net.flying.erase copy)) :
      w ∈ waysOf n net.flying :=
    Multiset.mem_of_le (Multiset.map_le_map
      (Multiset.filter_le_filter _ (Multiset.erase_le copy net.flying))) hw
  cases e with
  | emit m msgId message =>
    unfold step at hw ⊢
    dsimp only at hw ⊢
    split_ifs at hw ⊢ with hr
    · exact .inl hw
    · rw [← Multiset.singleton_add, waysOf_add, waysOf_singleton] at hw
      split_ifs at hw with ho
      · rcases Multiset.mem_add.mp hw with hfirst | hold
        · obtain rfl := Option.some.inj ho
          exact .inr (.inl ⟨_,List.getElem?_concat_length,Multiset.mem_singleton.mp hfirst⟩)
        · exact .inl hold
      · rw [zero_add] at hw
        exact .inl hw
  | lose copy => exact .inl (hsub copy hw)
  | route v e =>
    unfold step at hw
    dsimp only at hw
    rw [waysOf_add, waysOf_copies, if_neg (by simp), add_zero] at hw
    exact .inl hw
  | arrive copy clk age =>
    rcases arrive_cases bus env net copy clk age with
      hsame | ⟨hmem,v,he,⟨hr,hstep⟩ | ⟨hr,hdown,hstep⟩⟩
    · rw [hsame] at hw
      exact .inl hw
    · rw [hstep] at hw
      cases hc : connected (net.router v) (bus.hop copy.way) with
      | false =>
        rw [handle_unconnected hc] at hw
        exact .inl hw
      | true =>
        unfold handle at hw
        dsimp only at hw
        rw [if_pos hc, waysOf_add, waysOf_add, waysOf_copies, waysOf_copies, if_neg (by simp),
          acceptedHops_forwarded, zero_add] at hw
        rcases Multiset.mem_add.mp hw with hw | hw
        · exact .inl (hsub copy hw)
        · split_ifs at hw with ho
          · exact .inr (.inr ⟨copy,clk,age,v,hmem,rfl,ho,he,hr,hc,hw⟩)
          · exact absurd hw (Multiset.notMem_zero w)
    · rw [hstep] at hw
      exact .inl (hsub copy hw)

/-- Who is given a message has had a copy on the way to it. -/
theorem mem_given_step (e : NetworkEvent μ) {g : μ × ℕ}
    (hg : g ∈ (net.step bus env e).given) : g ∈ net.given ∨
      ∃ copy clk age, copy ∈ net.flying ∧ e = .arrive copy clk age ∧ copy.origin = some g.2 ∧
        copy.way.Ends bus.toParentTree g.1 := by
  have hnew {copy : Copy μ} {clk : Clock} {age : MessageAge} {v : μ} (hmem : copy ∈ net.flying)
      (he : copy.way.Ends bus.toParentTree v)
      (hg : g ∈ net.given+↑(copy.origin.toList.map fun k => (v,k))) : g ∈ net.given ∨
        ∃ copy' clk' age', copy' ∈ net.flying ∧
          NetworkEvent.arrive copy clk age = .arrive copy' clk' age' ∧
          copy'.origin = some g.2 ∧ copy'.way.Ends bus.toParentTree g.1 := by
    rcases Multiset.mem_add.mp hg with hg | hg
    · exact .inl hg
    · obtain ⟨k,hk,rfl⟩ := List.mem_map.mp (Multiset.mem_coe.mp hg)
      exact .inr ⟨copy,clk,age,hmem,rfl,Option.mem_toList.mp hk,he⟩
  cases e with
  | emit m msgId message =>
    unfold step at hg
    dsimp only at hg
    split_ifs at hg <;> exact .inl hg
  | lose copy => exact .inl hg
  | route v e => exact .inl hg
  | arrive copy clk age =>
    rcases arrive_cases bus env net copy clk age with
      hsame | ⟨hmem,v,he,⟨-,hstep⟩ | ⟨-,-,hstep⟩⟩
    · rw [hsame] at hg
      exact .inl hg
    · rw [hstep] at hg
      unfold handle at hg
      dsimp only at hg
      split_ifs at hg
      · exact hnew hmem he hg
      · exact .inl hg
    · rw [hstep] at hg
      exact hnew hmem he hg

end Steps

section Runs

variable {bus env} {n : ℕ}

/-- The messages are numbered, and no share of this one has grown. -/
structure AtMost (bus : BusTree μ) (n : ℕ) (net : RouterNetwork μ) : Prop where
  numbered : Numbered bus net
  share : ∀ x s, net.emitted[n]? = some s → share bus net n x ≤ due bus s x

theorem AtMost.step {net : RouterNetwork μ} (h : AtMost bus n net) (e : NetworkEvent μ)
    (hok : NoReturn bus env n net e) : AtMost bus n (net.step bus env e) :=
  ⟨step_numbered h.numbered e,fun x s hs => account_step le_refl h.numbered
    (fun s hs (_ : True) => h.share x s hs) e (fun _ hs _ _ hle =>
      (step_share_le (List.getElem?_eq_some_iff.mp hs).1 e hok).trans hle) s hs trivial⟩

theorem AtMost.start (setup : μ → RouterRun.Setup) : AtMost bus n (start setup) :=
  ⟨start_numbered setup,fun _ _ hs => nomatch hs⟩

end Runs

end RouterNetwork

open RouterNetwork in
/-- When no router hands a message back to where it has come from, no member
is ever given it twice, and its sender is never given it at all, whatever else
the routers do and whatever is lost. -/
theorem given_at_most_once {μ : Type} [DecidableEq μ] (bus : BusTree μ) (env : μ → RouterEnv)
    (setup : μ → RouterRun.Setup) (n : ℕ) (es : List (NetworkEvent μ))
    (hok : Steps (RouterNetwork.step bus env) (NoReturn bus env n) (start setup) es) :
    Always (RouterNetwork.step bus env) (fun net => ∀ e, net.emitted[n]? = some e → ∀ x,
      net.given.count (x,n) ≤ 1 ∧
      (net.given.count (x,n) ≠ 0 → x ≠ e.sender ∧ bus.Joined e.sender x))
      (start setup) es := by
  refine always_mono ?_ (always_of_invariant (fun net e (h : AtMost bus n net) hok => h.step e hok)
    (.start setup) hok)
  intro net h e he x
  have hshare := h.share x e he
  have hcount : net.given.count (x,n) ≤ due bus e x := (Nat.le_add_right _ _).trans hshare
  obtain ⟨hone,hwhere⟩ := due_le e x
  refine ⟨hcount.trans hone,fun hne => (ahead_sender h.numbered he x).mp (hwhere fun hzero => ?_)⟩
  exact hne (Nat.le_zero.mp (hzero ▸ hcount))

/-! ## Two routers with an endpoint each -/

/-- Two routers, the second below the first, and an endpoint below each. -/
inductive SampleMember where
  | upper | lower | near | far
  deriving DecidableEq

namespace SampleMember

instance : Fintype SampleMember where
  elems := {upper,lower,near,far}
  complete m := by cases m <;> decide

def parent : SampleMember → Option SampleMember
  | upper => none
  | lower => some upper
  | near => some upper
  | far => some lower

def id : SampleMember → EndpointId
  | upper => 100
  | lower => 50
  | near => 7
  | far => 9

def level : SampleMember → ℕ
  | upper => 0
  | lower => 1
  | near => 1
  | far => 2

def isRouter : SampleMember → Bool
  | upper => true
  | lower => true
  | _ => false

def setup (v : SampleMember) : RouterRun.Setup := ⟨v.id,4096,1,[],false⟩

end SampleMember

open SampleMember

def sampleBus : BusTree SampleMember where
  parent := parent
  level := level
  above := by decide
  id := SampleMember.id
  isRouter := isRouter
  child v i := [lower,near,far].find? fun c => c.parent = some v ∧ c.id = i
  child_iff v i c := by
    constructor
    · intro h
      simpa using List.find?_some h
    · rintro ⟨hp,rfl⟩
      revert hp
      revert v c
      decide
  routers := by decide

def joinAll : List (NetworkEvent SampleMember) :=
  (RouterRun.joinNode 1 50 ++ RouterRun.joinNode 2 7).map (.route upper) ++
    [.route lower (.addConnection { link := 1 }),
      .route lower (.fromParent sampleClock (msgbusId .confirmId) 0 { targetId := 50 })] ++
    (RouterRun.joinNode 3 9).map (.route lower)

/-- A message of an endpoint comes to the other one by way of both routers. -/
def sendAcross (n : ℕ) (msgId : MessageId) (message : MessageView) :
    List (NetworkEvent SampleMember) :=
  [.emit far msgId message,.arrive ⟨.up far,msgId,message,some n⟩ sampleClock 0,
    .arrive ⟨.up lower,msgId,hopped message,some n⟩ sampleClock 0,
    .arrive ⟨.down near,msgId,hopped (hopped message),some n⟩ sampleClock 0]

theorem broadcast_at_most_once :
    Always (RouterNetwork.step sampleBus fun _ => RouterRun.sampleEnv)
      (fun net => ∀ e, net.emitted[0]? = some e → ∀ x, net.given.count (x,0) ≤ 1 ∧
        (net.given.count (x,0) ≠ 0 → x ≠ e.sender ∧ sampleBus.Joined e.sender x))
      (RouterNetwork.start setup)
      (joinAll ++ sendAcross 0 ⟨.other 1,.other 2⟩ { sourceId := 9 }) :=
  given_at_most_once sampleBus (fun _ => RouterRun.sampleEnv) setup 0 _ (by decide)

end MsgBus
