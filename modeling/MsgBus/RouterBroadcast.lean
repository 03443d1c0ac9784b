import MsgBus.RouterNetwork

/-!
# What the members of a network are given

A broadcast comes to every member when each router that is given it knows all
its children, has its id confirmed by its parent, and its connections take what
is sent. A message for one endpoint goes only to it when the endpoint index of
each router on the way names the next one.
-/

set_option autoImplicit false

namespace MsgBus

open ParentTree StepRun Router

namespace RouterNetwork

variable {μ : Type}

/-- A message is forwarded in this way. -/
def ForwardedAs (forwarded : Option (Router × EndpointId)) (good : Router → EndpointId → Prop) :
    Prop :=
  ∃ r incomingId, forwarded = some (r,incomingId) ∧ good r incomingId

instance (forwarded : Option (Router × EndpointId)) (good : Router → EndpointId → Prop)
    [∀ r incomingId, Decidable (good r incomingId)] : Decidable (ForwardedAs forwarded good) :=
  match forwarded with
  | none => isFalse fun ⟨_,_,h,_⟩ => nomatch h
  | some (r,incomingId) => decidable_of_iff (good r incomingId)
    ⟨fun h => ⟨r,incomingId,rfl,h⟩,fun ⟨_,_,heq,h⟩ => by cases heq; exact h⟩

section Complete

variable (bus : BusTree μ)

/-- A router hands a broadcast on to all its neighbours: the message has hops
left and every send is accepted, each child is a node of the router that takes
it, under an id that is not the own one, the router is connected to its parent,
and handles what came from the parent under its own id. -/
structure Complete (v : μ) (env : RouterEnv) (clk : Clock) (r : Router) (incomingId : EndpointId)
    (way : Way μ) (msgId : MessageId) (message : MessageView) : Prop where
  hops : message.tooManyHops = false
  taken : r.takenHops env.transport clk.now r.sent msgId incomingId message =
    r.routeHops env.transport clk.now r.sent msgId incomingId message
  own : ∀ c, bus.parent c = some v → bus.id c ≠ r.getId
  children : ∀ c, bus.parent c = some v →
    (r.nodes.find (bus.id c)).any (fun node => decide (node.Takes msgId)) = true
  parent : (bus.parent v).isSome = true → r.parentRouter.connection.isSome = true
  confirmed : way = .down v → incomingId = r.getId

instance [Fintype μ] [DecidableEq μ] (v : μ) (env : RouterEnv) (clk : Clock) (r : Router)
    (incomingId : EndpointId) (way : Way μ) (msgId : MessageId) (message : MessageView) :
    Decidable (Complete bus v env clk r incomingId way msgId message) :=
  decidable_of_iff (_ ∧ _ ∧ _ ∧ _ ∧ _ ∧ _)
    ⟨fun ⟨h,h',h'',c,p,i⟩ => ⟨h,h',h'',c,p,i⟩,fun ⟨h,h',h'',c,p,i⟩ => ⟨h,h',h'',c,p,i⟩⟩

variable {bus} {v : μ} {env : RouterEnv} {clk : Clock} {r r' : Router} {incomingId : EndpointId}
  {copy : Copy μ} {age : MessageAge}

theorem complete_hops (h : Complete bus v env clk r' incomingId copy.way copy.msgId
      (aged copy.message age))
    (hf : SplitHorizon.forward env clk r copy.msgId age copy.message (bus.hop copy.way) =
      some (r',incomingId)) (ht : copy.message.targetId = broadcastEndpointId) :
    forwardedHops env clk r copy age (bus.hop copy.way) =
      r'.broadcastHops copy.msgId incomingId := by
  have ht' : (aged copy.message age).targetId = broadcastEndpointId := ht
  rw [forwardedHops, hf]
  exact h.taken.trans (SplitHorizon.routeHops_broadcast ht' h.hops)

/-- A node sends under its id. -/
theorem forward_incoming {c : μ} (hw : copy.way = .up c)
    (hf : SplitHorizon.forward env clk r copy.msgId age copy.message (bus.hop copy.way) =
      some (r',incomingId)) : incomingId = bus.id c := by
  rw [hw] at hf
  exact (SplitHorizon.forward_node hf).2

theorem complete_noReturn (h : Complete bus v env clk r' incomingId copy.way copy.msgId
      (aged copy.message age))
    (hf : SplitHorizon.forward env clk r copy.msgId age copy.message (bus.hop copy.way) =
      some (r',incomingId)) (ht : copy.message.targetId = broadcastEndpointId)
    (he : copy.way.Ends bus.toParentTree v) :
    bus.hop copy.way ∉ forwardedHops env clk r copy age (bus.hop copy.way) := by
  rw [complete_hops h hf ht]
  cases hw : copy.way with
  | up c =>
    rw [forward_incoming hw hf]
    intro hmem
    obtain ⟨node,-,hne,-⟩ := node_mem_broadcastHops.mp hmem
    exact hne rfl
  | down m =>
    obtain rfl : m = v := by rwa [hw] at he
    intro hmem
    exact (parent_mem_broadcastHops.mp hmem).1 (h.confirmed hw)

theorem complete_onward (h : Complete bus v env clk r' incomingId copy.way copy.msgId
      (aged copy.message age))
    (hf : SplitHorizon.forward env clk r copy.msgId age copy.message (bus.hop copy.way) =
      some (r',incomingId)) (ht : copy.message.targetId = broadcastEndpointId)
    (he : copy.way.Ends bus.toParentTree v) {w : Way μ} (hl : w.Leaves bus.toParentTree v)
    (hne : w ≠ copy.way.back) : w ∈ forwardedWays bus env clk r copy age v copy.way := by
  refine mem_forwardedWays.mpr ?_
  rw [complete_hops h hf ht]
  cases w with
  | up m =>
    obtain ⟨rfl,p,hp⟩ := hl
    refine ⟨.parent,parent_mem_broadcastHops.mpr ⟨?_,h.parent (by simp [hp])⟩,by
      simp [BusTree.way, hp]⟩
    cases hw : copy.way with
    | up c =>
      have hc : bus.parent c = some m := by rwa [hw] at he
      rw [forward_incoming hw hf]
      exact h.own c hc
    | down c =>
      obtain rfl : c = m := by rwa [hw] at he
      rw [hw] at hne
      exact absurd rfl hne
  | down c =>
    have hchild := (bus.child_iff v (bus.id c) c).mpr ⟨hl,rfl⟩
    obtain ⟨node,hnode,htakes⟩ : ∃ node, r'.nodes.find (bus.id c) = some node ∧
        node.Takes copy.msgId := by
      have hchildren := h.children c hl
      cases hfind : r'.nodes.find (bus.id c) with
      | none => simp [hfind] at hchildren
      | some node => exact ⟨node,rfl,by simpa [hfind] using hchildren⟩
    refine ⟨.node (bus.id c),node_mem_broadcastHops.mpr ⟨node,hnode,?_,htakes⟩,by
      simp [BusTree.way, hchild]⟩
    cases hw : copy.way with
    | up d =>
      have hd : bus.parent d = some v := by rwa [hw] at he
      rw [forward_incoming hw hf]
      intro hid
      have hchild' := (bus.child_iff v (bus.id c) d).mpr ⟨hd,hid⟩
      obtain rfl := Option.some.inj (hchild.symm.trans hchild')
      rw [hw] at hne
      exact hne rfl
    | down m =>
      obtain rfl : m = v := by rwa [hw] at he
      rw [h.confirmed hw]
      exact (h.own c hl).symm

theorem forwardedHops_unconnected {env : RouterEnv} {clk : Clock} {r : Router} {copy : Copy μ}
    {age : MessageAge} {hop : Hop} (hc : connected r hop = false) :
    forwardedHops env clk r copy age hop = [] := by
  unfold forwardedHops
  cases hop with
  | node id =>
    have hguard : ((r.nodes.find id).any fun node => node.connection.isSome) = false := hc
    simp [SplitHorizon.forward, hguard]
  | parent =>
    have hguard : r.parentRouter.connection.isSome = false := hc
    simp [SplitHorizon.forward, hguard]
  | pending link => rfl

end Complete

section Broadcasts

variable [DecidableEq μ] (bus : BusTree μ) (env : μ → RouterEnv)

/-- Each router that is given the message hands it on to all its neighbours, and
no copy is lost. -/
def Spreads (n : ℕ) (net : RouterNetwork μ) : NetworkEvent μ → Prop
  | .arrive copy clk age => copy.origin = some n →
    ∀ v, copy.way.Ends bus.toParentTree v → bus.isRouter v = true →
      connected (net.router v) (bus.hop copy.way) = true → ForwardedAs
        (SplitHorizon.forward (env v) clk (net.router v) copy.msgId age copy.message
          (bus.hop copy.way)) fun r' incomingId =>
        Complete bus v (env v) clk r' incomingId copy.way copy.msgId (aged copy.message age)
  | .lose copy => copy.origin ≠ some n
  | _ => True

instance [Fintype μ] (n : ℕ) (net : RouterNetwork μ) (e : NetworkEvent μ) :
    Decidable (Spreads bus env n net e) :=
  match e with
  | .arrive _ _ _ => inferInstanceAs (Decidable (_ → ∀ _, _ → _ → _ → ForwardedAs _ _))
  | .lose _ => inferInstanceAs (Decidable (_ ≠ _))
  | .emit _ _ _ => inferInstanceAs (Decidable True)
  | .route _ _ => inferInstanceAs (Decidable True)

variable {bus env} {n : ℕ} {net : RouterNetwork μ}

omit [DecidableEq μ] in
/-- A spreading broadcast goes on towards everybody and never back. -/
theorem spreads_step (h : Numbered bus net) {s : Emission μ} (hs : net.emitted[n]? = some s)
    (ht : s.message.targetId = broadcastEndpointId) {e : NetworkEvent μ}
    (hok : Spreads bus env n net e) (hmem : ∀ copy clk age, e = .arrive copy clk age →
      copy ∈ net.flying) :
    NoReturn bus env n net e ∧ ∀ x, Onward bus env n x net e := by
  cases e with
  | emit m msgId message => exact ⟨trivial,fun _ => trivial⟩
  | route v e => exact ⟨trivial,fun _ => trivial⟩
  | lose copy => exact ⟨trivial,fun _ => hok⟩
  | arrive copy clk age =>
    have htarget (ho : copy.origin = some n) : copy.message.targetId = broadcastEndpointId := by
      obtain ⟨s',hs',-,htarget,-⟩ := h.flying copy (hmem copy clk age rfl) n ho
      obtain rfl := Option.some.inj (hs.symm.trans hs')
      exact htarget.trans ht
    refine ⟨fun ho v he hr => ?_,fun x ho v he hr hc w hl hne _ => ?_⟩
    · cases hc : connected (net.router v) (bus.hop copy.way) with
      | false =>
        rw [forwardedHops_unconnected hc]
        exact List.not_mem_nil
      | true =>
        obtain ⟨r',incomingId,hf,hcomplete⟩ := hok ho v he hr hc
        exact complete_noReturn hcomplete hf (htarget ho) he
    · obtain ⟨r',incomingId,hf,hcomplete⟩ := hok ho v he hr hc
      exact complete_onward hcomplete hf (htarget ho) he hl hne

/-- The messages are numbered; if this one is a broadcast, all shares are due. -/
structure Exactly (bus : BusTree μ) (n : ℕ) (net : RouterNetwork μ) : Prop where
  numbered : Numbered bus net
  share : ∀ x s, net.emitted[n]? = some s → s.message.targetId = broadcastEndpointId →
    share bus net n x = due bus s x

theorem Exactly.start (setup : μ → RouterRun.Setup) : Exactly bus n (start setup) :=
  ⟨start_numbered setup,fun _ _ hs => nomatch hs⟩

theorem Exactly.step (h : Exactly bus n net) (e : NetworkEvent μ)
    (hok : Spreads bus env n net e) : Exactly bus n (net.step bus env e) := by
  by_cases hmem : ∀ copy clk age, e = .arrive copy clk age → copy ∈ net.flying
  · refine ⟨step_numbered h.numbered e,fun x => account_step (fun _ => rfl) h.numbered
      (h.share x) e ?_⟩
    intro s hs ht a hshare
    obtain ⟨hback,honward⟩ := spreads_step h.numbered hs ht hok hmem
    exact (step_share_eq (List.getElem?_eq_some_iff.mp hs).1 e hback (honward x)).trans hshare
  · rw [step_absent hmem]
    exact h

end Broadcasts

section Leads

variable (bus : BusTree μ)

/-- The endpoint index of a router names the way to the member. -/
structure Points (v x : μ) (r : Router) (targetId : EndpointId) : Prop where
  down : ∀ c, bus.parent c = some v → bus.Below c x → r.nodes.findOutgoing targetId = bus.id c
  up : ¬ bus.Below v x → r.nodes.findOutgoing targetId = r.getId

/-- A router hands a message on towards the member that it is for: the message
has hops left, the index names the way, the child below which the member is is a
node that takes it, under an id that is neither zero nor the own one, or there
is a connected parent, and the send is accepted. -/
structure Leads (v x : μ) (env : RouterEnv) (clk : Clock) (r : Router) (msgId : MessageId)
    (message : MessageView) : Prop where
  hops : message.tooManyHops = false
  index : Points bus v x r message.targetId
  own : r.getId ≠ 0
  children : ∀ c, bus.parent c = some v → bus.Below c x → bus.id c ≠ 0 ∧ bus.id c ≠ r.getId ∧
    (r.nodes.find (bus.id c)).any (fun node => decide (node.Takes msgId)) = true
  parent : ¬ bus.Below v x → r.parentRouter.connection.isSome = true
  taken : ∀ hop ∈ r.indexedHops msgId message.targetId,
    env.transport r.sent hop msgId (hopped message) = true

section Decide

variable [Fintype μ] [DecidableEq μ] [∀ a m, Decidable (bus.Below a m)] (v x : μ)

instance (r : Router) (targetId : EndpointId) : Decidable (Points bus v x r targetId) :=
  decidable_of_iff (_ ∧ _) ⟨fun ⟨h,h'⟩ => ⟨h,h'⟩,fun ⟨h,h'⟩ => ⟨h,h'⟩⟩

instance (env : RouterEnv) (clk : Clock) (r : Router) (msgId : MessageId)
    (message : MessageView) : Decidable (Leads bus v x env clk r msgId message) :=
  decidable_of_iff (_ ∧ _ ∧ _ ∧ _ ∧ _ ∧ _)
    ⟨fun ⟨h,i,o,c,p,t⟩ => ⟨h,i,o,c,p,t⟩,fun ⟨h,i,o,c,p,t⟩ => ⟨h,i,o,c,p,t⟩⟩

end Decide

variable {bus} {v x : μ} {env : RouterEnv} {clk : Clock} {r r' : Router}
  {incomingId : EndpointId} {copy : Copy μ} {age : MessageAge}

/-- A message that the index accepts goes over no other hop. -/
theorem takenHops_indexed {msgId : MessageId} {message : MessageView} {hop : Hop}
    (hmany : message.tooManyHops = false) (ht : message.targetId ≠ broadcastEndpointId)
    (hi : r.indexedHops msgId message.targetId = [hop])
    (ha : r.IndexAccepts env.transport r.sent msgId (hopped message))
    (htaken : env.transport r.sent hop msgId (hopped message) = true) :
    r.takenHops env.transport clk.now r.sent msgId incomingId message = [hop] := by
  unfold takenHops routeHops
  rw [if_neg (by simp [hmany]), if_neg ht, if_pos ha, List.append_nil, hi]
  simp [newSent, acceptedHops, htaken]

variable (incomingId) in
/-- The hop towards the member is the only one. -/
theorem leads_hop {msgId : MessageId} {message : MessageView}
    (h : Leads bus v x env clk r msgId message) (ht : message.targetId ≠ broadcastEndpointId)
    {w : Way μ} (hl : w.Leaves bus.toParentTree v) (ha : w.Ahead bus.toParentTree x) :
    ∃ hop, bus.way v hop = some w ∧
      r.takenHops env.transport clk.now r.sent msgId incomingId message = [hop] := by
  cases w with
  | up m =>
    obtain ⟨rfl,p,hp⟩ := hl
    have hindex := h.index.up ha.1
    have hne : r.nodes.findOutgoing message.targetId ≠ 0 := hindex ▸ h.own
    have hhops : r.indexedHops msgId message.targetId = [.parent] := by
      rw [indexedHops, if_neg hne, if_pos hindex, parentHops, if_pos (h.parent ha.1)]
    have htaken := h.taken .parent (by rw [hhops]; exact List.mem_singleton_self _)
    refine ⟨.parent,by simp [BusTree.way, hp],takenHops_indexed h.hops ht hhops ?_ htaken⟩
    exact ⟨hne,.inl ⟨hindex,fun _ => htaken⟩⟩
  | down c =>
    have hchild := (bus.child_iff v (bus.id c) c).mpr ⟨hl,rfl⟩
    have hindex := h.index.down c hl ha
    obtain ⟨hid,hown,htakes⟩ := h.children c hl ha
    have hnode : .node (bus.id c) ∈ r.nodeHops msgId (bus.id c) := by
      rw [mem_nodeHops]
      cases hfind : r.nodes.find (bus.id c) with
      | none => simp [hfind] at htakes
      | some node => exact ⟨rfl,node,rfl,by simpa [hfind] using htakes⟩
    have hhops : r.indexedHops msgId message.targetId = [.node (bus.id c)] := by
      rw [indexedHops, hindex, if_neg hid, if_neg hown, nodeHops_of_mem hnode]
    have htaken := h.taken (.node (bus.id c)) (by rw [hhops]; exact List.mem_singleton_self _)
    refine ⟨.node (bus.id c),by simp [BusTree.way, hchild],
      takenHops_indexed h.hops ht hhops ?_ htaken⟩
    have hout : r.nodes.findOutgoing (hopped message).targetId = bus.id c := hindex
    rw [IndexAccepts, hout]
    exact ⟨hid,.inr ⟨hown,hnode,htaken⟩⟩

/-- A copy for the member becomes one copy on the way to it. -/
theorem leads_ways (h : Leads bus v x env clk r' copy.msgId (aged copy.message age))
    (hf : SplitHorizon.forward env clk r copy.msgId age copy.message (bus.hop copy.way) =
      some (r',incomingId)) (ht : copy.message.targetId ≠ broadcastEndpointId)
    (he : copy.way.Ends bus.toParentTree v) (hx : x ≠ v)
    (ha : copy.way.Ahead bus.toParentTree x) :
    bus.hop copy.way ∉ forwardedHops env clk r copy age (bus.hop copy.way) ∧
    ∃ w : Way μ, w.Ahead bus.toParentTree x ∧
      forwardedWays bus env clk r copy age v copy.way = {w} := by
  obtain ⟨w,hl,hne,haw⟩ := ((Way.ahead_iff he).mp ha).resolve_left hx
  obtain ⟨hop,hway,hhops⟩ := leads_hop incomingId h ht hl haw
  have hforwarded : forwardedHops env clk r copy age (bus.hop copy.way) = [hop] := by
    rw [forwardedHops, hf]
    exact hhops
  refine ⟨?_,w,haw,?_⟩
  · rw [hforwarded, List.mem_singleton]
    rintro rfl
    exact hne (BusTree.way_hop he hway)
  · rw [forwardedWays, hforwarded]
    simp [hway]

end Leads

section Targeted

variable [DecidableEq μ] (bus : BusTree μ) (env : μ → RouterEnv)

/-- Each router that is given the message hands it on towards the member, and no
copy is lost. -/
def Leading (n : ℕ) (x : μ) (net : RouterNetwork μ) : NetworkEvent μ → Prop
  | .arrive copy clk age => copy.origin = some n →
    ∀ v, copy.way.Ends bus.toParentTree v → bus.isRouter v = true →
      connected (net.router v) (bus.hop copy.way) = true → ForwardedAs
        (SplitHorizon.forward (env v) clk (net.router v) copy.msgId age copy.message
          (bus.hop copy.way)) fun r' _ =>
        Leads bus v x (env v) clk r' copy.msgId (aged copy.message age)
  | .lose copy => copy.origin ≠ some n
  | _ => True

instance [Fintype μ] [∀ a m, Decidable (bus.Below a m)] (n : ℕ) (x : μ) (net : RouterNetwork μ)
    (e : NetworkEvent μ) : Decidable (Leading bus env n x net e) :=
  match e with
  | .arrive _ _ _ => inferInstanceAs (Decidable (_ → ∀ _, _ → _ → _ → ForwardedAs _ _))
  | .lose _ => inferInstanceAs (Decidable (_ ≠ _))
  | .emit _ _ _ => inferInstanceAs (Decidable True)
  | .route _ _ => inferInstanceAs (Decidable True)

/-- The message is for this member of the tree of its sender. -/
def IsFor (x : μ) (s : Emission μ) : Prop :=
  s.message.targetId ≠ broadcastEndpointId ∧ x ≠ s.sender ∧ bus.Joined s.sender x

/-- The messages are numbered; if this one is for the member, its share is due,
each copy is on the way to it, and no other endpoint was given one. -/
structure Sole (n : ℕ) (x : μ) (net : RouterNetwork μ) : Prop where
  numbered : Numbered bus net
  share : ∀ s, net.emitted[n]? = some s → IsFor bus x s → share bus net n x = due bus s x
  ahead : ∀ s, net.emitted[n]? = some s → IsFor bus x s → ∀ w ∈ waysOf n net.flying,
    w.Ahead bus.toParentTree x
  only : ∀ s, net.emitted[n]? = some s → IsFor bus x s → ∀ g ∈ net.given, g.2 = n →
    bus.isRouter g.1 = false → g.1 = x

variable {bus env} {n : ℕ} {x : μ} {net : RouterNetwork μ}

theorem Sole.start (setup : μ → RouterRun.Setup) : Sole bus n x (start setup) :=
  ⟨start_numbered setup,fun _ hs => (nomatch hs),fun _ hs => (nomatch hs),
    fun _ hs => (nomatch hs)⟩

omit [DecidableEq μ] in
theorem mem_waysOf {copy : Copy μ} {flying : Multiset (Copy μ)} (hmem : copy ∈ flying)
    (ho : copy.origin = some n) : copy.way ∈ waysOf n flying :=
  Multiset.mem_map_of_mem _ (Multiset.mem_filter.mpr ⟨hmem,ho⟩)

/-- What a router does with a copy that is for the member. -/
theorem Sole.leads (h : Sole bus n x net) (hx : bus.isRouter x = false) {s : Emission μ}
    (hs : net.emitted[n]? = some s) (hfor : IsFor bus x s) {copy : Copy μ} {clk : Clock}
    {age : MessageAge} (hok : Leading bus env n x net (.arrive copy clk age))
    (hmem : copy ∈ net.flying) (ho : copy.origin = some n) {v : μ}
    (he : copy.way.Ends bus.toParentTree v) (hr : bus.isRouter v = true)
    (hc : connected (net.router v) (bus.hop copy.way) = true) :
    bus.hop copy.way ∉ forwardedHops (env v) clk (net.router v) copy age (bus.hop copy.way) ∧
    ∃ w : Way μ, w.Ahead bus.toParentTree x ∧
      forwardedWays bus (env v) clk (net.router v) copy age v copy.way = {w} := by
  obtain ⟨r',incomingId,hf,hleads⟩ := hok ho v he hr hc
  obtain ⟨s',hs',-,htarget,-⟩ := h.numbered.flying copy hmem n ho
  obtain rfl := Option.some.inj (hs.symm.trans hs')
  refine leads_ways hleads hf (htarget ▸ hfor.1) he ?_ (h.ahead s hs hfor _ (mem_waysOf hmem ho))
  rintro rfl
  rw [hx] at hr
  cases hr

theorem Sole.conditions (h : Sole bus n x net) (hx : bus.isRouter x = false) {s : Emission μ}
    (hs : net.emitted[n]? = some s) (hfor : IsFor bus x s) {e : NetworkEvent μ}
    (hok : Leading bus env n x net e) (hmem : ∀ copy clk age, e = .arrive copy clk age →
      copy ∈ net.flying) :
    NoReturn bus env n net e ∧ Onward bus env n x net e := by
  cases e with
  | emit m msgId message => exact ⟨trivial,trivial⟩
  | route v e => exact ⟨trivial,trivial⟩
  | lose copy => exact ⟨trivial,hok⟩
  | arrive copy clk age =>
    have hin := hmem copy clk age rfl
    refine ⟨fun ho v he hr => ?_,fun ho v he hr hc w hl _ ha => ?_⟩
    · cases hc : connected (net.router v) (bus.hop copy.way) with
      | false =>
        rw [forwardedHops_unconnected hc]
        exact List.not_mem_nil
      | true => exact (h.leads hx hs hfor hok hin ho he hr hc).1
    · obtain ⟨hback,w',ha',hways⟩ := h.leads hx hs hfor hok hin ho he hr hc
      have hl' := (forwardedWays_leave he hback w' (by rw [hways]; simp)).1
      rw [hways, Way.ahead_unique hl hl' ha ha']
      exact Multiset.mem_singleton_self w'

theorem Sole.step (hx : bus.isRouter x = false) (h : Sole bus n x net) (e : NetworkEvent μ)
    (hok : Leading bus env n x net e) : Sole bus n x (net.step bus env e) := by
  by_cases hmem : ∀ copy clk age, e = .arrive copy clk age → copy ∈ net.flying
  · have hnum : Numbered bus (net.step bus env e) := step_numbered h.numbered e
    refine ⟨hnum,account_step (fun _ => rfl) h.numbered h.share e ?_,?_,?_⟩
    · intro s hs hfor a hshare
      obtain ⟨hback,honward⟩ := h.conditions hx hs hfor hok hmem
      exact (step_share_eq (List.getElem?_eq_some_iff.mp hs).1 e hback honward).trans hshare
    · intro s hs hfor w hw
      rcases mem_ways_step e hw with
        hw | ⟨s',hs',rfl⟩ | ⟨copy,clk,age,v,hin,rfl,ho,he,hr,hc,hw⟩
      · obtain ⟨copy,hcopy,rfl⟩ := Multiset.mem_map.mp hw
        obtain ⟨hin,ho⟩ := Multiset.mem_filter.mp hcopy
        exact h.ahead s (h.numbered.origin e hin ho hs).1 hfor _ hw
      · obtain rfl := Option.some.inj (hs.symm.trans hs')
        exact (ahead_sender hnum hs x).mpr hfor.2
      · have hs' := (h.numbered.origin _ hin ho hs).1
        obtain ⟨-,w',ha,hways⟩ := h.leads hx hs' hfor hok hin ho he hr hc
        rw [hways] at hw
        rw [Multiset.mem_singleton.mp hw]
        exact ha
    · intro s hs hfor g hg hn hr
      rcases mem_given_step e hg with hg | ⟨copy,clk,age,hin,rfl,ho,he⟩
      · have hs' := h.numbered.sent e hg (hn ▸ hs)
        exact h.only s (hn ▸ hs') hfor g hg hn hr
      · rw [hn] at ho
        have ha := h.ahead s (h.numbered.origin _ hin ho hs).1 hfor _ (mem_waysOf hin ho)
        cases hw : copy.way with
        | up c =>
          rw [hw] at he
          rw [bus.routers c g.1 he] at hr
          cases hr
        | down m =>
          rw [hw] at he ha
          obtain rfl : m = g.1 := he
          exact ((below_leaf hr).mp ha).symm
  · rw [step_absent hmem]
    exact h

end Targeted

section Index

variable {env : RouterEnv} {clk : Clock} {r : Router}

/-- No event changes the own id of a router. -/
theorem step_getId (e : RouterRun.Event) : (RouterRun.step env r e).getId = r.getId := by
  cases e with
  | fromNode clk id msgId age message =>
    have hspecial : (r.handleSpecial env clk id (aged message age) msgId).2.getId = r.getId := by
      rcases RouterRun.handleSpecial_cases env clk (aged message age) msgId r id with
        h | ⟨f,-,h⟩
      · exact h.own
      · exact h.own
    rw [RouterRun.step]
    split_ifs
    · unfold handleNodeMessage
      dsimp only
      split_ifs <;> exact hspecial
    · rfl
  | fromParent clk msgId age message =>
    rw [RouterRun.step]
    split_ifs
    · unfold handleParentMessage
      dsimp only
      split_ifs
      · unfold handleSpecialParentMessage
        split
        · rfl
        · rfl
        · rfl
        · rfl
        · dsimp only
          split_ifs <;> exact SplitHorizon.special_frame.own
      · rfl
      · rfl
    · rfl
  | handlePending clk fetched random =>
    have hloop (ps : List RouterPending) (r : Router) :
        (handlePendingLoop env clk fetched random ps r).2.getId = r.getId := by
      induction ps generalizing r with
      | nil => rfl
      | cons pending rest ih =>
        rw [handlePendingLoop]
        split_ifs with hremove
        · exact ih r
        · obtain ⟨hr,-⟩ := RouterRun.Valid.updatePending_frame env clk (random pending.link)
            (fetched pending.link) pending r
          dsimp only
          split_ifs
          · exact (ih _).trans hr.own
          · exact (ih _).trans hr.own
    exact hloop r.nodes.pending r
  | processBlobs clk =>
    change (r.processBlobs env clk).getId = r.getId
    unfold processBlobs
    dsimp only
    split_ifs <;> rfl
  | _ => rfl

/-- The id under which a router handles a special message. -/
def handledUnder (r : Router) : Hop → EndpointId
  | .node id => id
  | _ => r.parentRouter.confirmedId

/-- A sign of life sets the index of the router that forwards it. -/
theorem forward_alive {age : MessageAge} {message : MessageView} {hop : Hop} {r' : Router}
    {incomingId : EndpointId} (hf : SplitHorizon.forward env clk r (msgbusId .stillAlive) age
      message hop = some (r',incomingId)) :
    r'.nodes.findOutgoing message.sourceId = handledUnder r hop := by
  have hset (id : EndpointId) : (r.updateEndpointInfo clk id (aged message age)).nodes.findOutgoing
      message.sourceId = id := by
    simp only [RouterNodes.findOutgoing, updateEndpointInfo, RouterNodes.updateEndpointInfo]
    rw [show (aged message age).sourceId = message.sourceId from rfl, OrderedMap.find?_assign,
      if_pos rfl]
    rfl
  cases hop with
  | node id =>
    obtain ⟨rfl,-⟩ := SplitHorizon.forward_node hf
    exact hset id
  | parent =>
    rw [SplitHorizon.forward] at hf
    split_ifs at hf
    obtain ⟨rfl,-⟩ := Prod.mk.inj (Option.some.inj hf)
    exact hset _
  | pending link => cases hf

end Index

section Announced

variable [DecidableEq μ] (bus : BusTree μ) (env : μ → RouterEnv)

/-- A step changes for no router that was given the message where its index
sends what is for the endpoint. -/
def KeepsIndex (n : ℕ) (id : EndpointId) (net : RouterNetwork μ) (e : NetworkEvent μ) : Prop :=
  ∀ v, (v,n) ∈ net.given → ((net.step bus env e).router v).nodes.findOutgoing id =
    (net.router v).nodes.findOutgoing id

/-- The message spreads, each router that has it from its parent had its own id
confirmed by it, and no other event changes the index of a router that was given
the message. -/
def Announces (n : ℕ) (id : EndpointId) (net : RouterNetwork μ) (e : NetworkEvent μ) : Prop :=
  Spreads bus env n net e ∧
  match e with
  | .arrive copy _ _ => (copy.origin = some n → ∀ v, copy.way = .down v → bus.isRouter v = true →
      (net.router v).parentRouter.confirmedId = (net.router v).getId) ∧
    (copy.origin ≠ some n → KeepsIndex bus env n id net e)
  | _ => KeepsIndex bus env n id net e

instance [Fintype μ] (n : ℕ) (id : EndpointId) (net : RouterNetwork μ) (e : NetworkEvent μ) :
    Decidable (KeepsIndex bus env n id net e) :=
  inferInstanceAs (Decidable (∀ _, _ → _))

instance [Fintype μ] (n : ℕ) (id : EndpointId) (net : RouterNetwork μ) (e : NetworkEvent μ) :
    Decidable (Announces bus env n id net e) :=
  match e with
  | .arrive _ _ _ => inferInstanceAs (Decidable (_ ∧ (_ → ∀ _, _ → _ → _) ∧ (_ → KeepsIndex ..)))
  | .lose _ => inferInstanceAs (Decidable (_ ∧ KeepsIndex ..))
  | .emit _ _ _ => inferInstanceAs (Decidable (_ ∧ KeepsIndex ..))
  | .route _ _ => inferInstanceAs (Decidable (_ ∧ KeepsIndex ..))

/-- The message is the sign of life of an endpoint. -/
def IsAlive (id : EndpointId) (s : Emission μ) : Prop :=
  s.msgId = msgbusId .stillAlive ∧ s.message.targetId = broadcastEndpointId ∧
    s.message.sourceId = id

/-- The sender is behind each copy, and the index of each router that was given
one names the way to it. -/
structure Announced (n : ℕ) (id : EndpointId) (net : RouterNetwork μ) : Prop where
  numbered : Numbered bus net
  behind : ∀ s, net.emitted[n]? = some s → IsAlive id s → ∀ w ∈ waysOf n net.flying,
    w.back.Ahead bus.toParentTree s.sender
  points : ∀ s, net.emitted[n]? = some s → IsAlive id s → ∀ v, (v,n) ∈ net.given →
    bus.isRouter v = true → Points bus v s.sender (net.router v) id

variable {bus env} {n : ℕ} {id : EndpointId} {net : RouterNetwork μ}

omit [DecidableEq μ] in
theorem Points.congr {v x : μ} {r r' : Router} (h : Points bus v x r id)
    (hf : r'.nodes.findOutgoing id = r.nodes.findOutgoing id) (hid : r'.getId = r.getId) :
    Points bus v x r' id := by
  refine ⟨fun c hc hcx => ?_,fun hnot => ?_⟩
  · rw [hf]
    exact h.down c hc hcx
  · rw [hf, hid]
    exact h.up hnot

/-- A step leaves a router as it is or is an event of it. -/
theorem router_step (e : NetworkEvent μ) (v : μ) :
    ((net.step bus env e).router v).getId = (net.router v).getId := by
  have hupdate (u : μ) (ev : RouterRun.Event) : (Function.update net.router u
      (RouterRun.step (env u) (net.router u) ev) v).getId = (net.router v).getId := by
    by_cases hv : v = u
    · subst hv
      rw [Function.update_self]
      exact step_getId ev
    · rw [Function.update_of_ne hv]
  cases e with
  | emit m msgId message =>
    unfold RouterNetwork.step
    dsimp only
    split_ifs <;> rfl
  | lose copy => rfl
  | route u ev => exact hupdate u ev
  | arrive copy clk age =>
    rcases arrive_cases bus env net copy clk age with
      hsame | ⟨-,u,-,⟨-,hstep⟩ | ⟨-,-,hstep⟩⟩
    · rw [hsame]
    · rw [hstep, handle]
      dsimp only
      split_ifs
      · exact hupdate u _
      · rfl
    · rw [hstep]

omit [DecidableEq μ] in
/-- The index of a router that has forwarded a sign of life names the way back. -/
theorem points_forwarded {v x : μ} {env : RouterEnv} {clk : Clock} {r r' : Router}
    {incomingId : EndpointId} {copy : Copy μ} {age : MessageAge}
    (hf : SplitHorizon.forward env clk r copy.msgId age copy.message (bus.hop copy.way) =
      some (r',incomingId)) (hid : copy.msgId = msgbusId .stillAlive)
    (he : copy.way.Ends bus.toParentTree v) (hback : copy.way.back.Ahead bus.toParentTree x)
    (hconfirmed : copy.way = .down v → r.parentRouter.confirmedId = r'.getId) :
    Points bus v x r' copy.message.sourceId := by
  rw [hid] at hf
  have hout := forward_alive hf
  have hl := Way.leaves_back he hback
  cases hw : copy.way with
  | up c =>
    rw [hw] at hout he hback hl
    refine ⟨fun d hd hdx => ?_,fun hnot => absurd (below_trans (.step hl (.refl v)) hback) hnot⟩
    rw [hout, siblings hd hl hdx hback]
    rfl
  | down m =>
    rw [hw] at hout he hback
    obtain rfl : m = v := he
    refine ⟨fun c hc hcx => absurd (below_trans (.step hc (.refl m)) hcx) hback.1,fun _ => ?_⟩
    rw [hout]
    exact hconfirmed hw

omit [DecidableEq μ] in
theorem Announced.start (setup : μ → RouterRun.Setup) : Announced bus n id (start setup) :=
  ⟨start_numbered setup,fun _ hs => (nomatch hs),fun _ hs => (nomatch hs)⟩

/-- The router that is given a sign of life learns the way back; the others
keep what they have learned. -/
theorem announced_own (h : Announced bus n id net) {s : Emission μ}
    (hs : net.emitted[n]? = some s) (halive : IsAlive id s) {copy : Copy μ} {clk : Clock}
    {age : MessageAge} (hok : Announces bus env n id net (.arrive copy clk age))
    (hin : copy ∈ net.flying) (ho : copy.origin = some n)
    (hid : copy.msgId = msgbusId .stillAlive) (hsource : copy.message.sourceId = id) (u : μ)
    (hu : (u,n) ∈ (net.step bus env (.arrive copy clk age)).given)
    (hur : bus.isRouter u = true) :
    Points bus u s.sender ((net.step bus env (.arrive copy clk age)).router u) id := by
  have hgiven : (u,n) ∈ net.given ∨ copy.way.Ends bus.toParentTree u := by
    rcases mem_given_step _ hu with hu | ⟨copy',clk',age',-,heq,-,he⟩
    · exact .inl hu
    · obtain ⟨rfl,-,-⟩ := NetworkEvent.arrive.inj heq
      exact .inr he
  have hunique {v : μ} (he : copy.way.Ends bus.toParentTree v)
      (he' : copy.way.Ends bus.toParentTree u) : u = v := by
    cases hw : copy.way with
    | up c =>
      rw [hw] at he he'
      exact Option.some.inj (he'.symm.trans he)
    | down m =>
      rw [hw] at he he'
      exact he'.symm.trans he
  rcases arrive_cases bus env net copy clk age with
    hsame | ⟨-,v,he,⟨hr,hstep⟩ | ⟨hr,-,hstep⟩⟩
  · rw [hsame] at hu ⊢
    exact h.points s hs halive u hu hur
  · rw [hstep] at hu ⊢
    cases hc : connected (net.router v) (bus.hop copy.way) with
    | false =>
      rw [handle_unconnected hc] at hu ⊢
      exact h.points s hs halive u hu hur
    | true =>
      have hrouter : (net.handle bus env v copy clk age).router = Function.update net.router v
          (RouterRun.step (env v) (net.router v)
            (arrival clk copy.msgId age copy.message (bus.hop copy.way))) := by
        simp [handle, hc]
      rw [hrouter]
      by_cases huv : u = v
      · subst huv
        obtain ⟨r',incomingId,hf,-⟩ := hok.1 ho u he hr hc
        have hnew := arrival_step hf
        have hown : r'.getId = (net.router u).getId :=
          (congrArg Router.getId hnew).symm.trans (step_getId _)
        rw [Function.update_self, hnew, ← hsource]
        refine (points_forwarded hf hid he (h.behind s hs halive _ (mem_waysOf hin ho))
          fun hdown => ?_).congr rfl rfl
        rw [hown]
        exact hok.2.1 ho u hdown hr
      · rw [Function.update_of_ne huv]
        exact h.points s hs halive u (hgiven.resolve_right fun he' => huv (hunique he he')) hur
  · rw [hstep]
    refine h.points s hs halive u (hgiven.resolve_right fun he' => ?_) hur
    rw [hunique he he', hr] at hur
    cases hur

theorem Announced.step (h : Announced bus n id net) (e : NetworkEvent μ)
    (hok : Announces bus env n id net e) : Announced bus n id (net.step bus env e) := by
  by_cases hmem : ∀ copy clk age, e = .arrive copy clk age → copy ∈ net.flying
  · refine ⟨step_numbered h.numbered e,?_,?_⟩
    · intro s hs halive w hw
      rcases mem_ways_step e hw with
        hw | ⟨s',hs',rfl⟩ | ⟨copy,clk,age,v,hin,rfl,ho,he,hr,hc,hw⟩
      · obtain ⟨copy,hcopy,rfl⟩ := Multiset.mem_map.mp hw
        obtain ⟨hin,ho⟩ := Multiset.mem_filter.mp hcopy
        exact h.behind s (h.numbered.origin e hin ho hs).1 halive _ hw
      · obtain rfl := Option.some.inj (hs.symm.trans hs')
        exact .refl s.sender
      · have hs' := (h.numbered.origin _ hin ho hs).1
        have hback := (spreads_step h.numbered hs' halive.2.1 hok.1 hmem).1 ho v he hr
        obtain ⟨hl,hne⟩ := forwardedWays_leave he hback w hw
        exact Way.behind_pass he hl hne (h.behind s hs' halive _ (mem_waysOf hin ho))
    · intro s hs halive u hu hur
      by_cases hown : ∃ copy clk age, e = .arrive copy clk age ∧ copy.origin = some n
      · obtain ⟨copy,clk,age,rfl,ho⟩ := hown
        have hin := hmem copy clk age rfl
        obtain ⟨hs',hid,-,hsource⟩ := h.numbered.origin _ hin ho hs
        exact announced_own h hs' halive hok hin ho (hid.trans halive.1)
          (hsource.trans halive.2.2) u hu hur
      · have hold : (u,n) ∈ net.given ∧ net.emitted[n]? = some s := by
          have hgiven : (u,n) ∈ net.given := (mem_given_step e hu).resolve_right
            fun ⟨copy,clk,age,_,heq,ho,_⟩ => hown ⟨copy,clk,age,heq,ho⟩
          exact ⟨hgiven,h.numbered.sent e hgiven hs⟩
        refine (h.points s hold.2 halive u hold.1 hur).congr ?_ (router_step e u)
        cases e with
        | arrive copy clk age => exact hok.2.2 (fun ho => hown ⟨copy,clk,age,rfl,ho⟩) u hold.1
        | _ => exact hok.2 u hold.1
  · rw [step_absent hmem]
    exact h

end Announced

end RouterNetwork

open RouterNetwork in
/-- When no copy of a broadcast is lost and each router that is given one hands
it on to all its neighbours (`Spreads`), each other member of the tree of its
sender has been given it once or has one copy coming; when no copy is on its
way any more all of them have been given it, and nobody else has. -/
theorem broadcast_given_once {μ : Type} [DecidableEq μ] (bus : BusTree μ) (env : μ → RouterEnv)
    (setup : μ → RouterRun.Setup) (n : ℕ) (es : List (NetworkEvent μ))
    (hok : Steps (RouterNetwork.step bus env) (Spreads bus env n) (start setup) es) :
    Always (RouterNetwork.step bus env) (fun net => ∀ e, net.emitted[n]? = some e →
      e.message.targetId = broadcastEndpointId → ∀ x,
      (x ≠ e.sender → bus.Joined e.sender x →
        net.given.count (x,n)+bus.coming x (waysOf n net.flying) = 1 ∧
        ((∀ copy ∈ net.flying, copy.origin ≠ some n) → net.given.count (x,n) = 1)) ∧
      (net.given.count (x,n) ≠ 0 → x ≠ e.sender ∧ bus.Joined e.sender x))
      (start setup) es := by
  refine always_mono ?_ (always_of_invariant (fun net e (h : Exactly bus n net) hok =>
    h.step e hok) (.start setup) hok)
  intro net h e he ht x
  have hshare : net.given.count (x,n)+bus.coming x (waysOf n net.flying) = due bus e x :=
    h.share x e he ht
  have hahead := ahead_sender h.numbered he x
  constructor
  · intro hx hjoined
    have hdue : due bus e x = 1 := by
      rw [due, coming_singleton, if_pos (hahead.mpr ⟨hx,hjoined⟩)]
    refine ⟨hshare.trans hdue,fun hnone => ?_⟩
    rw [waysOf_none hnone, coming_zero, Nat.add_zero] at hshare
    exact hshare.trans hdue
  · intro hne
    refine hahead.mp ((due_le e x).2 fun hzero => hne ?_)
    omega

open SampleMember

theorem sampleBelow_iff (a m : SampleMember) :
    sampleBus.Below a m ↔ m = a ∨ a = upper ∨ a = lower ∧ m = far := by
  constructor
  · intro h
    induction h with
    | refl => exact .inl rfl
    | @step m p hp h ih =>
      clear h
      revert hp ih
      revert a m p
      decide
  · have hparent : ∀ m, m = upper ∨ parent m = some upper ∨ m = far := by decide
    rintro (rfl | rfl | ⟨rfl,rfl⟩)
    · exact .refl m
    · rcases hparent m with rfl | h | rfl
      · exact .refl upper
      · exact .step h (.refl upper)
      · exact .step (p := lower) rfl (.step (p := upper) rfl (.refl upper))
    · exact .step (p := lower) rfl (.refl lower)

instance (a m : SampleMember) : Decidable (sampleBus.Below a m) :=
  decidable_of_iff _ (sampleBelow_iff a m).symm

theorem sampleJoined (a b : SampleMember) : sampleBus.Joined a b :=
  ⟨upper,(sampleBelow_iff upper a).mpr (.inr (.inl rfl)),
    (sampleBelow_iff upper b).mpr (.inr (.inl rfl))⟩

abbrev sampleStep :
    RouterNetwork SampleMember → NetworkEvent SampleMember → RouterNetwork SampleMember :=
  RouterNetwork.step sampleBus fun _ => RouterRun.sampleEnv

/-- The broadcast of one endpoint has been given to the other one. -/
theorem broadcast_given_across :
    (run sampleStep (RouterNetwork.start setup)
      (joinAll ++ sendAcross 0 ⟨.other 1,.other 2⟩ { sourceId := 9 })).given.count (near,0) = 1 :=
  ((always_last (broadcast_given_once sampleBus (fun _ => RouterRun.sampleEnv) setup 0
    (joinAll ++ sendAcross 0 ⟨.other 1,.other 2⟩ { sourceId := 9 }) (by decide))
      ⟨far,⟨.other 1,.other 2⟩,{ sourceId := 9 }⟩ rfl rfl near).1
        (by decide) (sampleJoined far near)).2 (by decide)

open RouterNetwork in
/-- When no copy of a message is lost and each router that is given it hands it
on the way that its endpoint index names, to the endpoint that it is for
(`Leading`), this endpoint is given it once and no other is; until then there
is just one copy. -/
theorem targeted_given_once {μ : Type} [DecidableEq μ] (bus : BusTree μ) (env : μ → RouterEnv)
    (setup : μ → RouterRun.Setup) (n : ℕ) (x : μ) (hx : bus.isRouter x = false)
    (es : List (NetworkEvent μ))
    (hok : Steps (RouterNetwork.step bus env) (Leading bus env n x) (start setup) es) :
    Always (RouterNetwork.step bus env) (fun net => ∀ e, net.emitted[n]? = some e →
      e.message.targetId ≠ broadcastEndpointId → x ≠ e.sender → bus.Joined e.sender x →
      net.given.count (x,n)+(net.flying.filter fun copy => copy.origin = some n).card = 1 ∧
      ∀ y, bus.isRouter y = false → y ≠ x → net.given.count (y,n) = 0)
      (start setup) es := by
  refine always_mono ?_ (always_of_invariant (fun net e (h : Sole bus n x net) hok =>
    h.step hx e hok) (.start setup) hok)
  intro net h e he ht hne hjoined
  have hfor : IsFor bus x e := ⟨ht,hne,hjoined⟩
  constructor
  · have hshare : net.given.count (x,n)+bus.coming x (waysOf n net.flying) = due bus e x :=
      h.share e he hfor
    have hall : bus.coming x (waysOf n net.flying) =
        (net.flying.filter fun copy => copy.origin = some n).card := by
      rw [coming_all (h.ahead e he hfor), waysOf, Multiset.card_map]
    have hdue : due bus e x = 1 := by
      rw [due, coming_singleton, if_pos ((ahead_sender h.numbered he x).mpr hfor.2)]
    rw [← hall, hshare, hdue]
  · intro y hy hyx
    refine Multiset.count_eq_zero.mpr fun hg => hyx ?_
    exact h.only e he hfor (y,n) hg rfl hy

open RouterNetwork in
/-- When the sign of life of an endpoint has spread, and nothing else changed the
indexes of the routers that had got it (`Announces`), the endpoint index of every
other router of its tree names the way to it, however the copies were scheduled. -/
theorem announced_everywhere {μ : Type} [DecidableEq μ] (bus : BusTree μ) (env : μ → RouterEnv)
    (setup : μ → RouterRun.Setup) (n : ℕ) (id : EndpointId) (es : List (NetworkEvent μ))
    (hok : Steps (RouterNetwork.step bus env) (Announces bus env n id) (start setup) es) :
    Always (RouterNetwork.step bus env) (fun net => ∀ e, net.emitted[n]? = some e →
      IsAlive id e → (∀ copy ∈ net.flying, copy.origin ≠ some n) →
      ∀ v, bus.isRouter v = true → bus.Joined e.sender v →
        Points bus v e.sender (net.router v) id)
      (start setup) es := by
  have hinv := always_of_invariant
    (fun net e (h : Announced bus n id net ∧ Exactly bus n net) hok =>
      ⟨h.1.step e hok,h.2.step e hok.1⟩) ⟨.start setup,.start setup⟩ hok
  refine always_mono ?_ hinv
  intro net ⟨h,hexact⟩ e he halive hnone v hv hjoined
  refine h.points e he halive v ?_ hv
  have hne : v ≠ e.sender := by
    rintro rfl
    rw [h.numbered.senders e (List.mem_of_getElem? he)] at hv
    cases hv
  have hshare : net.given.count (v,n)+bus.coming v (waysOf n net.flying) = due bus e v :=
    hexact.share v e he halive.2.1
  have hdue : due bus e v = 1 := by
    rw [due, coming_singleton, if_pos ((ahead_sender h.numbered he v).mpr ⟨hne,hjoined⟩)]
  rw [waysOf_none hnone, coming_zero, Nat.add_zero, hdue] at hshare
  exact Multiset.count_pos.mp (by omega)

/-- The endpoint below the first router shows that it is alive. -/
def announceTwo : List (NetworkEvent SampleMember) :=
  [.emit near (msgbusId .stillAlive) { sourceId := 7 },
    .arrive ⟨.up near,msgbusId .stillAlive,{ sourceId := 7 },some 0⟩ sampleClock 0,
    .arrive ⟨.down lower,msgbusId .stillAlive,hopped { sourceId := 7 },some 0⟩ sampleClock 0,
    .arrive ⟨.down far,msgbusId .stillAlive,hopped (hopped { sourceId := 7 }),some 0⟩
      sampleClock 0]

/-- The second router has learned where the endpoint is. -/
theorem announced_to_second : RouterNetwork.Points sampleBus lower near
    ((run sampleStep (RouterNetwork.start setup) (joinAll ++ announceTwo)).router lower) 7 :=
  (always_last (announced_everywhere sampleBus (fun _ => RouterRun.sampleEnv) setup 0 7
    (joinAll ++ announceTwo) (by decide)))
      ⟨near,msgbusId .stillAlive,{ sourceId := 7 }⟩ rfl ⟨rfl,rfl,rfl⟩ (by decide) lower (by decide)
        (sampleJoined near lower)

/-- A message for the endpoint that has announced itself finds it. -/
theorem targeted_across :
    (run sampleStep (RouterNetwork.start setup) (joinAll ++ announceTwo ++
      sendAcross 1 ⟨.other 1,.other 2⟩ { sourceId := 9, targetId := 7 })).given.count (near,1)+
    ((run sampleStep (RouterNetwork.start setup) (joinAll ++ announceTwo ++
      sendAcross 1 ⟨.other 1,.other 2⟩ { sourceId := 9, targetId := 7 })).flying.filter
        fun copy => copy.origin = some 1).card = 1 :=
  (always_last (targeted_given_once sampleBus (fun _ => RouterRun.sampleEnv) setup 1 near
    (by decide) (joinAll ++ announceTwo ++
      sendAcross 1 ⟨.other 1,.other 2⟩ { sourceId := 9, targetId := 7 }) (by decide))
        ⟨far,⟨.other 1,.other 2⟩,{ sourceId := 9, targetId := 7 }⟩ rfl (by decide) (by decide)
          (sampleJoined far near)).1

end MsgBus
