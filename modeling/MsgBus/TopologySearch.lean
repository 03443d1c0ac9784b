import MsgBus.NodeConnections
import MsgBus.RouterNetwork

/-!
# The topology that a tracker finds

A router that is asked for the topology names its nodes and the id that its
parent has confirmed. A confirmation is for the router, so that the id is its
own: a child names itself where it means its parent, and the links of a tree
are known from the answers of the parents.
-/

set_option autoImplicit false

namespace MsgBus

open StepRun

namespace Router

/-- What a router answers when it is asked for the topology. -/
def topologyAnswers (r : Router) : List RouterTopologyInfo :=
  r.nodes.nodes.entries.map (fun e =>
    ⟨r.getId,e.1,r.ids.instanceId,connectionKindOf e.2.connection⟩) ++
    if r.parentRouter.isConfirmed then
      [⟨r.getId,r.parentRouter.confirmedId,r.ids.instanceId,
        connectionKindOf r.parentRouter.connection⟩]
    else []

variable (env : RouterEnv) (clk : Clock) (message : MessageView)

def answerTopology (r : Router) (info : RouterTopologyInfo) : Router :=
  match env.writeTopology info with
  | some serialized =>
    r.respond env clk (msgbusId .topoRutrCn) (response serialized r.getId message)
  | none => r

theorem respondTopology_eq (r : Router) (remoteId : EndpointId) (kind : ConnectionKind) :
    r.respondTopology env clk remoteId kind message =
      r.answerTopology env clk message ⟨r.getId,remoteId,r.ids.instanceId,kind⟩ := rfl

theorem answers_foldl {r r' : Router} (h : RouterRun.Unmoved r r')
    (entries : List (EndpointId × AdjacentNode)) :
    entries.foldl (fun r e =>
        r.respondTopology env clk e.1 (connectionKindOf e.2.connection) message) r' =
      (entries.map fun e => ⟨r.getId,e.1,r.ids.instanceId,connectionKindOf e.2.connection⟩).foldl
        (fun r info => r.answerTopology env clk message info) r' := by
  induction entries generalizing r' with
  | nil => rfl
  | cons e entries ih =>
    rw [List.foldl_cons, List.map_cons, List.foldl_cons,
      ih (h.trans (RouterRun.topology_frame r' e.1 _)), respondTopology_eq, h.own, h.ids]

/-- The router sends these answers, one after the other. -/
theorem handleTopologyQuery_answers (r : Router) :
    r.handleTopologyQuery env clk message =
      (false,r.topologyAnswers.foldl (fun r info => r.answerTopology env clk message info) r) := by
  have hframe : RouterRun.Unmoved r (r.nodes.nodes.entries.foldl (fun r e =>
      r.respondTopology env clk e.1 (connectionKindOf e.2.connection) message) r) :=
    .foldl (fun r (e : EndpointId × AdjacentNode) => RouterRun.topology_frame r e.1 _) r _
  unfold handleTopologyQuery topologyAnswers
  dsimp only
  rw [List.foldl_append, ← answers_foldl env clk message (.refl r), hframe.parent]
  split_ifs
  · rw [respondTopology_eq, hframe.own, hframe.ids]
    rfl
  · rfl

end Router

namespace BusTree

variable {μ : Type} (bus : BusTree μ) (router : μ → Router)

/-- Each router has its children as nodes, and nobody else, and its parent has
confirmed its id. -/
structure Tables : Prop where
  own : ∀ v, bus.isRouter v = true → (router v).getId = bus.id v
  nodes : ∀ v, bus.isRouter v = true → ∀ e ∈ (router v).nodes.nodes.entries,
    (bus.child v e.1).isSome = true
  children : ∀ c v, bus.parent c = some v →
    ((router v).nodes.nodes.find? (bus.id c)).isSome = true
  confirmed : ∀ v, bus.isRouter v = true → (router v).parentRouter.isConfirmed = true →
    (router v).parentRouter.confirmedId = bus.id v

/-- The kind of the connection of a router to its child. -/
def kindTo (v c : μ) : ConnectionKind :=
  Router.connectionKindOf (((router v).nodes.find (bus.id c)).bind fun node => node.connection)

/-- The links that the answers name: those of the tree, and one of each router
that is confirmed with itself. -/
inductive Link : Sym2 EndpointId → ConnectionKind → Prop where
  | child {v c : μ} (h : bus.parent c = some v) :
      Link s(bus.id v,bus.id c) (bus.kindTo router v c)
  | self {v : μ} (hr : bus.isRouter v = true)
      (hc : (router v).parentRouter.isConfirmed = true) :
      Link s(bus.id v,bus.id v) (Router.connectionKindOf (router v).parentRouter.connection)

/-- An answer of the routers, or something else that is told of nodes: each node
shows one instance, no bridge answers, and the statistics of connections are of
links that there are. -/
def Told (instanceOf : EndpointId → ℕ) : TrackerEvent → Prop
  | .alive id instanceId => instanceId = instanceOf id
  | .subscribed id instanceId _ => instanceId = instanceOf id
  | .unsubscribed id instanceId _ => instanceId = instanceOf id
  | .notSubscribed id instanceId _ => instanceId = instanceOf id
  | .routerAppeared info => ∃ v, bus.isRouter v = true ∧ info ∈ (router v).topologyAnswers
  | .bridgeAppeared _ => False
  | .endpointAppeared id instanceId => instanceId = instanceOf id
  | .connectionStatsReceived localId remoteId => ∃ kind, bus.Link router s(localId,remoteId) kind
  | _ => True

variable {bus router}

section Link

variable {e : Sym2 EndpointId} {kind kind' : ConnectionKind} {v c : μ}

theorem parent_ne (h : bus.parent c = some v) : v ≠ c := by
  rintro rfl
  exact lt_irrefl _ (bus.above v v h)

theorem Link.unique (hinj : Function.Injective bus.id) (h : bus.Link router e kind)
    (h' : bus.Link router e kind') : kind = kind' := by
  induction h with
  | @child v c h =>
    generalize he : s(bus.id v,bus.id c) = e at h'
    cases h' with
    | child h' =>
      rcases Sym2.eq_iff.mp he with ⟨hv,hc⟩ | ⟨hv,hc⟩
      · rw [hinj hv, hinj hc]
      · -- neither of two members is above the other one
        rw [← hinj hv, ← hinj hc] at h'
        exact absurd (bus.above c v h) (lt_asymm (bus.above v c h'))
    | self hr hc =>
      rcases Sym2.eq_iff.mp he with ⟨hv,hc⟩ | ⟨hv,hc⟩
      · exact absurd (hinj (hv.trans hc.symm)) (parent_ne h)
      · exact absurd (hinj (hv.trans hc.symm)) (parent_ne h)
  | @self v hr hc =>
    generalize he : s(bus.id v,bus.id v) = e at h'
    cases h' with
    | child h' =>
      rcases Sym2.eq_iff.mp he with ⟨hv,hc⟩ | ⟨hv,hc⟩
      · exact absurd (hinj (hv.symm.trans hc)) (parent_ne h')
      · exact absurd (hinj (hc.symm.trans hv)) (parent_ne h')
    | self hr' hc' =>
      rcases Sym2.eq_iff.mp he with ⟨hv,-⟩ | ⟨hv,-⟩ <;> rw [hinj hv]

/-- An answer names a link. -/
theorem link_of_answer (ht : bus.Tables router) (hr : bus.isRouter v = true)
    {info : RouterTopologyInfo} (h : info ∈ (router v).topologyAnswers) :
    info.routerId = bus.id v ∧ info.instanceId = (router v).ids.instanceId ∧
      bus.Link router s(info.routerId,info.remoteId) info.connectKind := by
  rcases List.mem_append.mp h with h | h
  · obtain ⟨⟨i,node⟩,hmem,rfl⟩ := List.mem_map.mp h
    have hfind := OrderedMap.find?_eq_some.mpr hmem
    refine ⟨ht.own v hr,rfl,?_⟩
    obtain ⟨c,hc⟩ := Option.isSome_iff_exists.mp (ht.nodes v hr _ hmem)
    obtain ⟨hparent,rfl⟩ := (bus.child_iff v i c).mp hc
    have hkind : bus.kindTo router v c = Router.connectionKindOf node.connection := by
      rw [kindTo, RouterNodes.find, hfind]
      rfl
    rw [ht.own v hr, ← hkind]
    exact .child hparent
  · split_ifs at h with hconf
    · obtain rfl := List.mem_singleton.mp h
      refine ⟨ht.own v hr,rfl,?_⟩
      rw [ht.own v hr, ht.confirmed v hr hconf]
      exact .self hr hconf
    · cases h

/-- The link to a child is named by an answer of its parent. -/
theorem answer_of_child (ht : bus.Tables router) (h : bus.parent c = some v) :
    ⟨bus.id v,bus.id c,(router v).ids.instanceId,bus.kindTo router v c⟩ ∈
      (router v).topologyAnswers := by
  obtain ⟨node,hfind⟩ := Option.isSome_iff_exists.mp (ht.children c v h)
  refine List.mem_append_left _ (List.mem_map.mpr ⟨_,OrderedMap.find?_eq_some.mp hfind,?_⟩)
  rw [ht.own v (bus.routers c v h), kindTo, RouterNodes.find, hfind]
  rfl

theorem Link.ids (hids : ∀ m, bus.id m ≠ 0) (h : bus.Link router e kind) : 0 ∉ e := by
  cases h with
  | child h => exact NodeTracker.ids_ends (hids _) (hids _)
  | self hr hc => exact NodeTracker.ids_ends (hids _) (hids _)

end Link

section Search

variable {instanceOf : EndpointId → ℕ}

/-- The routers have their tables, members have ids of their own, and each node
shows one instance. -/
structure Shown (bus : BusTree μ) (router : μ → Router) (instanceOf : EndpointId → ℕ) :
    Prop where
  tables : bus.Tables router
  distinct : Function.Injective bus.id
  ids : ∀ m, bus.id m ≠ 0
  instances : ∀ id, instanceOf id ≠ 0
  routers : ∀ v, bus.isRouter v = true → (router v).ids.instanceId = instanceOf (bus.id v)

theorem Told.proper (h : bus.Shown router instanceOf) {e : TrackerEvent}
    (ht : bus.Told router instanceOf e) : NodeTracker.Proper e := by
  cases e with
  | routerAppeared info =>
    obtain ⟨v,hr,hmem⟩ := ht
    obtain ⟨hown,hinst,-⟩ := link_of_answer h.tables hr hmem
    rw [NodeTracker.Proper, hown, hinst, h.routers v hr]
    exact ⟨h.instances _,h.ids v⟩
  | bridgeAppeared info => exact ht.elim
  | connectionStatsReceived localId remoteId =>
    obtain ⟨kind,hlink⟩ := ht
    have h0 := hlink.ids h.ids
    rw [Sym2.mem_iff, not_or] at h0
    exact ⟨Ne.symm h0.1,Ne.symm h0.2⟩
  | alive id instanceId => exact ht ▸ h.instances id
  | subscribed id instanceId msgId => exact ht ▸ h.instances id
  | unsubscribed id instanceId msgId => exact ht ▸ h.instances id
  | notSubscribed id instanceId msgId => exact ht ▸ h.instances id
  | endpointAppeared id instanceId => exact ht ▸ h.instances id
  | _ => trivial

/-- No node has shown another instance, and each link that is known is one. -/
structure Known (bus : BusTree μ) (router : μ → Router) (instanceOf : EndpointId → ℕ)
    (l : TopologyLinks) : Prop where
  instances : ∀ id, l.instanceOf id = 0 ∨ l.instanceOf id = instanceOf id
  links : ∀ e kind, l.kind e = some kind → ∃ kind', bus.Link router e kind' ∧
    (kind = kind' ∨ kind = .unknown)

variable {l : TopologyLinks}

theorem Known.notice (h : bus.Known router instanceOf l) (id : EndpointId) :
    bus.Known router instanceOf (l.notice id (instanceOf id)) ∧
      (l.notice id (instanceOf id)).kind = l.kind := by
  have hkind : (l.notice id (instanceOf id)).kind = l.kind :=
    if_neg fun hother => (h.instances id).elim hother.1 hother.2
  refine ⟨⟨fun id' => ?_,hkind ▸ h.links⟩,hkind⟩
  by_cases hid : id' = id
  · exact Or.inr (by rw [hid]; exact Function.update_self _ _ _)
  · have hsame : (l.notice id (instanceOf id)).instanceOf id' = l.instanceOf id' :=
      Function.update_of_ne hid _ _
    rw [hsame]
    exact h.instances id'

theorem Known.tell (h : bus.Known router instanceOf l) {e : Sym2 EndpointId}
    {kind : ConnectionKind} (he : bus.Link router e kind) :
    bus.Known router instanceOf (l.tell e kind) := by
  refine ⟨h.instances,fun e' kind' hk => ?_⟩
  rw [TopologyLinks.kind_tell] at hk
  split_ifs at hk with hse
  · cases hk
    exact ⟨kind,hse ▸ he,Or.inl rfl⟩
  · exact h.links e' kind' hk

theorem Known.ensure (h : bus.Known router instanceOf l) {e : Sym2 EndpointId}
    {kind : ConnectionKind} (he : bus.Link router e kind) :
    bus.Known router instanceOf (l.ensure e) := by
  cases hk : l.kind e with
  | some known =>
    rw [TopologyLinks.ensure_known hk]
    exact h
  | none =>
    refine ⟨h.instances,fun e' kind' hk' => ?_⟩
    rw [TopologyLinks.kind_ensure, hk] at hk'
    split_ifs at hk' with hse
    · cases hk'
      exact ⟨kind,hse ▸ he,Or.inr rfl⟩
    · exact h.links e' kind' hk'

theorem Known.leave (h : bus.Known router instanceOf l) (id : EndpointId) :
    bus.Known router instanceOf (l.leave id) := by
  refine ⟨fun id' => ?_,h.links⟩
  by_cases hid : id' = id
  · exact Or.inl (by rw [hid]; exact Function.update_self _ _ _)
  · have hsame : (l.leave id).instanceOf id' = l.instanceOf id' := Function.update_of_ne hid _ _
    rw [hsame]
    exact h.instances id'

/-- Links are told with the kind that they have. -/
theorem Link.tell_keeps (hinj : Function.Injective bus.id) {e e' : Sym2 EndpointId}
    {kind kind' : ConnectionKind} (he : bus.Link router e kind) (he' : bus.Link router e' kind')
    (hk : l.kind e' = some kind') : (l.tell e kind).kind e' = some kind' := by
  rw [TopologyLinks.kind_tell]
  split_ifs with hse
  · rw [he.unique hinj (hse ▸ he')]
  · exact hk

/-- What is told keeps the links that are known. -/
theorem known_step (hs : bus.Shown router instanceOf) (h : bus.Known router instanceOf l)
    {e : TrackerEvent} (ht : bus.Told router instanceOf e) :
    bus.Known router instanceOf (l.step e) ∧
      ∀ e' kind, bus.Link router e' kind → l.kind e' = some kind →
        (l.step e).kind e' = some kind := by
  have hnotice {id : EndpointId} {instanceId : ℕ} (hi : instanceId = instanceOf id) :
      bus.Known router instanceOf (l.notice id instanceId) ∧
        ∀ e' kind, bus.Link router e' kind → l.kind e' = some kind →
          (l.notice id instanceId).kind e' = some kind := by
    obtain ⟨hknown,hkind⟩ := h.notice id
    rw [hi, hkind]
    exact ⟨hknown,fun _ _ _ hk => hk⟩
  cases e with
  | alive id instanceId => exact hnotice ht
  | subscribed id instanceId msgId => exact hnotice ht
  | unsubscribed id instanceId msgId => exact hnotice ht
  | notSubscribed id instanceId msgId => exact hnotice ht
  | endpointAppeared id instanceId => exact hnotice ht
  | bridgeAppeared info => exact ht.elim
  | routerAppeared info =>
    obtain ⟨v,hr,hmem⟩ := ht
    obtain ⟨hown,hinst,hlink⟩ := link_of_answer hs.tables hr hmem
    have hshown : info.instanceId = instanceOf info.routerId := by
      rw [hown, hinst, hs.routers v hr]
    obtain ⟨hknown,hkept⟩ := hnotice hshown
    unfold TopologyLinks.step
    dsimp only
    split_ifs with hremote
    · exact ⟨hknown.tell hlink,fun e' kind he' hk =>
        hlink.tell_keeps hs.distinct he' (hkept e' kind he' hk)⟩
    · exact ⟨hknown,hkept⟩
  | connectionStatsReceived localId remoteId =>
    obtain ⟨kind,hlink⟩ := ht
    exact ⟨h.ensure hlink,fun e' kind' _ hk => TopologyLinks.ensure_keeps hk⟩
  | routerDisappeared id => exact ⟨h.leave id,fun _ _ _ hk => hk⟩
  | bridgeDisappeared id => exact ⟨h.leave id,fun _ _ _ hk => hk⟩
  | endpointDisappeared id => exact ⟨h.leave id,fun _ _ _ hk => hk⟩
  | _ => exact ⟨h,fun _ _ _ hk => hk⟩

theorem known_run (hs : bus.Shown router instanceOf) (h : bus.Known router instanceOf l)
    (es : List TrackerEvent) (hes : ∀ e ∈ es, bus.Told router instanceOf e) :
    bus.Known router instanceOf (StepRun.run TopologyLinks.step l es) ∧
      ∀ e' kind, bus.Link router e' kind → l.kind e' = some kind →
        (StepRun.run TopologyLinks.step l es).kind e' = some kind := by
  induction es generalizing l with
  | nil => exact ⟨h,fun _ _ _ hk => hk⟩
  | cons e es ih =>
    obtain ⟨hknown,hkept⟩ := known_step hs h (hes e List.mem_cons_self)
    obtain ⟨hend,hkept'⟩ := ih hknown fun e' he' => hes e' (List.mem_cons_of_mem e he')
    exact ⟨hend,fun e' kind he' hk => hkept' e' kind he' (hkept e' kind he' hk)⟩

/-- A link that was told of is known at the end. -/
theorem told_run (hs : bus.Shown router instanceOf) (h : bus.Known router instanceOf l)
    {es : List TrackerEvent} (hes : ∀ e ∈ es, bus.Told router instanceOf e)
    {info : RouterTopologyInfo} (hin : .routerAppeared info ∈ es) (h0 : info.remoteId ≠ 0)
    (hlink : bus.Link router s(info.routerId,info.remoteId) info.connectKind) :
    (StepRun.run TopologyLinks.step l es).kind s(info.routerId,info.remoteId) =
      some info.connectKind := by
  induction es generalizing l with
  | nil => cases hin
  | cons e es ih =>
    have hknown := (known_step hs h (hes e List.mem_cons_self)).1
    have hrest (e' : TrackerEvent) (he' : e' ∈ es) : bus.Told router instanceOf e' :=
      hes e' (List.mem_cons_of_mem e he')
    rcases List.mem_cons.mp hin with rfl | hlater
    · refine (known_run hs hknown es hrest).2 _ _ hlink ?_
      unfold TopologyLinks.step
      dsimp only
      rw [if_pos h0, TopologyLinks.kind_tell, if_pos rfl]
    · exact ih hknown hrest hlater

end Search

section Found

variable {instanceOf : EndpointId → ℕ}

/-- The routers keep their nodes and the nodes their instances (`Shown`), and
what is told is told of them (`Told`). Then, however the answers of the routers
come, after an update a client of the tracker is shown no links but those of the
tree and those of routers with themselves; it is shown the links of each router
of which all answers have come, with their kinds. -/
theorem topology_found (hs : bus.Shown router instanceOf) (es : List TrackerEvent)
    (hes : ∀ e ∈ es, bus.Told router instanceOf e) :
    let picture := ((StepRun.run TopologyWatch.step {} es).step .update).picture
    (∀ e kind, picture e = some kind → ∃ kind', bus.Link router e kind' ∧
      (kind = kind' ∨ kind = .unknown)) ∧
    ∀ v c, bus.parent c = some v →
      (∀ info ∈ (router v).topologyAnswers, .routerAppeared info ∈ es) →
      picture s(bus.id v,bus.id c) = some (bus.kindTo router v c) := by
  intro picture
  have hpicture : picture = (StepRun.run TopologyLinks.step .start es).kind :=
    TopologyWatch.picture_run es fun e he => (hes e he).proper hs
  have hstart : bus.Known router instanceOf .start :=
    ⟨fun _ => Or.inl rfl,fun _ _ hk => by cases hk⟩
  rw [hpicture]
  refine ⟨(known_run hs hstart es hes).1.links,fun v c hc hall => ?_⟩
  have hanswer := answer_of_child hs.tables hc
  exact told_run hs hstart hes (hall _ hanswer) (hs.ids c)
    (link_of_answer hs.tables (bus.routers c v hc) hanswer).2.2

end Found

end BusTree

/-! ## The sample network -/

namespace TopologySample

open SampleMember

def accept (connection : Connection) (id : EndpointId) : List RouterRun.Event := [
  .handleAccept sampleClock connection,
  .handlePending sampleClock
    (fun l => if l = connection.link then [(msgbusId .announceId,{ sourceId := id })] else [])
    fun _ => []]

def joinByKind : List (NetworkEvent SampleMember) :=
  (accept { link := 1, kind := .localInterprocess } 50 ++
      accept { link := 2, kind := .inProcess } 7).map (.route upper) ++
    [.route lower (.addConnection { link := 1, kind := .localInterprocess }),
      .route lower (.fromParent sampleClock (msgbusId .confirmId) 0 { targetId := 50 })] ++
    (accept { link := 3, kind := .remoteInterprocess } 9).map (.route lower)

def routers : SampleMember → Router :=
  (StepRun.run (RouterNetwork.step sampleBus fun _ => RouterRun.sampleEnv)
    (RouterNetwork.start setup) joinByKind).router

/-- The answers of the lower router come before those of the upper one. -/
def answersCome : List TrackerEvent :=
  .alive 9 1 :: [lower,upper].flatMap fun v => (routers v).topologyAnswers.map .routerAppeared

theorem topology_found_sample :
    ((StepRun.run TopologyWatch.step {} answersCome).step .update).picture s(50,9) =
      some .remoteInterprocess := by
  have hshown : sampleBus.Shown routers fun _ => 1 :=
    ⟨⟨by decide,by decide,by decide,by decide⟩,by decide,by decide,fun _ => one_ne_zero,by decide⟩
  have htold : ∀ e ∈ answersCome, sampleBus.Told routers (fun _ => 1) e := by
    intro e he
    rcases List.mem_cons.mp he with rfl | he
    · rfl
    · obtain ⟨v,hv,hin⟩ := List.mem_flatMap.mp he
      obtain ⟨info,hinfo,rfl⟩ := List.mem_map.mp hin
      have hrouters : ∀ v ∈ [lower,upper], sampleBus.isRouter v = true := by decide
      exact ⟨v,hrouters v hv,hinfo⟩
  refine (sampleBus.topology_found hshown answersCome htold).2 lower far rfl fun info hinfo => ?_
  exact List.mem_cons_of_mem _ (List.mem_flatMap.mpr
    ⟨lower,List.mem_cons_self,List.mem_map_of_mem hinfo⟩)

end TopologySample

end MsgBus
