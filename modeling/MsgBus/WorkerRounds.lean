import Mathlib.Data.List.Nodup
import MsgBus.RouterRun

/-!
# Rounds of work by workers

The router thread sizes a latch by the number of nodes, enqueues a unit for
each node that has a connection, serves the parent and waits for the latch;
it does so twice. Workers take the units in any order, handle messages or
update connections meanwhile, and count the latch down when a unit is done.
The pool of workers and its order are not part of the sources; a unit counts
its latch down once, when it is done.
-/

set_option autoImplicit false

namespace MsgBus

open Router RouterRun

inductive WorkerPhase where
  | routeMessages | updateConnections
  deriving DecidableEq, Repr

/-- Where the router thread is: in the loop with these nodes left, past it, at
the wait, or back from `do_work_by_workers`. -/
inductive RouterThread where
  | enqueueing (phase : WorkerPhase) (rest : List EndpointId)
  | serving (phase : WorkerPhase)
  | waiting (phase : WorkerPhase)
  | returned
  deriving DecidableEq, Repr

/-- The lists `units` and `done` are those of all units that were enqueued and
of all that have counted down in the phase. -/
structure WorkerRound where
  router : Router
  thread : RouterThread
  initial : ℕ
  latch : ℕ
  enqueued : List EndpointId := []
  working : List EndpointId := []
  units : List EndpointId := []
  done : List EndpointId := []

inductive WorkerEvent where
  | visit
  | fromParent (clk : Clock) (msgId : MessageId) (age : MessageAge) (message : MessageView)
  | serve (clk : Clock)
  | wait
  | take (id : EndpointId)
  | fromNode (clk : Clock) (id : EndpointId) (msgId : MessageId) (age : MessageAge)
      (message : MessageView)
  | updateConnection (id : EndpointId) (usable : Bool) (maxDataSize : Option ℕ)
  | finish (id : EndpointId)

namespace WorkerRound

def nodeIds (r : Router) : List EndpointId := r.nodes.nodes.entries.map (fun e => e.1)

def hasConnection (r : Router) (id : EndpointId) : Bool :=
  (r.nodes.find id).any (fun node => node.connection.isSome)

/-- A phase starts with a latch for all nodes. -/
def startPhase (phase : WorkerPhase) (r : Router) : WorkerRound where
  router := r
  thread := .enqueueing phase (nodeIds r)
  initial := r.nodes.nodes.size
  latch := r.nodes.nodes.size

/-- `do_work_by_workers` is called. -/
def start (r : Router) : WorkerRound := startPhase .routeMessages r

def phase (s : WorkerRound) : Option WorkerPhase :=
  match s.thread with
  | .enqueueing phase _ => some phase
  | .serving phase => some phase
  | .waiting phase => some phase
  | .returned => none

/-- `enqueue_route_messages` and `enqueue_update_connection`. -/
def enqueue (s : WorkerRound) (id : EndpointId) : WorkerRound :=
  if hasConnection s.router id then
    { s with enqueued := s.enqueued++[id], units := s.units++[id] }
  else s

def step (env : RouterEnv) (s : WorkerRound) : WorkerEvent → WorkerRound
  | .visit =>
    match s.thread with
    | .enqueueing phase (id::rest) => { s.enqueue id with thread := .enqueueing phase rest }
    | .enqueueing phase [] => { s with thread := .serving phase }
    | _ => s
  | .fromParent clk msgId age message =>
    if s.thread = .serving .routeMessages then
      { s with router := RouterRun.step env s.router (.fromParent clk msgId age message) }
    else s
  | .serve clk =>
    match s.thread with
    | .serving .routeMessages => { s with thread := .waiting .routeMessages }
    | .serving .updateConnections =>
      { s with
        router := RouterRun.step env s.router (.updateParent clk)
        thread := .waiting .updateConnections }
    | _ => s
  | .wait =>
    match s.thread with
    | .waiting .routeMessages =>
      if s.latch = 0 then startPhase .updateConnections s.router else s
    | .waiting .updateConnections => if s.latch = 0 then { s with thread := .returned } else s
    | _ => s
  | .take id =>
    if id ∈ s.enqueued then
      { s with enqueued := s.enqueued.erase id, working := s.working++[id] }
    else s
  | .fromNode clk id msgId age message =>
    if id ∈ s.working ∧ s.phase = some .routeMessages then
      { s with router := RouterRun.step env s.router (.fromNode clk id msgId age message) }
    else s
  | .updateConnection id usable maxDataSize =>
    if id ∈ s.working ∧ s.phase = some .updateConnections then
      { s with router := RouterRun.step env s.router (.nodeConnection id usable maxDataSize) }
    else s
  | .finish id =>
    if id ∈ s.working then
      { s with
        working := s.working.erase id
        latch := s.latch-1
        done := s.done++[id] }
    else s

/-- Whether the thread or a worker gets ahead by the step. -/
def moves (s : WorkerRound) : WorkerEvent → Bool
  | .visit =>
    match s.thread with
    | .enqueueing _ _ => true
    | _ => false
  | .serve _ =>
    match s.thread with
    | .serving _ => true
    | _ => false
  | .wait =>
    match s.thread with
    | .waiting _ => s.latch = 0
    | _ => false
  | .take id => id ∈ s.enqueued
  | .finish id => id ∈ s.working
  | _ => false

def Moves (s : WorkerRound) (e : WorkerEvent) : Prop := s.moves e = true

instance (s : WorkerRound) (e : WorkerEvent) : Decidable (Moves s e) :=
  inferInstanceAs (Decidable (s.moves e = true))

/-- The nodes that the loop has yet to visit. -/
def rest (s : WorkerRound) : List EndpointId :=
  match s.thread with
  | .enqueueing _ rest => rest
  | _ => []

/-- Every node has a connection, a unit counts down once, past the loop there
is a unit for each count of the latch, and in the end all have counted down. -/
structure Accounted (s : WorkerRound) : Prop where
  connections : ∀ e ∈ s.router.nodes.nodes.entries, e.2.connection.isSome = true
  counted : s.latch+s.done.length = s.initial
  once : s.units.Nodup ∧ s.done.Nodup ∧ s.done ⊆ s.units
  enqueued : (∀ phase rest, s.thread ≠ .enqueueing phase rest) → s.units = nodeIds s.router ∧
    s.units.length = s.initial
  returned : s.thread = .returned → s.latch = 0 ∧ s.done.Perm s.units

section Router

variable {env : RouterEnv} {setup : Setup} {clk : Clock} {r r' : Router}

theorem nodeIds_of_nodes (h : r'.nodes.nodes = r.nodes.nodes) : nodeIds r' = nodeIds r := by
  rw [nodeIds, nodeIds, h]

theorem nodeIds_modifyNode (r : Router) (id : EndpointId) (f : AdjacentNode → AdjacentNode) :
    nodeIds (r.modifyNode id f) = nodeIds r := by
  simp [nodeIds, modifyNode, RouterNodes.modifyNode, OrderedMap.mapValues]

variable (env clk) in
theorem nodeIds_handleSpecial (r : Router) (incomingId : EndpointId) (message : MessageView)
    (msgId : MessageId) :
    nodeIds (r.handleSpecial env clk incomingId message msgId).2 = nodeIds r := by
  rcases handleSpecial_cases env clk message msgId r incomingId with h | ⟨f,_,h⟩
  · exact nodeIds_of_nodes h.nodes
  · exact (nodeIds_of_nodes h.nodes).trans (nodeIds_modifyNode r _ _)

/-- No node comes or goes when a message of a node is handled. -/
theorem nodeIds_fromNode (r : Router) (id : EndpointId) (msgId : MessageId) (age : MessageAge)
    (message : MessageView) :
    nodeIds (RouterRun.step env r (.fromNode clk id msgId age message)) = nodeIds r := by
  have h := nodeIds_handleSpecial env clk r id (aged message age) msgId
  rw [RouterRun.step]
  split_ifs
  · unfold handleNodeMessage
    dsimp only
    split_ifs
    · exact h
    · exact h
    · exact h
  · rfl

theorem nodeIds_fromParent (r : Router) (msgId : MessageId) (age : MessageAge)
    (message : MessageView) :
    nodeIds (RouterRun.step env r (.fromParent clk msgId age message)) = nodeIds r := by
  have h (message : MessageView) : nodeIds
      (r.handleSpecialFromParent env clk r.parentRouter.confirmedId message msgId).2 =
        nodeIds r := by
    unfold handleSpecialFromParent
    split_ifs
    · exact nodeIds_of_nodes common_frame.toFrame.nodes
    · rfl
  rw [RouterRun.step]
  split_ifs
  · unfold handleParentMessage
    dsimp only
    split_ifs
    · unfold handleSpecialParentMessage
      split
      · rfl
      · rfl
      · rfl
      · rfl
      · dsimp only
        split_ifs
        · exact h _
        · exact h _
    · rfl
    · rfl
  · rfl

theorem nodeIds_nodup (r : Router) : (nodeIds r).Nodup :=
  r.nodes.nodes.keys_nodup

/-- Each node of a router that is reached has a connection. -/
theorem hasConnection_of_mem (hr : Reachable env setup r) {id : EndpointId}
    (hid : id ∈ nodeIds r) : hasConnection r id = true := by
  obtain ⟨e,he,rfl⟩ := List.mem_map.mp hid
  rw [hasConnection, RouterNodes.find, OrderedMap.find?_eq_some.mpr he]
  exact hr.valid.connections e he

end Router

section Round

variable {env : RouterEnv} {setup : Setup} {s s' : WorkerRound} {moved : Bool}

/-- What a step comes to, and whether the thread or a worker gets ahead by it. -/
inductive Taken (env : RouterEnv) (setup : Setup) (s : WorkerRound) : Bool → WorkerRound → Prop
  | nothing : Taken env setup s false s
  | handled (r : Router) (hr : Reachable env setup r) (hids : nodeIds r = nodeIds s.router) :
      Taken env setup s false { s with router := r }
  | visited (phase : WorkerPhase) (id : EndpointId) (rest : List EndpointId)
      (ht : s.thread = .enqueueing phase (id::rest)) :
      Taken env setup s true { s.enqueue id with thread := .enqueueing phase rest }
  | looped (phase : WorkerPhase) (ht : s.thread = .enqueueing phase []) :
      Taken env setup s true { s with thread := .serving phase }
  | served (phase : WorkerPhase) (r : Router) (ht : s.thread = .serving phase)
      (hr : Reachable env setup r) (hids : nodeIds r = nodeIds s.router) :
      Taken env setup s true { s with router := r, thread := .waiting phase }
  | routed (ht : s.thread = .waiting .routeMessages) (h0 : s.latch = 0) :
      Taken env setup s true (startPhase .updateConnections s.router)
  | returned (ht : s.thread = .waiting .updateConnections) (h0 : s.latch = 0) :
      Taken env setup s true { s with thread := .returned }
  | taken (id : EndpointId) (hid : id ∈ s.enqueued) :
      Taken env setup s true
        { s with enqueued := s.enqueued.erase id, working := s.working++[id] }
  | finished (id : EndpointId) (hid : id ∈ s.working) :
      Taken env setup s true
        { s with
          working := s.working.erase id
          latch := s.latch-1
          done := s.done++[id] }

theorem step_taken (hr : Reachable env setup s.router) (e : WorkerEvent) :
    Taken env setup s (s.moves e) (step env s e) := by
  cases e with
  | visit =>
    cases ht : s.thread with
    | enqueueing phase rest =>
      cases rest with
      | nil => simpa only [step, moves, ht] using .looped phase ht
      | cons id rest => simpa only [step, moves, ht] using .visited phase id rest ht
    | _ => simpa only [step, moves, ht] using .nothing
  | fromParent clk msgId age message =>
    rw [step]
    split_ifs
    · exact .handled _ (hr.step _) (nodeIds_fromParent _ _ _ _)
    · exact .nothing
  | serve clk =>
    cases ht : s.thread with
    | serving phase =>
      cases phase with
      | routeMessages =>
        simpa only [step, moves, ht] using .served .routeMessages s.router ht hr rfl
      | updateConnections =>
        have h : Taken env setup s true
            { s with
              router := RouterRun.step env s.router (.updateParent clk)
              thread := .waiting .updateConnections } :=
          .served .updateConnections _ ht (hr.step _) rfl
        simpa only [step, moves, ht] using h
    | _ => simpa only [step, moves, ht] using .nothing
  | wait =>
    cases ht : s.thread with
    | waiting phase =>
      by_cases h0 : s.latch = 0
      · cases phase with
        | routeMessages =>
          simpa only [step, moves, ht, if_pos h0, decide_eq_true h0] using .routed ht h0
        | updateConnections =>
          simpa only [step, moves, ht, if_pos h0, decide_eq_true h0] using .returned ht h0
      · cases phase <;> simpa [step, moves, ht, h0] using .nothing
    | _ => simpa only [step, moves, ht] using .nothing
  | take id =>
    by_cases hid : id ∈ s.enqueued
    · simpa [step, moves, hid] using .taken id hid
    · simpa [step, moves, hid] using .nothing
  | fromNode clk id msgId age message =>
    rw [step]
    split_ifs
    · exact .handled _ (hr.step _) (nodeIds_fromNode _ _ _ _ _)
    · exact .nothing
  | updateConnection id usable maxDataSize =>
    rw [step]
    split_ifs
    · exact .handled _ (hr.step _) (nodeIds_modifyNode _ _ _)
    · exact .nothing
  | finish id =>
    by_cases hid : id ∈ s.working
    · simpa [step, moves, hid] using .finished id hid
    · simpa [step, moves, hid] using .nothing

/-- The units are those of the nodes the loop has visited, and each is waiting,
at work or done. -/
structure Inv (env : RouterEnv) (setup : Setup) (s : WorkerRound) : Prop where
  reachable : Reachable env setup s.router
  visited : s.units++s.rest = nodeIds s.router
  placed : (s.done++(s.working++s.enqueued)).Perm s.units
  initial : s.initial = (nodeIds s.router).length
  counted : s.latch+s.done.length = s.initial
  back : s.thread = .returned → s.latch = 0

theorem Inv.startPhase (phase : WorkerPhase) {r : Router} (hr : Reachable env setup r) :
    Inv env setup (startPhase phase r) :=
  ⟨hr,rfl,.refl _,by simp [WorkerRound.startPhase, nodeIds, OrderedMap.size],rfl,
    fun h => (nomatch h)⟩

theorem Inv.latch_eq (hi : Inv env setup s) :
    s.latch = s.working.length+s.enqueued.length+s.rest.length := by
  have hv := congrArg List.length hi.visited
  have hp := hi.placed.length_eq
  have hn := hi.initial
  have hc := hi.counted
  simp only [List.length_append] at hv hp
  omega

theorem Inv.router (hi : Inv env setup s) {r : Router} (hr : Reachable env setup r)
    (hids : nodeIds r = nodeIds s.router) : Inv env setup { s with router := r } :=
  ⟨hr,by rw [hids]; exact hi.visited,hi.placed,by rw [hids]; exact hi.initial,hi.counted,hi.back⟩

/-- The thread goes on when it is not in the loop. -/
theorem Inv.thread (hi : Inv env setup s) (hrest : s.rest = []) {thread : RouterThread}
    (ht : ∀ phase rest, thread ≠ .enqueueing phase rest)
    (hback : thread = .returned → s.latch = 0) : Inv env setup { s with thread } := by
  refine ⟨hi.reachable,?_,hi.placed,hi.initial,hi.counted,hback⟩
  have hv := hi.visited
  rw [hrest] at hv
  cases thread with
  | enqueueing phase rest => exact absurd rfl (ht phase rest)
  | serving phase => exact hv
  | waiting phase => exact hv
  | returned => exact hv

theorem Inv.taken (hi : Inv env setup s) (h : Taken env setup s moved s') : Inv env setup s' := by
  cases h with
  | nothing => exact hi
  | handled r hr hids => exact hi.router hr hids
  | visited phase id rest ht =>
    have hrest : s.rest = id::rest := by rw [WorkerRound.rest, ht]
    have hv := hi.visited
    rw [hrest] at hv
    have hid : id ∈ nodeIds s.router := hv ▸ by simp
    rw [enqueue, if_pos (hasConnection_of_mem hi.reachable hid)]
    refine ⟨hi.reachable,?_,?_,hi.initial,hi.counted,fun h => (nomatch h)⟩
    · simpa [WorkerRound.rest] using hv
    · have hp := hi.placed.append_right [id]
      simpa only [List.append_assoc] using hp
  | looped phase ht =>
    exact hi.thread (by rw [WorkerRound.rest, ht]) (by simp) (fun h => (nomatch h))
  | served phase r ht hr hids =>
    have hr := hi.router hr hids
    exact hr.thread (by rw [WorkerRound.rest, ht]) (by simp) (fun h => (nomatch h))
  | routed ht h0 => exact .startPhase _ hi.reachable
  | returned ht h0 =>
    exact hi.thread (by rw [WorkerRound.rest, ht]) (by simp) (fun _ => h0)
  | taken id hid =>
    refine ⟨hi.reachable,hi.visited,?_,hi.initial,hi.counted,hi.back⟩
    refine List.Perm.trans (List.Perm.append_left _ ?_) hi.placed
    rw [List.append_assoc]
    exact List.Perm.append_left _ (List.perm_cons_erase hid).symm
  | finished id hid =>
    have hlatch := hi.latch_eq
    have hpos := List.length_pos_of_mem hid
    refine ⟨hi.reachable,hi.visited,?_,hi.initial,?_,fun h => ?_⟩
    · refine List.Perm.trans ?_ hi.placed
      rw [List.append_assoc]
      refine List.Perm.append_left _ ?_
      exact (List.perm_cons_erase hid).symm.append_right s.enqueued
    · have hc := hi.counted
      simp only [List.length_append, List.length_singleton]
      omega
    · have hb := hi.back h
      omega

theorem Inv.step (hi : Inv env setup s) (e : WorkerEvent) : Inv env setup (step env s e) :=
  hi.taken (step_taken hi.reachable e)

/-- The steps that are left to the thread and to the workers. -/
def left (s : WorkerRound) : ℕ :=
  2*s.enqueued.length+s.working.length+match s.thread with
    | .enqueueing .routeMessages rest => 3*(nodeIds s.router).length+6+3*rest.length
    | .serving .routeMessages => 3*(nodeIds s.router).length+5
    | .waiting .routeMessages => 3*(nodeIds s.router).length+4
    | .enqueueing .updateConnections rest => 3+3*rest.length
    | .serving .updateConnections => 2
    | .waiting .updateConnections => 1
    | .returned => 0

theorem left_router (s : WorkerRound) {r : Router} (h : nodeIds r = nodeIds s.router) :
    left { s with router := r } = left s := by
  simp only [left, h]

/-- No step makes more to do, and a move leaves less. -/
theorem Inv.left_taken (hi : Inv env setup s) (h : Taken env setup s moved s') :
    left s' ≤ left s ∧ (moved = true → left s' < left s) := by
  have hlatch := hi.latch_eq
  cases h with
  | nothing => exact ⟨Nat.le_refl _,fun h => (nomatch h)⟩
  | handled r hr hids => exact ⟨(left_router s hids).le,fun h => (nomatch h)⟩
  | visited phase id rest ht =>
    have hid : id ∈ nodeIds s.router := by
      rw [← hi.visited, show s.rest = id::rest by rw [WorkerRound.rest, ht]]
      simp
    rw [enqueue, if_pos (hasConnection_of_mem hi.reachable hid)]
    cases phase <;> simp only [left, ht, List.length_append, List.length_cons,
      List.length_nil] <;> omega
  | looped phase ht => cases phase <;> simp only [left, ht, List.length_nil] <;> omega
  | served phase r ht hr hids => cases phase <;> simp only [left, ht, hids] <;> omega
  | routed ht h0 =>
    simp only [left, WorkerRound.startPhase, ht, List.length_nil]
    omega
  | returned ht h0 =>
    simp only [left, ht]
    omega
  | taken id hid =>
    have hpos := List.length_pos_of_mem hid
    simp only [left, List.length_append, List.length_singleton, List.length_erase_of_mem hid]
    omega
  | finished id hid =>
    have hpos := List.length_pos_of_mem hid
    simp only [left, List.length_erase_of_mem hid]
    omega

theorem Inv.left_step (hi : Inv env setup s) (e : WorkerEvent) :
    left (WorkerRound.step env s e) ≤ left s ∧
      (Moves s e → left (WorkerRound.step env s e) < left s) :=
  hi.left_taken (step_taken hi.reachable e)

/-- The thread or a worker can get ahead until the thread is back: a thread
that waits for a latch above zero has units that are not done. -/
theorem Inv.live (hi : Inv env setup s) : s.thread = .returned ∨ ∃ e, Moves s e := by
  cases ht : s.thread with
  | enqueueing phase rest => exact Or.inr ⟨.visit,by simp [Moves, moves, ht]⟩
  | serving phase => exact Or.inr ⟨.serve ⟨0,id⟩,by simp [Moves, moves, ht]⟩
  | waiting phase =>
    apply Or.inr
    have hlatch := hi.latch_eq
    have hrest : s.rest = [] := by rw [WorkerRound.rest, ht]
    cases hw : s.working with
    | cons id working => exact ⟨.finish id,by simp [Moves, moves, hw]⟩
    | nil =>
      cases he : s.enqueued with
      | cons id enqueued => exact ⟨.take id,by simp [Moves, moves, he]⟩
      | nil =>
        have h0 : s.latch = 0 := by
          rw [hlatch, hw, he, hrest]
          rfl
        exact ⟨.wait,by simp [Moves, moves, ht, h0]⟩
  | returned => exact Or.inl rfl

/-- When the thread is back, all units are done and nothing moves. -/
theorem Inv.idle (hi : Inv env setup s) (ht : s.thread = .returned) :
    s.working = [] ∧ s.enqueued = [] ∧ ∀ e, ¬Moves s e := by
  have hlatch := hi.latch_eq
  have h0 := hi.back ht
  have hw : s.working = [] := List.length_eq_zero_iff.mp (by omega)
  have he : s.enqueued = [] := List.length_eq_zero_iff.mp (by omega)
  refine ⟨hw,he,fun e => ?_⟩
  cases e <;> simp [Moves, moves, ht, hw, he]

theorem Inv.accounted (hi : Inv env setup s) : Accounted s := by
  have hunits : s.units.Nodup := by
    have hn := nodeIds_nodup s.router
    rw [← hi.visited] at hn
    exact hn.of_append_left
  have hplaced := hi.placed.nodup_iff.mpr hunits
  refine ⟨hi.reachable.valid.connections,hi.counted,⟨hunits,hplaced.of_append_left,?_⟩,?_,?_⟩
  · intro id hid
    exact hi.placed.subset (List.mem_append_left _ hid)
  · intro ht
    have hrest : s.rest = [] := by
      rw [WorkerRound.rest]
      split
      · rename_i phase rest h
        exact absurd h (ht phase rest)
      · rfl
    have hv := hi.visited
    rw [hrest, List.append_nil] at hv
    exact ⟨hv,by rw [hv, hi.initial]⟩
  · intro ht
    obtain ⟨hw,he,-⟩ := hi.idle ht
    have hp := hi.placed
    rw [hw, he] at hp
    exact ⟨hi.back ht,by simpa using hp⟩

theorem Inv.trace {r : Router} (hr : Reachable env setup r) (es : ℕ → WorkerEvent) (n : ℕ) :
    Inv env setup (StepRun.trace (WorkerRound.step env) (start r) es n) := by
  have hstep (s : WorkerRound) (e : WorkerEvent) (hi : Inv env setup s) :
      Inv env setup (WorkerRound.step env s e) := hi.step e
  exact StepRun.trace_keeps hstep (Inv.startPhase .routeMessages hr) n

/-- Whenever `do_work_by_workers` is called on a router that is reached, the
units are accounted for at every moment, and the call returns if those of the
thread and the workers that can go on go on in the end. -/
theorem worker_rounds_complete (env : RouterEnv) (setup : Setup) (r : Router)
    (hr : Reachable env setup r) (es : ℕ → WorkerEvent) :
    (∀ n, Accounted (StepRun.trace (step env) (start r) es n)) ∧
      (StepRun.Fair (step env) Moves (start r) es →
        ∃ n, (StepRun.trace (step env) (start r) es n).thread = .returned) := by
  have hstep (s : WorkerRound) (e : WorkerEvent) (hi : Inv env setup s) :
      Inv env setup (step env s e) := hi.step e
  constructor
  · intro n
    exact (Inv.trace hr es n).accounted
  · intro hfair
    exact StepRun.ends_of_fair hstep (fun _ e hi => (hi.left_step e).1)
      (fun _ e hi => (hi.left_step e).2) (fun _ hi => hi.live) (.startPhase _ hr) hfair

/-- Two nodes; the second unit is done before the loop is left, the first one
while the thread waits. -/
def sampleSchedule : List WorkerEvent :=
  [.visit,.take 7,.visit,.take 9,.finish 9,.visit,.serve sampleClock,.finish 7,.wait,
    .visit,.visit,.visit,.serve sampleClock,.take 7,.take 9,.finish 7,.finish 9,.wait]

def sampleRouter : Router := after sampleEnv sampleSetup (joinNode 1 7 ++ joinNode 2 9)

def sampleRound (n : ℕ) : WorkerRound :=
  StepRun.trace (step sampleEnv) (start sampleRouter) (fun n => sampleSchedule.getD n .visit) n

theorem sampleRound_complete :
    (∀ n, Accounted (sampleRound n)) ∧ ∃ n, (sampleRound n).thread = .returned := by
  have hr : Reachable sampleEnv sampleSetup sampleRouter := .of_run sampleEnv sampleSetup _
  have h := worker_rounds_complete sampleEnv sampleSetup sampleRouter hr
    (fun n => sampleSchedule.getD n .visit)
  refine ⟨h.1,h.2 fun n ⟨e,he⟩ => ?_⟩
  have hmoves : ∀ n < 18, Moves (sampleRound n) (sampleSchedule.getD n .visit) := by decide
  have hback (k : ℕ) : (sampleRound (18+k)).thread = .returned := by
    induction k with
    | zero => decide
    | succ k ih =>
      have hvisit : sampleSchedule.getD (18+k) .visit = .visit :=
        by rw [List.getD_eq_getElem?_getD, List.getElem?_eq_none (Nat.le_add_right 18 k)]; rfl
      have hnext : sampleRound (18+(k+1)) = step sampleEnv (sampleRound (18+k)) .visit :=
        congrArg (step sampleEnv (sampleRound (18+k))) hvisit
      rw [hnext, step, ih]
      exact ih
  have hinv : Inv sampleEnv sampleSetup (sampleRound n) := .trace hr _ n
  by_cases hn : n < 18
  · exact ⟨n,Nat.le_refl n,hmoves n hn⟩
  · obtain ⟨k,rfl⟩ := Nat.exists_eq_add_of_le (Nat.le_of_not_lt hn)
    exact absurd he ((hinv.idle (hback k)).2.2 e)

end Round

end WorkerRound

end MsgBus
