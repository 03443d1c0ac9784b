import Mathlib.Data.List.Induction
import Mathlib.Data.List.Nodup
import MsgBus.RouterRun

/-!
# Pending connections, one message at a time

A round of `_do_handle_pending` is taken apart: a pending connection handles a
message, is asked for the password, is adopted, or is removed, each a step of
its own. The steps come in any order, with all else that a router does between
them; every run of the router is a run of these steps.
-/

set_option autoImplicit false

namespace MsgBus

namespace Router

/-- The router with these connections pending. -/
def withPending (r : Router) (pending : List RouterPending) : Router :=
  { r with nodes := { r.nodes with pending } }

end Router

namespace PendingRun

open Router

inductive Event where
  | message (idx : ℕ) (msgId : MessageId) (message : MessageView)
  | requestPassword (idx : ℕ) (clk : Clock) (random : Block)
  | adopt (idx : ℕ) (clk : Clock)
  | remove (idx : ℕ) (clk : Clock)
  | router (e : RouterRun.Event)

section Steps

variable (env : RouterEnv) (r : Router)

/-- The pending connection at the index does this, if it is still there. -/
def atIndex (idx : ℕ) (f : RouterPending → RouterPending × Router) : Router :=
  match r.nodes.pending[idx]? with
  | some pending =>
    if pending.connection.isSome then
      (f pending).2.withPending (r.nodes.pending.set idx (f pending).1)
    else r
  | none => r

def requestPassword (clk : Clock) (random : Block) (pending : RouterPending) :
    RouterPending × Router :=
  let (pending,sent) := pending.tryRequestPassword env.transport r.sent clk r.getId random
  (pending,{ r with sent })

def tryAdopt (clk : Clock) (pending : RouterPending) : RouterPending × Router :=
  if pending.canBeAdopted clk.now then r.adoptPending env pending else (pending,r)

def removeAt (idx : ℕ) (clk : Clock) : Router :=
  if r.nodes.pending[idx]?.any (fun pending => pending.shouldBeRemoved clk.now) then
    r.withPending (r.nodes.pending.eraseIdx idx)
  else r

/-- What is done outside of the rounds over the pending connections. -/
def outside : RouterRun.Event → Router
  | .handlePending _ _ _ => r
  | e => RouterRun.step env r e

def step : Event → Router
  | .message idx msgId message =>
    atIndex r idx (fun pending => r.handlePendingMessage env pending msgId message)
  | .requestPassword idx clk random => atIndex r idx (requestPassword env r clk random)
  | .adopt idx clk => atIndex r idx (tryAdopt env r clk)
  | .remove idx clk => removeAt r idx clk
  | .router e => outside env r e

end Steps

/-- The router after these steps. -/
def after (env : RouterEnv) (setup : RouterRun.Setup) (es : List Event) : Router :=
  StepRun.run (step env) (RouterRun.start setup) es

/-- The link of the connection that the step accepts. -/
def accepted : Event → Option ℕ
  | .router (.handleAccept _ connection) => some connection.link
  | _ => none

/-- The connections accepted in the run. -/
def links (es : List Event) : List ℕ := es.filterMap accepted

theorem links_append (es fs : List Event) : links (es++fs) = links es ++ links fs :=
  List.filterMap_append

section Rounds

variable (env : RouterEnv) (clk : Clock) (r : Router)

@[simp] theorem withPending_pending (ps : List RouterPending) :
    (r.withPending ps).nodes.pending = ps := rfl

@[simp] theorem withPending_twice (ps qs : List RouterPending) :
    (r.withPending ps).withPending qs = r.withPending qs := rfl

/-- The pending connection at the index, with those before it and after it. -/
theorem atIndex_middle (done rest : List RouterPending) (pending : RouterPending)
    (hp : pending.connection.isSome = true) (f : RouterPending → RouterPending × Router) :
    atIndex (r.withPending (done++pending::rest)) done.length f =
      (f pending).2.withPending (done++(f pending).1::rest) := by
  unfold atIndex
  simp [hp]

theorem message_withPending (ps : List RouterPending) (pending : RouterPending)
    (msgId : MessageId) (message : MessageView) :
    (r.withPending ps).handlePendingMessage env pending msgId message =
      ((r.handlePendingMessage env pending msgId message).1,
        (r.handlePendingMessage env pending msgId message).2.withPending ps) := by
  have hassign : (r.withPending ps).assignId env pending.link =
      (r.assignId env pending.link).withPending ps := by
    unfold assignId
    have hnext : (r.withPending ps).ids.getNextId (r.withPending ps).hasNodeId
        env.getNextIdFuel = r.ids.getNextId r.hasNodeId env.getNextIdFuel := rfl
    rw [hnext]
    cases r.ids.getNextId r.hasNodeId env.getNextIdFuel with
    | none => rfl
    | some next =>
      dsimp only
      split_ifs <;> rfl
  unfold handlePendingMessage
  by_cases hs : isSpecialMessage msgId = true
  · rw [if_pos hs, if_pos hs]
    split
    · rw [hassign]
    · rfl
    · rfl
    · split_ifs <;> rfl
    · rfl
  · rw [if_neg hs, if_neg hs]

/-- The messages that a pending connection has fetched, one step each. -/
def fetchSteps (idx : ℕ) (fetched : List (MessageId × MessageView)) : List Event :=
  fetched.map (fun m => .message idx m.1 m.2)

theorem fetchSteps_links (idx : ℕ) (fetched : List (MessageId × MessageView)) :
    links (fetchSteps idx fetched) = [] := by
  simp [links, fetchSteps, accepted]

theorem updatePending_run (done rest : List RouterPending) (random : Block)
    (fetched : List (MessageId × MessageView)) (pending : RouterPending)
    (hp : pending.connection.isSome = true) :
    StepRun.run (step env) (r.withPending (done++pending::rest))
        (fetchSteps done.length fetched ++ [.requestPassword done.length clk random]) =
      (updatePending env clk random fetched pending r).2.withPending
        (done++(updatePending env clk random fetched pending r).1::rest) := by
  induction fetched generalizing pending r with
  | nil => exact atIndex_middle r done rest pending hp _
  | cons m fetched ih =>
    have hc := (RouterRun.Valid.pendingMessage_frame env r pending m.1 m.2).2
    have hstep : step env (r.withPending (done++pending::rest))
        (.message done.length m.1 m.2) =
          (r.handlePendingMessage env pending m.1 m.2).2.withPending
            (done++(r.handlePendingMessage env pending m.1 m.2).1::rest) := by
      rw [step, atIndex_middle r done rest pending hp, message_withPending]
      rfl
    rw [fetchSteps, List.map_cons, List.cons_append, StepRun.run, hstep]
    exact ih _ _ (by rw [hc, hp])

/-- The loop of `_do_handle_pending` from here on is a run of the steps, none
of which accepts a connection. -/
theorem pendingLoop_run (fetched : ℕ → List (MessageId × MessageView)) (random : ℕ → Block)
    (done ps : List RouterPending) :
    ∃ es, links es = [] ∧ StepRun.run (step env) (r.withPending (done++ps)) es =
      (handlePendingLoop env clk fetched random ps r).2.withPending
        (done++(handlePendingLoop env clk fetched random ps r).1) := by
  induction ps generalizing r done with
  | nil => exact ⟨[],rfl,rfl⟩
  | cons pending rest ih =>
    rw [handlePendingLoop]
    split_ifs with hremove
    · obtain ⟨es,hlinks,hes⟩ := ih r done
      refine ⟨.remove done.length clk::es,hlinks,?_⟩
      rw [← hes, StepRun.run, step, removeAt, if_pos (by simpa using hremove)]
      simp [List.eraseIdx_append_of_length_le]
    · have hp : pending.connection.isSome = true := by
        cases hc : pending.connection with
        | none => simp [RouterPending.shouldBeRemoved, hc] at hremove
        | some c => rfl
      have hup := updatePending_run env clk r done rest (random pending.link)
        (fetched pending.link) pending hp
      have hc := (RouterRun.Valid.updatePending_frame env clk (random pending.link)
        (fetched pending.link) pending r).2
      dsimp only
      generalize updatePending env clk (random pending.link) (fetched pending.link) pending r =
        updated at hup hc
      have hadopt : step env (updated.2.withPending (done++updated.1::rest))
          (.adopt done.length clk) = (tryAdopt env updated.2 clk updated.1).2.withPending
            (done++(tryAdopt env updated.2 clk updated.1).1::rest) := by
        rw [step, atIndex_middle updated.2 done rest updated.1 (by rw [hc, hp])]
        unfold tryAdopt
        split_ifs <;> rfl
      change ∃ es, links es = [] ∧ StepRun.run _ _ es =
        (handlePendingLoop env clk fetched random rest
          (tryAdopt env updated.2 clk updated.1).2).2.withPending _
      obtain ⟨es,hlinks,hes⟩ := ih (tryAdopt env updated.2 clk updated.1).2
        (done++[(tryAdopt env updated.2 clk updated.1).1])
      rw [List.append_assoc, List.append_assoc] at hes
      refine ⟨fetchSteps done.length (fetched pending.link) ++
        [.requestPassword done.length clk (random pending.link)] ++
        .adopt done.length clk::es,?_,?_⟩
      · rw [links_append, links_append, fetchSteps_links]
        exact hlinks
      · rw [StepRun.run_append, hup, StepRun.run, hadopt]
        exact hes

theorem outside_eq (e : RouterRun.Event) :
    (∃ clk fetched random, e = .handlePending clk fetched random) ∨
      outside env r e = RouterRun.step env r e := by
  cases e with
  | handlePending clk fetched random => exact Or.inl ⟨clk,fetched,random,rfl⟩
  | _ => exact Or.inr rfl

theorem step_run (e : RouterRun.Event) :
    ∃ es, links es = (accepted (.router e)).toList ∧
      StepRun.run (step env) r es = RouterRun.step env r e := by
  rcases outside_eq env r e with ⟨clk,fetched,random,rfl⟩ | h
  · exact pendingLoop_run env clk r fetched random [] r.nodes.pending
  · refine ⟨[.router e],?_,h⟩
    unfold links
    rw [List.filterMap_cons]
    cases accepted (.router e) <;> rfl

/-- Every run of the router is a run of these steps, with the same accepts. -/
theorem run_refines (es : List RouterRun.Event) :
    ∃ fs, links fs = es.filterMap (fun e => accepted (.router e)) ∧
      StepRun.run (step env) r fs = StepRun.run (RouterRun.step env) r es := by
  induction es generalizing r with
  | nil => exact ⟨[],rfl,rfl⟩
  | cons e es ih =>
    obtain ⟨fs,hlinks,hfs⟩ := step_run env r e
    obtain ⟨gs,hlinks',hgs⟩ := ih (RouterRun.step env r e)
    refine ⟨fs++gs,?_,by rw [StepRun.run_append, hfs, hgs, StepRun.run]⟩
    rw [links_append, hlinks, hlinks', List.filterMap_cons]
    cases accepted (.router e) <;> rfl

end Rounds

/-- No connection is new among those pending or adopted, and the pending ones
have been sent nothing. -/
structure Settled (r r' : Router) : Prop where
  ids : r'.ids = r.ids
  password : r'.passwordIsRequired = r.passwordIsRequired
  told : pendingSent r'.sent = pendingSent r.sent
  pending : r'.nodes.pending.Sublist r.nodes.pending
  nodes : ∀ e' ∈ r'.nodes.nodes.entries, ∀ c', e'.2.connection = some c' →
    ∃ e ∈ r.nodes.nodes.entries, ∃ c, e.2.connection = some c ∧ c.link = c'.link ∧
      c.kind = c'.kind

namespace Settled

variable {env : RouterEnv} {clk : Clock} {r r' r'' : Router} {incomingId : EndpointId}
  {message : MessageView} {msgId : MessageId}

theorem trans (h : Settled r r') (h' : Settled r' r'') : Settled r r'' := by
  refine ⟨h'.ids.trans h.ids,h'.password.trans h.password,h'.told.trans h.told,
    h'.pending.trans h.pending,fun e'' he'' c'' hc'' => ?_⟩
  obtain ⟨e',he',c',hc',hlink',hkind'⟩ := h'.nodes e'' he'' c'' hc''
  obtain ⟨e,he,c,hc,hlink,hkind⟩ := h.nodes e' he' c' hc'
  exact ⟨e,he,c,hc,hlink.trans hlink',hkind.trans hkind'⟩

theorem of_nodes (hi : r'.ids = r.ids) (hr : r'.passwordIsRequired = r.passwordIsRequired)
    (ht : pendingSent r'.sent = pendingSent r.sent)
    (hp : r'.nodes.pending.Sublist r.nodes.pending) (hn : r'.nodes.nodes = r.nodes.nodes) :
    Settled r r' :=
  ⟨hi,hr,ht,hp,fun e he c hc => ⟨e,hn ▸ he,c,hc,rfl,rfl⟩⟩

theorem of_unmoved (h : RouterRun.Unmoved r r') : Settled r r' :=
  .of_nodes h.ids h.password h.told (h.pending ▸ List.Sublist.refl _) h.nodes

theorem refl (r : Router) : Settled r r := .of_unmoved (.refl r)

/-- The nodes are changed, each but for the link and kind of its connection. -/
theorem of_modifyNode (f : AdjacentNode → AdjacentNode)
    (hf : ∀ node c', (f node).connection = some c' →
      ∃ c, node.connection = some c ∧ c.link = c'.link ∧ c.kind = c'.kind) :
    Settled r (r.modifyNode incomingId f) := by
  refine ⟨rfl,rfl,rfl,List.Sublist.refl _,fun e' he' c' hc' => ?_⟩
  obtain ⟨e,he,rfl⟩ := List.mem_map.mp he'
  refine ⟨e,he,?_⟩
  dsimp only at hc'
  split_ifs at hc'
  · exact hf _ _ hc'
  · exact ⟨c',hc',rfl,rfl⟩

theorem of_sameConnection (f : AdjacentNode → AdjacentNode)
    (hf : ∀ node, (f node).connection = node.connection) :
    Settled r (r.modifyNode incomingId f) :=
  of_modifyNode f (fun node c' hc' => ⟨c',hf node ▸ hc',rfl,rfl⟩)

/-- The endpoint information beside the nodes is changed. -/
theorem beside (h : Settled r r') (hr : RouterRun.Unmoved r' r'') : Settled r r'' :=
  h.trans (of_unmoved hr)

theorem fromNode : Settled r (r.handleSpecial env clk incomingId message msgId).2 := by
  rcases RouterRun.handleSpecial_cases env clk message msgId r incomingId with h | ⟨f,hf,h⟩
  · exact of_unmoved h
  · exact (of_sameConnection f hf).beside h

theorem fromParent : Settled r (r.handleSpecialFromParent env clk incomingId message msgId).2 := by
  unfold handleSpecialFromParent
  split_ifs
  · exact of_unmoved RouterRun.common_frame
  · exact of_unmoved ⟨⟨rfl,rfl,rfl⟩,rfl,rfl,rfl,rfl⟩

theorem parentMessage : Settled r (r.handleSpecialParentMessage env clk msgId message) := by
  unfold handleSpecialParentMessage
  split
  · exact refl r
  · exact refl r
  · exact refl r
  · exact .of_nodes rfl rfl rfl (List.Sublist.refl _) rfl
  · dsimp only
    split_ifs
    · exact fromParent
    · exact fromParent.beside (.route _ _ _)

theorem of_timeouted : Settled r (r.removeTimeouted clk) := by
  have hfold (n : RouterNodes) (es : List (EndpointId × RouterEndpointInfo)) :
      (es.foldl (fun n e => RouterNodes.markDisconnected
        { n with endpointIdx := n.endpointIdx.erase e.1 } clk.now e.1) n).nodes = n.nodes ∧
      (es.foldl (fun n e => RouterNodes.markDisconnected
        { n with endpointIdx := n.endpointIdx.erase e.1 } clk.now e.1) n).pending =
          n.pending := by
    induction es generalizing n with
    | nil => exact ⟨rfl,rfl⟩
    | cons e es ih => exact ih _
  refine .of_nodes rfl rfl rfl ?_ (hfold _ _).1
  unfold removeTimeouted RouterNodes.removeTimeouted
  rw [(hfold _ _).2]
  exact List.filter_sublist

theorem of_disconnected : Settled r (r.removeDisconnected clk) := by
  have hfold (n : RouterNodes) (es : List (EndpointId × AdjacentNode)) :
      (es.foldl (fun n e => n.markDisconnected clk.now e.1) n).nodes = n.nodes ∧
      (es.foldl (fun n e => n.markDisconnected clk.now e.1) n).pending = n.pending := by
    induction es generalizing n with
    | nil => exact ⟨rfl,rfl⟩
    | cons e es ih => exact ih _
  refine ⟨rfl,rfl,rfl,?_,fun e' he' c' hc' => ?_⟩
  · unfold removeDisconnected RouterNodes.removeDisconnected
    rw [(hfold _ _).2]
  · unfold removeDisconnected RouterNodes.removeDisconnected at he'
    rw [(hfold _ _).1] at he'
    obtain ⟨e,he,rfl⟩ := List.mem_map.mp (List.mem_filter.mp he').1
    refine ⟨e,he,c',?_,rfl,rfl⟩
    dsimp only at hc'
    unfold AdjacentNode.cleanupConnection at hc'
    split_ifs at hc'
    · exact hc'
    · exact hc'

theorem resendSends_told (parentId : EndpointId) (sent : List Sent) (log : List SendAttempt) :
    pendingSent (r.resendSends env clk parentId sent log) = pendingSent sent := by
  induction log generalizing sent with
  | nil => rfl
  | cons a log ih =>
    rw [resendSends, ih]
    exact routeMessage_pendingSent _ _ _ _ _ _ _

theorem blobSends_told (id : EndpointId) (sent : List Sent) (log : List SendAttempt) :
    pendingSent (AdjacentNode.blobSends env.transport id sent log) = pendingSent sent := by
  induction log generalizing sent with
  | nil => rfl
  | cons a log ih =>
    rw [AdjacentNode.blobSends, ih]
    split_ifs
    · exact pendingSent_send _ _ _ _ rfl
    · rfl

theorem processBlobsLoop_told (es : List (EndpointId × AdjacentNode))
    (blobs : BlobManipulator BufferBlobIo BufferBlobIo) (sent : List Sent) :
    pendingSent (processBlobsLoop env clk es blobs sent).2 = pendingSent sent := by
  induction es generalizing blobs sent with
  | nil => rfl
  | cons e es ih =>
    rw [processBlobsLoop, ih]
    unfold AdjacentNode.processBlobs
    split
    · rfl
    · split_ifs
      · split
        · rfl
        · exact blobSends_told e.1 sent _
      · rfl

theorem of_processBlobs : Settled r (r.processBlobs env clk) := by
  have hupdate : Settled r (r.updateBlobs env clk r.getId) :=
    .of_nodes rfl rfl (resendSends_told _ _ _) (List.Sublist.refl _) rfl
  unfold processBlobs
  dsimp only
  split_ifs
  · exact hupdate.trans (.of_nodes rfl rfl (processBlobsLoop_told _ _ _)
      (List.Sublist.refl _) rfl)
  · exact hupdate

theorem of_flowInfo (serialized : Block) : Settled r (r.sendFlowInfo env serialized) := by
  have hfold (es : List (EndpointId × AdjacentNode)) (sent : List Sent) :
      pendingSent (es.foldl (fun sent e => (e.2.send env.transport sent e.1
        (msgbusId .msgFlowInf)
        { sourceId := r.getId, targetId := e.1, priority := .high, data := serialized }).2)
          sent) = pendingSent sent := by
    induction es generalizing sent with
    | nil => rfl
    | cons e es ih =>
      rw [List.foldl_cons, ih]
      unfold AdjacentNode.send
      split_ifs
      · exact pendingSent_send _ _ _ _ rfl
      · rfl
  exact .of_nodes rfl rfl (hfold _ _) (List.Sublist.refl _) rfl

theorem of_updateParent : Settled r (r.updateParent env clk) := by
  refine .of_nodes rfl rfl ?_ (List.Sublist.refl _) rfl
  change pendingSent (r.parentRouter.update env.transport r.sent clk r.getId).2 = _
  unfold ParentRouter.update ParentRouter.announceId
  split
  · rfl
  · split_ifs
    · exact pendingSent_send _ _ _ _ rfl
    · rfl
    · rfl

/-- Outside of the rounds only an accept brings a connection. -/
theorem of_outside (e : RouterRun.Event) :
    (∃ clk connection, e = .handleAccept clk connection) ∨ Settled r (outside env r e) := by
  cases e with
  | handleAccept clk connection => exact Or.inl ⟨clk,connection,rfl⟩
  | handlePending clk fetched random => exact Or.inr (refl r)
  | fromNode clk id msgId age message =>
    refine Or.inr ?_
    unfold outside RouterRun.step handleNodeMessage
    dsimp only
    split_ifs
    · exact fromNode
    · exact fromNode
    · exact fromNode.beside (.route _ _ _)
    · exact refl r
  | fromParent clk msgId age message =>
    refine Or.inr ?_
    unfold outside RouterRun.step handleParentMessage
    dsimp only
    split_ifs
    · exact parentMessage
    · exact refl r
    · exact of_unmoved (.route _ _ _)
    · exact refl r
  | nodeConnection id usable maxDataSize =>
    refine Or.inr (of_modifyNode _ (fun node c' hc' => ?_))
    obtain ⟨c,hc,rfl⟩ := Option.map_eq_some_iff.mp hc'
    exact ⟨c,hc,rfl,rfl⟩
  | addConnection connection =>
    exact Or.inr (.of_nodes rfl rfl rfl (List.Sublist.refl _) rfl)
  | parentConnection usable maxDataSize =>
    exact Or.inr (.of_nodes rfl rfl rfl (List.Sublist.refl _) rfl)
  | updateParent clk => exact Or.inr of_updateParent
  | processBlobs clk => exact Or.inr of_processBlobs
  | sendFlowInfo serialized => exact Or.inr (of_flowInfo serialized)
  | removeTimeouted clk => exact Or.inr of_timeouted
  | removeDisconnected clk => exact Or.inr of_disconnected

end Settled

/-- What a pending connection does leaves it in its place; what is sent for it
goes to it. -/
structure Handled (r : Router) (pending : RouterPending) (next : RouterPending × Router) :
    Prop where
  link : next.1.link = pending.link
  kind : next.1.connectionKind = pending.connectionKind
  connection : ∀ c, next.1.connection = some c → pending.connection = some c
  password : next.2.passwordIsRequired = r.passwordIsRequired
  told : ∃ new, next.2.sent = r.sent++new ∧ ∀ x ∈ new, x.hop = .pending pending.link

section Cases

variable (env : RouterEnv) (r : Router)

theorem message_handled (pending : RouterPending) (msgId : MessageId) (message : MessageView) :
    Handled r pending (r.handlePendingMessage env pending msgId message) := by
  have hassign : Handled r pending (pending,r.assignId env pending.link) := by
    refine ⟨rfl,rfl,fun _ h => h,?_,?_⟩
    · unfold assignId
      split
      · rfl
      · dsimp only
        split_ifs <;> rfl
    · unfold assignId
      split
      · exact ⟨[],by simp,by simp⟩
      · dsimp only
        split_ifs
        · exact ⟨[_],rfl,by simp⟩
        · exact ⟨[],by simp,by simp⟩
  have hsame : ∃ new, r.sent = r.sent++new ∧ ∀ x ∈ new, x.hop = .pending pending.link :=
    ⟨[],by simp,by simp⟩
  unfold handlePendingMessage
  by_cases hs : isSpecialMessage msgId = true
  · rw [if_pos hs]
    split
    · exact hassign
    · exact ⟨rfl,rfl,fun _ h => h,rfl,hsame⟩
    · exact ⟨rfl,rfl,fun _ h => h,rfl,hsame⟩
    · split_ifs
      · exact ⟨rfl,rfl,fun _ h => h,rfl,hsame⟩
      · exact ⟨rfl,rfl,fun _ h => h,rfl,hsame⟩
    · exact ⟨rfl,rfl,fun _ h => h,rfl,hsame⟩
  · rw [if_neg hs]
    exact ⟨rfl,rfl,fun _ h => h,rfl,hsame⟩

theorem requestPassword_handled (pending : RouterPending) (clk : Clock) (random : Block) :
    Handled r pending (requestPassword env r clk random pending) := by
  unfold requestPassword RouterPending.tryRequestPassword
  split_ifs
  · exact ⟨rfl,rfl,fun _ h => h,rfl,[_],rfl,by simp⟩
  · exact ⟨rfl,rfl,fun _ h => h,rfl,[],by simp,by simp⟩

theorem tryAdopt_handled (pending : RouterPending) (clk : Clock) :
    Handled r pending (tryAdopt env r clk pending) := by
  unfold tryAdopt
  split_ifs
  · exact ⟨rfl,rfl,fun _ h => by simp [adoptPending] at h,rfl,[_],rfl,by simp⟩
  · exact ⟨rfl,rfl,fun _ h => h,rfl,[],by simp,by simp⟩

theorem atIndex_cases (idx : ℕ) {f : RouterPending → RouterPending × Router}
    (hf : ∀ pending, Handled r pending (f pending)) :
    atIndex r idx f = r ∧ (∀ pending, r.nodes.pending[idx]? = some pending →
        pending.connection.isSome = false) ∨
      ∃ pending, r.nodes.pending[idx]? = some pending ∧ pending.connection.isSome = true ∧
        Handled r pending (f pending) ∧ atIndex r idx f =
          (f pending).2.withPending (r.nodes.pending.set idx (f pending).1) := by
  unfold atIndex
  cases hp : r.nodes.pending[idx]? with
  | none => exact Or.inl ⟨rfl,fun _ h => by cases h⟩
  | some pending =>
    dsimp only
    split_ifs with hc
    · exact Or.inr ⟨pending,rfl,hc,hf pending,rfl⟩
    · refine Or.inl ⟨rfl,fun p h => ?_⟩
      obtain rfl := Option.some.inj h
      simpa using hc

/-- A pending connection that does nothing leaves the router as it is. -/
theorem withPending_set_self {idx : ℕ} {pending : RouterPending}
    (hp : r.nodes.pending[idx]? = some pending) :
    r.withPending (r.nodes.pending.set idx pending) = r := by
  obtain ⟨hlt,rfl⟩ := List.getElem?_eq_some_iff.mp hp
  rw [List.set_getElem_self]
  rfl

theorem remove_settled (idx : ℕ) (clk : Clock) : Settled r (removeAt r idx clk) := by
  unfold removeAt
  split_ifs
  · exact .of_nodes rfl rfl rfl (List.eraseIdx_sublist _ _) rfl
  · exact .refl r

/-- What a step can do to the pending connections. -/
theorem step_cases (e : Event) :
    (∃ clk connection, e = .router (.handleAccept clk connection)) ∨ Settled r (step env r e) ∨
      ∃ idx pending next, r.nodes.pending[idx]? = some pending ∧
        Handled r pending next ∧
        step env r e = next.2.withPending (r.nodes.pending.set idx next.1) := by
  have hindex (idx : ℕ) {f : RouterPending → RouterPending × Router}
      (hf : ∀ pending, Handled r pending (f pending)) {r' : Router} (hr : r' = atIndex r idx f) :
      Settled r r' ∨ ∃ idx pending next, r.nodes.pending[idx]? = some pending ∧
        Handled r pending next ∧ r' = next.2.withPending (r.nodes.pending.set idx next.1) := by
    subst hr
    rcases atIndex_cases r idx hf with ⟨h,-⟩ | ⟨pending,hp,-,hn,h⟩
    · rw [h]
      exact Or.inl (.refl r)
    · exact Or.inr ⟨idx,pending,f pending,hp,hn,h⟩
  cases e with
  | message idx msgId message =>
    exact Or.inr (hindex idx (fun p => message_handled env r p msgId message) rfl)
  | requestPassword idx clk random =>
    exact Or.inr (hindex idx (fun p => requestPassword_handled env r p clk random) rfl)
  | adopt idx clk => exact Or.inr (hindex idx (fun p => tryAdopt_handled env r p clk) rfl)
  | remove idx clk => exact Or.inr (Or.inl (remove_settled r idx clk))
  | router e =>
    rcases Settled.of_outside e with ⟨clk,connection,rfl⟩ | h
    · exact Or.inl ⟨clk,connection,rfl⟩
    · exact Or.inr (Or.inl h)

/-- What a pending connection was sent stays in the log. -/
theorem told_grows (e : Event) : pendingSent r.sent <+: pendingSent (step env r e).sent := by
  rcases step_cases env r e with ⟨clk,connection,rfl⟩ | h | ⟨idx,pending,next,-,hn,h⟩
  · exact List.prefix_refl _
  · exact ⟨[],by rw [h.told, List.append_nil]⟩
  · obtain ⟨new,hsent,-⟩ := hn.told
    rw [h]
    change _ <+: pendingSent next.2.sent
    rw [hsent]
    unfold pendingSent
    rw [List.filter_append]
    exact List.prefix_append _ _

end Cases

/-- The pending connections are told apart by their links, and those that were
sent something were accepted in the run. -/
structure Apart (es : List Event) (r : Router) : Prop where
  nodup : (r.nodes.pending.map (·.link)).Nodup
  known : ∀ pending ∈ r.nodes.pending, pending.link ∈ links es
  told : ∀ x ∈ r.sent, ∀ link, x.hop = .pending link → link ∈ links es

section Apart

variable {env : RouterEnv} {setup : RouterRun.Setup} {r : Router} {es : List Event} {e : Event}

theorem after_snoc :
    after env setup (es++[e]) = step env (after env setup es) e := by
  rw [after, StepRun.run_append]
  rfl

theorem links_snoc : links (es++[e]) = links es ++ (accepted e).toList := by
  rw [links_append]
  cases h : accepted e <;> simp [links, h]

theorem map_link_set {ps : List RouterPending} {idx : ℕ} {pending next : RouterPending}
    (hp : ps[idx]? = some pending) (hl : next.link = pending.link) :
    (ps.set idx next).map (·.link) = ps.map (·.link) := by
  obtain ⟨hlt,rfl⟩ := List.getElem?_eq_some_iff.mp hp
  refine List.ext_getElem (by simp) (fun n hn hn' => ?_)
  rw [List.getElem_map, List.getElem_map, List.getElem_set]
  split_ifs with h
  · subst h
    exact hl
  · rfl

/-- All but the one that is put in place have other links. -/
theorem mem_set_apart {ps : List RouterPending} {idx : ℕ} {pending next p : RouterPending}
    (hn : (ps.map (·.link)).Nodup) (hp : ps[idx]? = some pending)
    (hl : next.link = pending.link) (h : p ∈ ps.set idx next) :
    p = next ∨ p ∈ ps ∧ p.link ≠ pending.link := by
  obtain ⟨n,hlt,hget⟩ := List.getElem_of_mem h
  rw [List.length_set] at hlt
  rw [List.getElem_set] at hget
  split_ifs at hget with hidx
  · exact Or.inl hget.symm
  · subst hget
    refine Or.inr ⟨List.getElem_mem _,fun heq => hidx ?_⟩
    obtain ⟨hidxlt,rfl⟩ := List.getElem?_eq_some_iff.mp hp
    have hi : idx < (ps.map (·.link)).length := by simpa using hidxlt
    have hj : n < (ps.map (·.link)).length := by simpa using hlt
    have hget : (ps.map (·.link))[idx] = (ps.map (·.link))[n] := by simp [heq]
    exact hn.getElem_inj_iff.mp hget

theorem Apart.step (h : Apart es r) (hlinks : (links (es++[e])).Nodup) :
    Apart (es++[e]) (step env r e) := by
  rw [links_snoc] at hlinks
  have hmore {link : ℕ} (hin : link ∈ links es) : link ∈ links (es++[e]) := by
    rw [links_snoc]
    exact List.mem_append_left _ hin
  rcases step_cases env r e with ⟨clk,connection,rfl⟩ | hs | ⟨idx,pending,next,hp,hn,heq⟩
  · have hnew : connection.link ∉ links es := fun hin =>
      (List.disjoint_of_nodup_append hlinks) hin (by simp [accepted])
    have hlink : connection.link ∈ links (es++[.router (.handleAccept clk connection)]) := by
      rw [links_snoc]
      simp [accepted]
    refine ⟨?_,fun p hp => ?_,fun x hx link hhop => hmore (h.told x hx link hhop)⟩
    · change ((r.nodes.pending ++ [RouterPending.accept clk r.passwordIsRequired
        connection]).map (·.link)).Nodup
      rw [List.map_append]
      refine List.nodup_append.mpr ⟨h.nodup,by simp,?_⟩
      rintro link hin link' hin' rfl
      obtain ⟨p,hp,rfl⟩ := List.mem_map.mp hin
      obtain hl : p.link = connection.link := by simpa [RouterPending.accept] using hin'
      exact hnew (hl ▸ h.known p hp)
    · rcases List.mem_append.mp hp with hp | hp
      · exact hmore (h.known p hp)
      · obtain rfl := List.mem_singleton.mp hp
        exact hlink
  · refine ⟨(hs.pending.map _).nodup h.nodup,
      fun p hp => hmore (h.known p (hs.pending.subset hp)),fun x hx link hhop => ?_⟩
    have hx' : x ∈ pendingSent r.sent := by
      rw [← hs.told]
      exact mem_pendingSent.mpr ⟨hx,by simp [hhop, Hop.isPending]⟩
    exact hmore (h.told x (mem_pendingSent.mp hx').1 link hhop)
  · have hmem := List.mem_of_getElem? hp
    rw [heq]
    refine ⟨?_,fun p hp' => ?_,fun x hx link hhop => ?_⟩
    · change ((r.nodes.pending.set idx next.1).map (·.link)).Nodup
      rw [map_link_set hp hn.link]
      exact h.nodup
    · rcases mem_set_apart h.nodup hp hn.link hp' with rfl | ⟨hin,-⟩
      · rw [hn.link]
        exact hmore (h.known _ hmem)
      · exact hmore (h.known p hin)
    · obtain ⟨new,hsent,hnew⟩ := hn.told
      have hx' : x ∈ r.sent++new := hsent ▸ hx
      rcases List.mem_append.mp hx' with hx' | hx'
      · exact hmore (h.told x hx' link hhop)
      · obtain rfl : pending.link = link := Hop.pending.inj ((hnew x hx').symm.trans hhop)
        exact hmore (h.known _ hmem)

/-- Connections with links of their own stay apart. -/
theorem apart (hlinks : (links es).Nodup) : Apart es (after env setup es) := by
  induction es using List.reverseRecOn with
  | nil => exact ⟨List.nodup_nil,by simp [after, StepRun.run, RouterRun.start, init],
      by simp [after, StepRun.run, RouterRun.start, init]⟩
  | append_singleton es e ih =>
    rw [after_snoc]
    refine (ih ?_).step hlinks
    rw [links_snoc] at hlinks
    exact (List.nodup_append.mp hlinks).1

end Apart

end PendingRun

end MsgBus
