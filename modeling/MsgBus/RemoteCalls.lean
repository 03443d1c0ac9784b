import MsgBus.DeferredAnswers
import MsgBus.PendingPromises

/-!
# Remote calls

Each peer calls a function of other peers with its invoker and answers the
calls of others with a skeleton. Whatever is posted stays on the bus: a message
may be given to whom it is for many times, late, out of order or never. On the
way only its hop count and its age change.
-/

set_option autoImplicit false

namespace MsgBus

open StepRun

/-- The message ids of a method, and how its invokers and skeletons write and
read what they send. -/
structure RemoteMethod (α β : Type) where
  callId : MessageId
  replyId : MessageId
  argsTypeId : EndpointId
  /-- The arguments in a buffer of this size. -/
  serializeArgs : α → ℕ → Option Block
  codec : SkeletonCodec α β
  reader : ResultReader β
  blank : β

structure RemoteCall (α : Type) where
  targetId : EndpointId
  args : α

/-- The call is for this endpoint or for all. -/
def RemoteCall.IsFor {α : Type} (call : RemoteCall α) (id : EndpointId) : Prop :=
  call.targetId = id ∨ isValidId call.targetId = false

variable {α β : Type}

/-- `skeleton::call`, with the response that is posted. -/
def SkeletonCodec.call (codec : SkeletonCodec α β) (request : MessageView)
    (responseId : MessageId) (func : α → β) (size : ℕ) : Bool × Option (MessageId × MessageView) :=
  match codec.readArgs request with
  | some args =>
    (true,(codec.serialize (func args) size).map fun data =>
      (responseId,⟨({ serializerId := codec.writeTypeId } : MessageInfo).setupResponse
        request.toMessageInfo,data⟩))
  | none => (false,none)

/-- `invoker::invoke_on`, with the message that is posted. The future of a call
that cannot be written is dropped. -/
def RemoteMethod.invokeOn (method : RemoteMethod α β) (invoker : PendingPromises β)
    (targetId : EndpointId) (args : α) (size duration now : ℕ) :
    Option MessageView × PendingPromises β :=
  let made := invoker.make duration now
  match method.codec.noParameters with
  | some _ => (some { targetId, sequenceNo := invoker.nextId },made)
  | none =>
    match method.serializeArgs args size with
    | some data =>
      (some { data, serializerId := method.argsTypeId, targetId, sequenceNo := invoker.nextId },
        made)
    | none =>
      (none,made.modifyFuture invoker.futures.length fun c => { c with alive := false })

/-- What is done with a future by whoever holds it, and the regular update. -/
def PromiseEvent.byOwner : PromiseEvent β → Bool
  | .make _ _ | .fulfill _ _ _ _ | .fulfillBy _ _ _ => false
  | _ => true

inductive SkeletonKind where
  | immediate | lazy | async
  deriving DecidableEq

structure RemotePeer (α β : Type) where
  invoker : PendingPromises β := {}
  /-- What each future was made for. -/
  calls : List (RemoteCall α) := []
  lazy : LazySkeleton α β
  async : AsyncSkeleton α β := {}

inductive PeerEvent (α β : Type) where
  | invokeOn (targetId : EndpointId) (args : α) (size duration now : ℕ)
  | owner (e : PromiseEvent β)
  | handleLazy (at_ : MessageSequence → ℕ) (size : ℕ)
  | doIt (id : MessageSequence)
  | deliver (id : MessageSequence)
  | handleAsync (size : ℕ)

namespace RemotePeer

variable (method : RemoteMethod α β) (func : α → β)

/-- The peer after an event and the messages that it posts. -/
def act (peer : RemotePeer α β) : PeerEvent α β → RemotePeer α β × List (MessageId × MessageView)
  | .invokeOn targetId args size duration now =>
    let r := method.invokeOn peer.invoker targetId args size duration now
    ({ peer with invoker := r.2, calls := peer.calls ++ [⟨targetId,args⟩] },
      (r.1.map fun message => (method.callId,message)).toList)
  | .owner e =>
    (if e.byOwner then { peer with invoker := peer.invoker.step method.reader e } else peer,[])
  | .handleLazy at_ size =>
    let r := peer.lazy.handleOne method.codec at_ size
    ({ peer with lazy := r.2.2 },r.2.1.toList)
  | .doIt id => ({ peer with async := peer.async.doIt id },[])
  | .deliver id => ({ peer with async := peer.async.deliver id },[])
  | .handleAsync size =>
    let r := peer.async.handleOne method.codec method.blank size
    ({ peer with async := r.2.2 },r.2.1.toList)

/-- A message of the method is handled. A call goes to the given kind of
skeleton. -/
def receive (peer : RemotePeer α β) (msgId : MessageId) (message : MessageView)
    (kind : SkeletonKind) (size now : ℕ) (at_ : MessageSequence → ℕ) :
    RemotePeer α β × List (MessageId × MessageView) :=
  if msgId = method.replyId then
    ({ peer with invoker := peer.invoker.fulfillBy method.reader message now at_ },[])
  else if msgId = method.callId then
    match kind with
    | .immediate => (peer,(method.codec.call message method.replyId func size).2.toList)
    | .lazy =>
      ({ peer with lazy := (peer.lazy.enqueue method.codec now message method.replyId func).2 },[])
    | .async =>
      ({ peer with async := (peer.async.enqueue method.codec message method.replyId func).2 },[])
  else (peer,[])

end RemotePeer

structure RemoteCalls (μ α β : Type) where
  peer : μ → RemotePeer α β
  onBus : List (MessageId × MessageView) := []

inductive RemoteEvent (μ α β : Type) where
  | act (p : μ) (e : PeerEvent α β)
  /-- A message on the bus is given to a peer. -/
  | arrive (p : μ) (k : ℕ) (hopCount age : Int8) (kind : SkeletonKind) (size now : ℕ)
    (at_ : MessageSequence → ℕ)

namespace RemoteCalls

variable {μ : Type} [DecidableEq μ] (method : RemoteMethod α β) (id : μ → EndpointId)
  (func : μ → α → β)

/-- What a peer posts has its id as the source. -/
def apply (net : RemoteCalls μ α β) (p : μ)
    (r : RemotePeer α β × List (MessageId × MessageView)) : RemoteCalls μ α β where
  peer := Function.update net.peer p r.1
  onBus := net.onBus ++ r.2.map fun m => (m.1,{ m.2 with sourceId := id p })

def step (net : RemoteCalls μ α β) : RemoteEvent μ α β → RemoteCalls μ α β
  | .act p e => net.apply id p ((net.peer p).act method e)
  | .arrive p k hopCount age kind size now at_ =>
    match net.onBus[k]? with
    | some (msgId,message) =>
      if message.targetId = id p ∨ isValidId message.targetId = false then
        net.apply id p ((net.peer p).receive method (func p) msgId
          { message with hopCount, ageQuarterSeconds := age } kind size now at_)
      else net
    | none => net

def start (lazyTimeout : μ → ℕ) : RemoteCalls μ α β where
  peer p := { lazy := { defaultTimeout := lazyTimeout p } }

/-- No invoker uses a number again, and the workshop delivers a call only after
it was done. -/
def Proper (net : RemoteCalls μ α β) : RemoteEvent μ α β → Prop
  | .act p (.invokeOn _ _ _ _ _) => (net.peer p).calls.length < 4294967296
  | .act p (.deliver no) =>
    ∀ call, (net.peer p).async.pending.find? no = some call → call.state.result.isSome = true
  | _ => True

instance (net : RemoteCalls μ α β) (e : RemoteEvent μ α β) : Decidable (Proper net e) :=
  match e with
  | .act p (.invokeOn _ _ _ _ _) => inferInstanceAs (Decidable ((net.peer p).calls.length < _))
  | .act p (.deliver no) =>
    match h : (net.peer p).async.pending.find? no with
    | some call => decidable_of_iff (call.state.result.isSome = true) (by simp [Proper, h])
    | none => .isTrue (by simp [Proper, h])
  | .act _ (.owner _) | .act _ (.handleLazy _ _) | .act _ (.doIt _) | .act _ (.handleAsync _)
  | .arrive _ _ _ _ _ _ _ _ => .isTrue trivial

end RemoteCalls

/-! ## Whatever a future is told -/

namespace PendingPromises

/-- Nothing, a timeout, or one value that is right for the future. -/
def Told (right : ℕ → β → Prop) (futures : List (FutureState β)) : Prop :=
  ∀ (f : ℕ) (state : FutureState β), futures[f]? = some state → state.reported = [] ∨
    state.reported = [.timeout] ∨ ∃ value, right f value ∧ state.reported = [.success value]

/-- The promises are for futures with these ids that were told nothing. -/
def Untold (ids : List MessageSequence) (es : List (MessageSequence × Promise))
    (futures : List (FutureState β)) : Prop :=
  ∀ e ∈ es, ∃ f state, e.2 = ⟨some f⟩ ∧ ids[f]? = some e.1 ∧ futures[f]? = some state ∧
    state.reported = []

section Told

variable {right : ℕ → β → Prop} {ids : List MessageSequence}
  {es : List (MessageSequence × Promise)} {futures : List (FutureState β)}

theorem Told.mono {right' : ℕ → β → Prop} (h : Told right futures)
    (hmore : ∀ f value, right f value → right' f value) : Told right' futures := by
  intro f state hf
  rcases h f state hf with hnone | hlate | ⟨value,hvalue,hstate⟩
  · exact .inl hnone
  · exact .inr (.inl hlate)
  · exact .inr (.inr ⟨value,hmore f value hvalue,hstate⟩)

/-- What a future that was told nothing is told is right. -/
theorem told_report (h : Told right futures) {f : ℕ} {state : FutureState β}
    (hf : futures[f]? = some state) (hnone : state.reported = []) {o : FutureReport β}
    (ho : ∀ value, o = .success value → right f value) :
    Told right (futures.modify f (FutureState.report o)) := by
  intro g state' hg
  rw [List.getElem?_modify] at hg
  split_ifs at hg with hfg
  · subst hfg
    rw [hf] at hg
    obtain rfl := Option.some.inj hg
    have hreported : (state.report o).reported = [o] := by simp [FutureState.report, hnone]
    cases o with
    | success value => exact .inr (.inr ⟨value,ho value rfl,hreported⟩)
    | timeout => exact .inr (.inl hreported)
  · exact h g state' (by simpa using hg)

theorem Untold.sublist {es' : List (MessageSequence × Promise)} (h : Untold ids es futures)
    (hs : es'.Sublist es) : Untold ids es' futures := fun e he => h e (hs.mem he)

/-- A future that no promise with another id is for. -/
theorem untold_report (h : Untold ids es futures) {f : ℕ} {id : MessageSequence}
    (hid : ids[f]? = some id) (hother : ∀ e ∈ es, e.1 ≠ id) (o : FutureReport β) :
    Untold ids es (futures.modify f (FutureState.report o)) := by
  intro e he
  obtain ⟨g,state,hg,hidg,hstate,hnone⟩ := h e he
  refine ⟨g,state,hg,hidg,?_,hnone⟩
  rwa [List.getElem?_modify_ne]
  rintro rfl
  exact hother e he (Option.some.inj (hidg.symm.trans hid))

/-- What asking a promise leads to: nothing, or that its future is told that it
is too late. -/
theorem shouldBeRemoved_cases (now f : ℕ) (futures : List (FutureState β)) :
    (Promise.shouldBeRemoved now ⟨some f⟩ futures = (false,⟨some f⟩,futures)) ∨
    ((Promise.shouldBeRemoved now ⟨some f⟩ futures).1 = true ∧
      ((Promise.shouldBeRemoved now ⟨some f⟩ futures).2.2 = futures ∨
        (Promise.shouldBeRemoved now ⟨some f⟩ futures).2.2 =
          futures.modify f (FutureState.report .timeout))) := by
  cases hf : futures[f]? with
  | none => simp [Promise.shouldBeRemoved, Promise.lock, hf]
  | some state =>
    cases ha : state.alive with
    | false => simp [Promise.shouldBeRemoved, Promise.lock, hf, ha]
    | true =>
      cases hx : state.tooLate.isExpired now with
      | false => simp [Promise.shouldBeRemoved, Promise.lock, hf, ha, hx]
      | true =>
        cases ht : state.timeoutHandler with
        | false => simp [Promise.shouldBeRemoved, Promise.lock, hf, ha, hx, ht]
        | true => simp [Promise.shouldBeRemoved, Promise.lock, hf, ha, hx, ht]

theorem updateIn_told (at_ : MessageSequence → ℕ) (hs : es.Pairwise fun a b => a.1 < b.1)
    (hu : Untold ids es futures) (ht : Told right futures) :
    (updateIn at_ es futures).1.Sublist es ∧
    Untold ids (updateIn at_ es futures).1 (updateIn at_ es futures).2 ∧
    Told right (updateIn at_ es futures).2 ∧
    (updateIn at_ es futures).2.length = futures.length ∧
    ∀ (f : ℕ) id, ids[f]? = some id → (∀ e ∈ es, e.1 ≠ id) →
      (updateIn at_ es futures).2[f]? = futures[f]? := by
  induction es generalizing futures with
  | nil => exact ⟨List.Sublist.refl _,hu,ht,rfl,fun _ _ _ _ => rfl⟩
  | cons e es ih =>
    obtain ⟨hlt,hs⟩ := List.pairwise_cons.mp hs
    obtain ⟨f,state,hef,hid,hstate,hnone⟩ := hu e List.mem_cons_self
    have hother : ∀ d ∈ es, d.1 ≠ e.1 := fun d hd => (hlt d hd).ne'
    have hrest : Untold ids es futures := hu.sublist (List.sublist_cons_self e es)
    rw [updateIn, hef]
    rcases shouldBeRemoved_cases (at_ e.1) f futures with hkept | ⟨hgone,hsame | hlate⟩
    · rw [hkept]
      obtain ⟨hsub,huntold,htold,hlen,hframe⟩ := ih hs hrest ht
      refine ⟨?_,?_,htold,hlen,fun g id hg hes => ?_⟩
      · rw [← hef]
        exact hsub.cons_cons e
      · intro d hd
        rcases List.mem_cons.mp hd with rfl | hd
        · exact ⟨f,state,rfl,hid,(hframe f e.1 hid hother).trans hstate,hnone⟩
        · exact huntold d hd
      · exact hframe g id hg fun d hd => hes d (List.mem_cons_of_mem e hd)
    · rw [hgone, hsame]
      obtain ⟨hsub,huntold,htold,hlen,hframe⟩ := ih hs hrest ht
      exact ⟨hsub.cons e,huntold,htold,hlen,fun g id hg hes =>
        hframe g id hg fun d hd => hes d (List.mem_cons_of_mem e hd)⟩
    · rw [hgone, hlate]
      have hnow : Told right (futures.modify f (FutureState.report .timeout)) :=
        told_report ht hstate hnone fun _ ho => by cases ho
      obtain ⟨hsub,huntold,htold,hlen,hframe⟩ := ih hs (untold_report hrest hid hother _) hnow
      refine ⟨hsub.cons e,huntold,htold,hlen.trans (List.length_modify ..),fun g id hg hes => ?_⟩
      rw [if_pos rfl, hframe g id hg fun d hd => hes d (List.mem_cons_of_mem e hd),
        List.getElem?_modify_ne]
      rintro rfl
      exact hes e List.mem_cons_self (Option.some.inj (hid.symm.trans hg))

/-- What fulfilling a promise leads to: nothing, or that its future is told. -/
theorem fulfill_cases (now f : ℕ) (value : β) (futures : List (FutureState β)) :
    (Promise.fulfill now value ⟨some f⟩ futures).2 = futures ∨
    ∃ o, (o = .timeout ∨ o = .success value) ∧
      (Promise.fulfill now value ⟨some f⟩ futures).2 = futures.modify f (FutureState.report o) := by
  cases hf : futures[f]? with
  | none => simp [Promise.fulfill, Promise.lock, hf]
  | some state =>
    cases ha : state.alive with
    | false => simp [Promise.fulfill, Promise.lock, hf, ha]
    | true =>
      cases hx : state.tooLate.isExpired now with
      | false =>
        cases hs : state.successHandler with
        | false => simp [Promise.fulfill, Promise.lock, hf, ha, hx, hs]
        | true => exact .inr ⟨_,.inr rfl,by simp [Promise.fulfill, Promise.lock, hf, ha, hx, hs]⟩
      | true =>
        cases ht : state.timeoutHandler with
        | false => simp [Promise.fulfill, Promise.lock, hf, ha, hx, ht]
        | true => exact .inr ⟨_,.inl rfl,by simp [Promise.fulfill, Promise.lock, hf, ha, hx, ht]⟩

end Told

/-- The number of each future, counted from one. -/
def numbers (n : ℕ) : List MessageSequence := (List.range n).map fun i => (i+1)%4294967296

/-- An invoker after so many calls, all told what is right for them. -/
structure Sound (right : ℕ → β → Prop) (s : PendingPromises β) (n : ℕ) : Prop where
  untold : Untold s.ids s.promises.entries s.futures
  told : Told right s.futures
  ids : s.ids = numbers n
  idSeq : s.idSeq = n%4294967296
  futures : s.futures.length = n

section Sound

variable {right : ℕ → β → Prop} {s : PendingPromises β} {n : ℕ}

theorem sound_start : Sound right ({} : PendingPromises β) 0 :=
  ⟨fun _ he => absurd he List.not_mem_nil,fun _ _ hf => (nomatch hf),rfl,rfl,rfl⟩

/-- The first 2^32 numbers are distinct. -/
theorem numbers_inj {f g : ℕ} {id : MessageSequence} (hn : n ≤ 4294967296)
    (hf : (numbers n)[f]? = some id) (hg : (numbers n)[g]? = some id) : f = g := by
  have hnumber {i : ℕ} (hi : (numbers n)[i]? = some id) : i < n ∧ (i+1)%4294967296 = id := by
    obtain ⟨hlt,hval⟩ := List.getElem?_eq_some_iff.mp hi
    rw [numbers, List.length_map, List.length_range] at hlt
    exact ⟨hlt,by simpa [numbers] using hval⟩
  obtain ⟨hltf,hidf⟩ := hnumber hf
  obtain ⟨hltg,hidg⟩ := hnumber hg
  omega

theorem Sound.mono {right' : ℕ → β → Prop} (h : Sound right s n)
    (hmore : ∀ f value, right f value → right' f value) : Sound right' s n :=
  ⟨h.untold,h.told.mono hmore,h.ids,h.idSeq,h.futures⟩

theorem Sound.make (h : Sound right s n) (duration now : ℕ) :
    Sound right (s.make duration now) (n+1) := by
  have hnew : s.nextId = (n+1)%4294967296 := by rw [nextId, h.idSeq, Nat.mod_add_mod]
  have hids : s.ids.length = s.futures.length := by rw [h.ids, h.futures]; simp [numbers]
  refine ⟨fun e he => ?_,fun f state hf => ?_,?_,hnew,by simp [PendingPromises.make, h.futures]⟩
  · rcases OrderedMap.mem_assignIn he with rfl | he
    · exact ⟨s.futures.length,_,rfl,by simp [PendingPromises.make, ← hids],
        List.getElem?_concat_length,rfl⟩
    · obtain ⟨f,state,hef,hid,hstate,hnone⟩ := h.untold e he
      refine ⟨f,state,hef,?_,?_,hnone⟩
      · exact (List.getElem?_append_left (List.getElem?_eq_some_iff.mp hid).1).trans hid
      · exact (List.getElem?_append_left (List.getElem?_eq_some_iff.mp hstate).1).trans hstate
  · simp only [PendingPromises.make, List.getElem?_append] at hf
    split_ifs at hf with hlt
    · exact h.told f state hf
    · obtain rfl := List.mem_singleton.mp (List.mem_of_getElem? hf)
      exact .inl rfl
  · simp [PendingPromises.make, h.ids, numbers, hnew, List.range_succ]

theorem Sound.modify (h : Sound right s n) {f : ℕ} {change : FutureState β → FutureState β}
    (hc : ∀ c, (change c).reported = c.reported) : Sound right (s.modifyFuture f change) n := by
  refine ⟨fun e he => ?_,fun g state hg => ?_,h.ids,h.idSeq,?_⟩
  · obtain ⟨g,state,heg,hid,hstate,hnone⟩ := h.untold e he
    refine ⟨g,if f = g then change state else state,heg,hid,?_,?_⟩
    · simp only [modifyFuture, List.getElem?_modify, hstate]
      split_ifs <;> rfl
    · split_ifs
      · rw [hc, hnone]
      · exact hnone
  · simp only [modifyFuture, List.getElem?_modify] at hg
    obtain ⟨old,hold,rfl⟩ := Option.map_eq_some_iff.mp hg
    have hsame : (if f = g then change old else old).reported = old.reported := by
      split_ifs
      · exact hc old
      · rfl
    rw [hsame]
    exact h.told g old hold
  · simpa [modifyFuture] using h.futures

theorem Sound.update (h : Sound right s n) (at_ : MessageSequence → ℕ) :
    Sound right (s.update at_).2 n := by
  obtain ⟨-,huntold,htold,hlen,-⟩ := updateIn_told at_ s.promises.sorted h.untold h.told
  exact ⟨huntold,htold,h.ids,h.idSeq,hlen.trans h.futures⟩

/-- A value that is right for the future with the id is all that it is told. -/
theorem Sound.fulfill (h : Sound right s n) {id : MessageSequence} {value : β}
    (hright : ∀ f, s.ids[f]? = some id → right f value) (now : ℕ) (at_ : MessageSequence → ℕ) :
    Sound right (s.fulfill id value now at_) n := by
  unfold PendingPromises.fulfill
  cases hfind : s.promises.find? id with
  | none => exact h.update at_
  | some found =>
    obtain ⟨f,state,hfound,hid,hstate,hnone⟩ :=
      h.untold (id,found) (OrderedMap.find?_eq_some.mp hfind)
    obtain rfl : found = ⟨some f⟩ := hfound
    have huntold : Untold s.ids (s.promises.erase id).entries s.futures :=
      h.untold.sublist List.filter_sublist
    have hother : ∀ e ∈ (s.promises.erase id).entries, e.1 ≠ id := by
      intro e he
      simpa using (List.mem_filter.mp he).2
    apply Sound.update
    rcases fulfill_cases now f value s.futures with hsame | ⟨o,ho,htold⟩
    · rw [hsame]
      exact ⟨huntold,h.told,h.ids,h.idSeq,h.futures⟩
    · rw [htold]
      refine ⟨untold_report huntold hid hother o,told_report h.told hstate hnone ?_,h.ids,h.idSeq,
        (List.length_modify ..).trans h.futures⟩
      rintro value' rfl
      rcases ho with ho | ho
      · cases ho
      · cases ho
        exact hright f hid

end Sound

end PendingPromises

namespace RemoteMethod

/-- What the serializers write is read back, a signature without parameters has
one tuple of arguments, and a call is no reply. -/
structure Faithful (method : RemoteMethod α β) : Prop where
  args : ∀ args size data, method.serializeArgs args size = some data →
    method.codec.deserialize data = some args
  none : ∀ args ∈ method.codec.noParameters, ∀ args', args' = args
  result : ∀ value size data, method.codec.serialize value size = some data →
    method.reader.deserialize data = some value
  ids : method.callId ≠ method.replyId

variable {method : RemoteMethod α β}

/-- The arguments that are read from a call are those it was made with. -/
theorem invokeOn_args (hm : method.Faithful) {invoker : PendingPromises β}
    {targetId : EndpointId} {args args' : α} {size duration now : ℕ} {message : MessageView}
    (h : (method.invokeOn invoker targetId args size duration now).1 = some message)
    (hread : method.codec.readArgs message = some args') : args' = args := by
  unfold invokeOn at h
  unfold SkeletonCodec.readArgs at hread
  cases hnone : method.codec.noParameters with
  | some only =>
    simp only [hnone] at h hread
    cases h
    have hsame := hm.none only hnone
    exact (hsame args').trans (hsame args).symm
  | none =>
    simp only [hnone] at h hread
    cases hdata : method.serializeArgs args size with
    | none => simp [hdata] at h
    | some data =>
      simp only [hdata] at h
      cases h
      split_ifs at hread
      rw [show MessageView.content _ _ = data from rfl, hm.args args size data hdata] at hread
      exact (Option.some.inj hread).symm

theorem invokeOn_header {invoker : PendingPromises β} {targetId : EndpointId} {args : α}
    {size duration now : ℕ} {message : MessageView}
    (h : (method.invokeOn invoker targetId args size duration now).1 = some message) :
    message.targetId = targetId ∧ message.sequenceNo = invoker.nextId := by
  unfold invokeOn at h
  dsimp only at h
  split at h
  · cases h
    exact ⟨rfl,rfl⟩
  · split at h
    · cases h
      exact ⟨rfl,rfl⟩
    · cases h

variable (method) in
theorem invokeOn_ids (invoker : PendingPromises β) (targetId : EndpointId) (args : α)
    (size duration now : ℕ) :
    (method.invokeOn invoker targetId args size duration now).2.ids =
      invoker.ids ++ [invoker.nextId] := by
  unfold invokeOn
  dsimp only
  split
  · rfl
  · split <;> rfl

variable (method) in
theorem invokeOn_sound {right : ℕ → β → Prop} {invoker : PendingPromises β} {n : ℕ}
    (h : invoker.Sound right n) (targetId : EndpointId) (args : α) (size duration now : ℕ) :
    (method.invokeOn invoker targetId args size duration now).2.Sound right (n+1) := by
  have hmade := h.make duration now
  unfold invokeOn
  dsimp only
  split
  · exact hmade
  · split
    · exact hmade
    · exact hmade.modify fun _ => rfl

end RemoteMethod

namespace RemoteCalls

variable {μ : Type} (method : RemoteMethod α β) (id : μ → EndpointId)
  (func : μ → α → β)

/-- A peer has made the call, under this number. -/
structure Made (net : RemoteCalls μ α β) (p : μ) (f : ℕ) (no : MessageSequence)
    (call : RemoteCall α) : Prop where
  call : (net.peer p).calls[f]? = some call
  number : (net.peer p).invoker.ids[f]? = some no

/-- Somebody has called the function of the peer with these arguments. -/
def Asked (net : RemoteCalls μ α β) (q : μ) (invokerId : EndpointId) (no : MessageSequence)
    (args : α) : Prop :=
  ∃ p f call, invokerId = id p ∧ net.Made p f no call ∧ call.IsFor (id q) ∧ args = call.args

/-- A value that the call of the future can come to. -/
def Right (calls : List (RemoteCall α)) (f : ℕ) (value : β) : Prop :=
  ∃ call q, calls[f]? = some call ∧ call.IsFor (id q) ∧ value = func q call.args

/-- A call that a skeleton of the peer has accepted. -/
structure Owed {χ : Type} (net : RemoteCalls μ α β) (q : μ) (no : MessageSequence)
    (call : DeferredCall χ α β) : Prop where
  asked : net.Asked id q call.invokerId no call.args
  func : call.func = func q
  responseId : call.responseId = method.replyId

/-- Calls and replies on the bus belong to calls that were made. -/
structure Posted (net : RemoteCalls μ α β) (m : MessageId × MessageView) : Prop where
  call : m.1 = method.callId → ∃ p f call, m.2.sourceId = id p ∧
    net.Made p f m.2.sequenceNo call ∧ m.2.targetId = call.targetId ∧
      ∀ args, method.codec.readArgs m.2 = some args → args = call.args
  reply : m.1 = method.replyId → ∃ q args, net.Asked id q m.2.targetId m.2.sequenceNo args ∧
    ∀ value, method.reader.result m.2 = some value → value = func q args

structure PeerSound (net : RemoteCalls μ α β) (p : μ) (peer : RemotePeer α β) : Prop where
  invoker : peer.invoker.Sound (Right id func peer.calls) peer.calls.length
  room : peer.calls.length ≤ 4294967296
  lazy : ∀ e ∈ peer.lazy.pending.entries, net.Owed method id func p e.1 e.2
  async : ∀ e ∈ peer.async.pending.entries, net.Owed method id func p e.1 e.2 ∧
    DeferredAnswers.AsyncRun.Done e.2

structure Inv (net : RemoteCalls μ α β) : Prop where
  peers : ∀ p, net.PeerSound method id func p (net.peer p)
  posted : ∀ m ∈ net.onBus, net.Posted method id func m

/-- More calls were made. -/
def Grows (net net' : RemoteCalls μ α β) : Prop :=
  ∀ p, (net.peer p).calls <+: (net'.peer p).calls ∧
    (net.peer p).invoker.ids <+: (net'.peer p).invoker.ids

theorem getElem?_extended {τ : Type} {l l' : List τ} (h : l <+: l') {i : ℕ} {x : τ}
    (hx : l[i]? = some x) : l'[i]? = some x := by
  obtain ⟨t,rfl⟩ := h
  exact (List.getElem?_append_left (List.getElem?_eq_some_iff.mp hx).1).trans hx

section Grows

variable {method id func} {net net' : RemoteCalls μ α β} (hg : net.Grows net')

include hg

theorem Made.grows {p : μ} {f : ℕ} {no : MessageSequence} {call : RemoteCall α}
    (h : net.Made p f no call) : net'.Made p f no call :=
  ⟨getElem?_extended (hg p).1 h.call,getElem?_extended (hg p).2 h.number⟩

theorem Asked.grows {q : μ} {invokerId : EndpointId} {no : MessageSequence} {args : α}
    (h : net.Asked id q invokerId no args) : net'.Asked id q invokerId no args := by
  obtain ⟨p,f,call,hid,hmade,hfor,hargs⟩ := h
  exact ⟨p,f,call,hid,hmade.grows hg,hfor,hargs⟩

theorem Owed.grows {χ : Type} {q : μ} {no : MessageSequence} {call : DeferredCall χ α β}
    (h : net.Owed method id func q no call) : net'.Owed method id func q no call :=
  ⟨h.asked.grows hg,h.func,h.responseId⟩

theorem Posted.grows {m : MessageId × MessageView} (h : net.Posted method id func m) :
    net'.Posted method id func m := by
  refine ⟨fun hcall => ?_,fun hreply => ?_⟩
  · obtain ⟨p,f,call,hid,hmade,htarget,hargs⟩ := h.call hcall
    exact ⟨p,f,call,hid,hmade.grows hg,htarget,hargs⟩
  · obtain ⟨q,args,hasked,hvalue⟩ := h.reply hreply
    exact ⟨q,args,hasked.grows hg,hvalue⟩

theorem PeerSound.grows {p : μ} {peer : RemotePeer α β} (h : net.PeerSound method id func p peer) :
    net'.PeerSound method id func p peer :=
  ⟨h.invoker,h.room,fun e he => (h.lazy e he).grows hg,
    fun e he => ⟨(h.async e he).1.grows hg,(h.async e he).2⟩⟩

end Grows

theorem Right.grows {id : μ → EndpointId} {func : μ → α → β} {calls : List (RemoteCall α)}
    (call : RemoteCall α) (f : ℕ) (value : β) (h : Right id func calls f value) :
    Right id func (calls ++ [call]) f value := by
  obtain ⟨c,q,hc,hfor,hvalue⟩ := h
  exact ⟨c,q,getElem?_extended (List.prefix_append _ _) hc,hfor,hvalue⟩

section Posts

variable {method id func} {net : RemoteCalls μ α β}

/-- A reply with the result of a call that was asked for. -/
theorem reply_posted (hm : method.Faithful) {q : μ} {message : MessageView} {args : α}
    (hasked : net.Asked id q message.targetId message.sequenceNo args) {size : ℕ}
    (hdata : method.codec.serialize (func q args) size = some message.data)
    (hplain : message.isSigned = false) :
    net.Posted method id func (method.replyId,message) := by
  refine ⟨fun hcall => absurd hcall.symm hm.ids,fun _ => ⟨q,args,hasked,fun value hvalue => ?_⟩⟩
  have hread : method.reader.deserialize message.data = some (func q args) :=
    hm.result _ size _ hdata
  rw [ResultReader.result, MessageView.content, if_neg (Bool.eq_false_iff.mp hplain), hread]
    at hvalue
  split_ifs at hvalue
  exact (Option.some.inj hvalue).symm

theorem response_posted (hm : method.Faithful) {χ : Type} {q : μ} {no : MessageSequence}
    {call : DeferredCall χ α β} (h : net.Owed method id func q no call) {size : ℕ}
    {source : EndpointId} {m : MessageId × MessageView}
    (hpost : method.codec.response no call (func q call.args) size = some m) :
    net.Posted method id func (m.1,{ m.2 with sourceId := source }) := by
  obtain ⟨data,hdata,rfl⟩ := Option.map_eq_some_iff.mp hpost
  rw [h.responseId]
  exact reply_posted hm h.asked hdata rfl

/-- Who is given a call has been asked. -/
theorem Posted.asked {m : MessageId × MessageView} (h : net.Posted method id func m)
    (hcall : m.1 = method.callId) {q : μ}
    (hfor : m.2.targetId = id q ∨ isValidId m.2.targetId = false) {args : α}
    (hread : method.codec.readArgs m.2 = some args) :
    net.Asked id q m.2.sourceId m.2.sequenceNo args := by
  obtain ⟨p,f,call,hid,hmade,htarget,hargs⟩ := h.call hcall
  rw [htarget] at hfor
  exact ⟨p,f,call,hid,hmade,hfor,hargs args hread⟩

theorem mem_enqueue {χ : Type} {codec : SkeletonCodec α β} {pending : PendingCalls χ α β}
    {request : MessageView} {responseId : MessageId} {f : α → β} {state : χ}
    {e : MessageSequence × DeferredCall χ α β}
    (he : e ∈ (codec.enqueue pending request responseId f state).2.entries) :
    e ∈ pending.entries ∨ ∃ args, codec.readArgs request = some args ∧
      e = (request.sequenceNo,⟨responseId,args,f,request.sourceId,state⟩) := by
  unfold SkeletonCodec.enqueue at he
  split at he
  · exact .inl he
  · split at he
    · rcases OrderedMap.mem_assignIn he with rfl | he
      · exact .inr ⟨_,‹_›,rfl⟩
      · exact .inl he
    · exact .inl he

/-- On its way a message belongs to the same call. -/
theorem Posted.transit {m : MessageId × MessageView} (h : net.Posted method id func m)
    (hopCount age : Int8) :
    net.Posted method id func (m.1,{ m.2 with hopCount, ageQuarterSeconds := age }) :=
  ⟨h.call,h.reply⟩

end Posts

variable {method id func} in
theorem inv_start (lazyTimeout : μ → ℕ) :
    (start lazyTimeout : RemoteCalls μ α β).Inv method id func :=
  ⟨fun _ => ⟨PendingPromises.sound_start,Nat.zero_le _,fun _ he => absurd he List.not_mem_nil,
    fun _ he => absurd he List.not_mem_nil⟩,fun _ hm => absurd hm List.not_mem_nil⟩

end RemoteCalls

namespace RemoteCalls

variable {μ : Type} [DecidableEq μ] {method : RemoteMethod α β} {id : μ → EndpointId}
  {func : μ → α → β} {net : RemoteCalls μ α β} {p : μ}

section Apply

variable {r : RemotePeer α β × List (MessageId × MessageView)}

theorem apply_self (net : RemoteCalls μ α β) (p : μ)
    (r : RemotePeer α β × List (MessageId × MessageView)) : (net.apply id p r).peer p = r.1 :=
  Function.update_self ..

theorem apply_grows (hcalls : (net.peer p).calls <+: r.1.calls)
    (hids : (net.peer p).invoker.ids <+: r.1.invoker.ids) : net.Grows (net.apply id p r) := by
  intro q
  by_cases hq : q = p
  · subst hq
    rw [apply_self]
    exact ⟨hcalls,hids⟩
  · rw [show (net.apply id p r).peer q = net.peer q from Function.update_of_ne hq ..]
    exact ⟨List.prefix_refl _,List.prefix_refl _⟩

/-- What a peer does keeps the invariant if it keeps its own part and posts
what belongs to calls that were made. -/
theorem Inv.apply (h : net.Inv method id func) (hg : net.Grows (net.apply id p r))
    (hpeer : (net.apply id p r).PeerSound method id func p r.1)
    (hposted : ∀ m ∈ r.2,
      (net.apply id p r).Posted method id func (m.1,{ m.2 with sourceId := id p })) :
    (net.apply id p r).Inv method id func := by
  refine ⟨fun q => ?_,fun m hm => ?_⟩
  · by_cases hq : q = p
    · subst hq
      rw [apply_self]
      exact hpeer
    · rw [show (net.apply id p r).peer q = net.peer q from Function.update_of_ne hq ..]
      exact (h.peers q).grows hg
  · rcases List.mem_append.mp hm with hm | hm
    · exact (h.posted m hm).grows hg
    · obtain ⟨own,hown,rfl⟩ := List.mem_map.mp hm
      exact hposted own hown

/-- A peer that makes no call keeps the invariant. -/
theorem Inv.apply_same (h : net.Inv method id func) (hcalls : r.1.calls = (net.peer p).calls)
    (hids : r.1.invoker.ids = (net.peer p).invoker.ids)
    (hpeer : net.PeerSound method id func p r.1)
    (hposted : ∀ m ∈ r.2, net.Posted method id func (m.1,{ m.2 with sourceId := id p })) :
    (net.apply id p r).Inv method id func := by
  have hg : net.Grows (net.apply id p r) :=
    apply_grows (hcalls ▸ List.prefix_refl _) (hids ▸ List.prefix_refl _)
  exact h.apply hg (hpeer.grows hg) fun m hm => (hposted m hm).grows hg

end Apply

theorem inv_invokeOn (hm : method.Faithful) (h : net.Inv method id func) (targetId : EndpointId)
    (args : α) (size duration now : ℕ) (hroom : (net.peer p).calls.length < 4294967296) :
    (net.step method id func (.act p (.invokeOn targetId args size duration now))).Inv
      method id func := by
  have hpeer := h.peers p
  have hids := RemoteMethod.invokeOn_ids method (net.peer p).invoker targetId args size
    duration now
  have hg : net.Grows (net.step method id func
      (.act p (.invokeOn targetId args size duration now))) :=
    apply_grows (List.prefix_append _ _) (by
      change _ <+: (method.invokeOn (net.peer p).invoker targetId args size duration now).2.ids
      rw [hids]
      exact List.prefix_append _ _)
  refine h.apply hg ⟨?_,?_,?_,?_⟩ ?_
  · have hmade := RemoteMethod.invokeOn_sound method hpeer.invoker targetId args size
      duration now
    have hsound := hmade.mono (Right.grows ⟨targetId,args⟩)
    simpa [RemotePeer.act] using hsound
  · simpa [RemotePeer.act] using Nat.succ_le_of_lt hroom
  · exact (hpeer.grows hg).lazy
  · exact (hpeer.grows hg).async
  · intro m hpost
    simp only [RemotePeer.act, Option.mem_toList, Option.map_eq_some_iff] at hpost
    obtain ⟨message,hmessage,rfl⟩ := hpost
    obtain ⟨htarget,hno⟩ := RemoteMethod.invokeOn_header hmessage
    refine ⟨fun _ => ⟨p,(net.peer p).calls.length,⟨targetId,args⟩,rfl,⟨?_,?_⟩,htarget,?_⟩,
      fun hreply => absurd hreply hm.ids⟩
    · rw [apply_self]
      exact List.getElem?_concat_length
    · rw [apply_self]
      change (method.invokeOn (net.peer p).invoker targetId args size duration now).2.ids[_]? = _
      have hlen : (net.peer p).invoker.ids.length = (net.peer p).calls.length := by
        rw [hpeer.invoker.ids]
        simp [PendingPromises.numbers]
      rw [hids, hno, ← hlen]
      exact List.getElem?_concat_length
    · exact fun args' hread => RemoteMethod.invokeOn_args hm hmessage hread

theorem inv_owner (h : net.Inv method id func) (e : PromiseEvent β) :
    (net.step method id func (.act p (.owner e))).Inv method id func := by
  have hpeer := h.peers p
  have hkeep {invoker : PendingPromises β} (hids : invoker.ids = (net.peer p).invoker.ids)
      (hsound : invoker.Sound (Right id func (net.peer p).calls) (net.peer p).calls.length) :
      (net.apply id p ({ net.peer p with invoker },[])).Inv method id func :=
    h.apply_same rfl hids ⟨hsound,hpeer.room,hpeer.lazy,hpeer.async⟩
      fun m hm => absurd hm List.not_mem_nil
  cases e with
  | make | fulfill | fulfillBy => exact hkeep rfl hpeer.invoker
  | setTimeout | onSuccess | onTimeout | release =>
    exact hkeep rfl (hpeer.invoker.modify fun _ => rfl)
  | update at_ => exact hkeep rfl (hpeer.invoker.update at_)

theorem inv_lazy (hm : method.Faithful) (h : net.Inv method id func) (at_ : MessageSequence → ℕ)
    (size : ℕ) : (net.step method id func (.act p (.handleLazy at_ size))).Inv method id func := by
  have hpeer := h.peers p
  refine h.apply_same rfl rfl ⟨hpeer.invoker,hpeer.room,fun e he => ?_,hpeer.async⟩
    fun m hpost => ?_
  · exact hpeer.lazy e ((LazySkeleton.handleIn_sublist at_ _).mem he)
  · obtain ⟨e,he,hresponse⟩ := Option.bind_eq_some_iff.mp (Option.mem_toList.mp hpost)
    have hmem : e ∈ (net.peer p).lazy.pending.entries := by
      rw [LazySkeleton.handleIn_split at_ (net.peer p).lazy.pending.entries, he]
      simp
    have howed := hpeer.lazy e hmem
    rw [howed.func] at hresponse
    exact response_posted hm howed hresponse

theorem inv_work (h : net.Inv method id func) (no : MessageSequence)
    {change : AsyncCall α β → WorkState β}
    (hchange : ∀ call, (net.peer p).async.pending.find? no = some call →
      DeferredAnswers.AsyncRun.Done call →
        DeferredAnswers.AsyncRun.Done { call with state := change call }) :
    (net.apply id p ({ net.peer p with async := (net.peer p).async.work no change },[])).Inv
      method id func := by
  have hpeer := h.peers p
  have hdone := DeferredAnswers.AsyncRun.work_done
    (s := { skeleton := (net.peer p).async }) (fun e he => (hpeer.async e he).2) hchange
  refine h.apply_same rfl rfl ⟨hpeer.invoker,hpeer.room,hpeer.lazy,fun e he => ⟨?_,hdone e he⟩⟩
    fun m hm => absurd hm List.not_mem_nil
  obtain ⟨d,hd,rfl⟩ := List.mem_map.mp he
  have howed := (hpeer.async d hd).1
  dsimp only
  split_ifs
  · exact ⟨howed.asked,howed.func,howed.responseId⟩
  · exact howed

theorem inv_async (hm : method.Faithful) (h : net.Inv method id func) (size : ℕ) :
    (net.step method id func (.act p (.handleAsync size))).Inv method id func := by
  have hpeer := h.peers p
  refine h.apply_same rfl rfl ⟨hpeer.invoker,hpeer.room,hpeer.lazy,fun e he => ?_⟩
    fun m hpost => ?_
  · exact hpeer.async e ((AsyncSkeleton.handleIn_sublist _).mem he)
  · obtain ⟨e,he,hresponse⟩ := Option.bind_eq_some_iff.mp (Option.mem_toList.mp hpost)
    obtain ⟨hmem,hfinished⟩ := AsyncSkeleton.handleIn_taken he
    obtain ⟨howed,hdone⟩ := hpeer.async e hmem
    obtain ⟨result,hresult⟩ := Option.isSome_iff_exists.mp (hdone.2 hfinished)
    rw [hresult, Option.getD_some, hdone.1 result hresult, howed.func] at hresponse
    exact response_posted hm howed hresponse

theorem fulfillBy_ids (invoker : PendingPromises β) (message : MessageView) (now : ℕ)
    (at_ : MessageSequence → ℕ) :
    (invoker.fulfillBy method.reader message now at_).ids = invoker.ids := by
  unfold PendingPromises.fulfillBy PendingPromises.fulfill
  split
  · split <;> rfl
  · rfl

/-- A reply is told to the future that was made with its number. -/
theorem inv_reply (hinj : Function.Injective id) (hvalid : ∀ q, isValidId (id q) = true)
    (h : net.Inv method id func) {m : MessageId × MessageView}
    (hposted : net.Posted method id func m)
    (hfor : m.2.targetId = id p ∨ isValidId m.2.targetId = false) (hreply : m.1 = method.replyId)
    (now : ℕ) (at_ : MessageSequence → ℕ) :
    (net.apply id p ({ net.peer p with
      invoker := (net.peer p).invoker.fulfillBy method.reader m.2 now at_ },[])).Inv
      method id func := by
  have hpeer := h.peers p
  obtain ⟨q,args,⟨p',f,call,hid,hmade,hcallfor,rfl⟩,hvalue⟩ := hposted.reply hreply
  have hown : p' = p := by
    rcases hfor with hfor | hfor
    · exact hinj (hid.symm.trans hfor)
    · rw [hid, hvalid p'] at hfor
      cases hfor
  subst hown
  refine h.apply_same rfl (fulfillBy_ids _ m.2 now at_)
    ⟨?_,hpeer.room,hpeer.lazy,hpeer.async⟩ fun m hm => absurd hm List.not_mem_nil
  unfold PendingPromises.fulfillBy
  cases hresult : method.reader.result m.2 with
  | none => exact hpeer.invoker
  | some value =>
    refine hpeer.invoker.fulfill (fun g hg => ?_) now at_
    have hnumber := hmade.number
    rw [hpeer.invoker.ids] at hg hnumber
    obtain rfl := PendingPromises.numbers_inj hpeer.room hnumber hg
    exact ⟨call,q,hmade.call,hcallfor,hvalue value hresult⟩

theorem inv_receive (hm : method.Faithful) (hinj : Function.Injective id)
    (hvalid : ∀ q, isValidId (id q) = true) (h : net.Inv method id func)
    {m : MessageId × MessageView} (hposted : net.Posted method id func m)
    (hfor : m.2.targetId = id p ∨ isValidId m.2.targetId = false) (kind : SkeletonKind)
    (size now : ℕ) (at_ : MessageSequence → ℕ) :
    (net.apply id p ((net.peer p).receive method (func p) m.1 m.2 kind size now at_)).Inv
      method id func := by
  have hpeer := h.peers p
  unfold RemotePeer.receive
  split_ifs with hreply hcall
  · exact inv_reply hinj hvalid h hposted hfor hreply now at_
  · have hasked {args : α} (hread : method.codec.readArgs m.2 = some args) :=
      hposted.asked hcall hfor hread
    cases kind with
    | immediate =>
      refine h.apply_same rfl rfl hpeer fun reply hpost => ?_
      unfold SkeletonCodec.call at hpost
      cases hread : method.codec.readArgs m.2 with
      | none => simp [hread] at hpost
      | some args =>
        simp only [hread, Option.mem_toList, Option.map_eq_some_iff] at hpost
        obtain ⟨data,hdata,rfl⟩ := hpost
        exact reply_posted hm (hasked hread) hdata rfl
    | lazy =>
      refine h.apply_same rfl rfl ⟨hpeer.invoker,hpeer.room,fun e he => ?_,hpeer.async⟩
        fun m hm => absurd hm List.not_mem_nil
      rcases mem_enqueue he with he | ⟨args,hread,rfl⟩
      · exact hpeer.lazy e he
      · exact ⟨hasked hread,rfl,rfl⟩
    | async =>
      refine h.apply_same rfl rfl ⟨hpeer.invoker,hpeer.room,hpeer.lazy,fun e he => ?_⟩
        fun m hm => absurd hm List.not_mem_nil
      rcases mem_enqueue he with he | ⟨args,hread,rfl⟩
      · exact hpeer.async e he
      · refine ⟨⟨hasked hread,rfl,rfl⟩,?_,?_⟩
        · rintro value ⟨⟩
        · rintro ⟨⟩
  · exact h.apply_same rfl rfl hpeer fun m hm => absurd hm List.not_mem_nil

theorem inv_step (hm : method.Faithful) (hinj : Function.Injective id)
    (hvalid : ∀ q, isValidId (id q) = true) (h : net.Inv method id func) (e : RemoteEvent μ α β)
    (hok : Proper net e) : (net.step method id func e).Inv method id func := by
  cases e with
  | act p e =>
    cases e with
    | invokeOn targetId args size duration now =>
      exact inv_invokeOn hm h targetId args size duration now hok
    | owner e => exact inv_owner h e
    | handleLazy at_ size => exact inv_lazy hm h at_ size
    | doIt no => exact inv_work h no fun call _ _ => ⟨by simp,by simp⟩
    | deliver no =>
      exact inv_work h no fun call hcall hdone => ⟨hdone.1,fun _ => hok call hcall⟩
    | handleAsync size => exact inv_async hm h size
  | arrive p k hopCount age kind size now at_ =>
    cases hk : net.onBus[k]? with
    | none =>
      simp only [step, hk]
      exact h
    | some m =>
      simp only [step, hk]
      split_ifs with hfor
      · have hposted := (h.posted m (List.mem_of_getElem? hk)).transit hopCount age
        exact inv_receive hm hinj hvalid h hposted hfor kind size now at_
      · exact h

end RemoteCalls

/-- Each future is told nothing, that it is too late, or once what the function
of a peer that the call was for gives for the arguments of that call, however
often and in whatever order calls and replies arrive. The serializers are
`Faithful`, and the runs `Proper`. -/
theorem replies_right {μ α β : Type} [DecidableEq μ] (method : RemoteMethod α β)
    (hm : method.Faithful) (id : μ → EndpointId) (hinj : Function.Injective id)
    (hvalid : ∀ q, isValidId (id q) = true) (func : μ → α → β) (lazyTimeout : μ → ℕ)
    (es : List (RemoteEvent μ α β))
    (hok : Steps (RemoteCalls.step method id func) RemoteCalls.Proper (.start lazyTimeout) es) :
    Always (RemoteCalls.step method id func) (fun net => ∀ p f,
      let reported := (net.peer p).invoker.reported f
      reported = [] ∨ reported = [.timeout] ∨ ∃ call q, (net.peer p).calls[f]? = some call ∧
        call.IsFor (id q) ∧ reported = [.success (func q call.args)])
      (.start lazyTimeout) es := by
  refine always_mono ?_ (always_of_invariant (fun net e (h : net.Inv method id func) hok =>
    RemoteCalls.inv_step hm hinj hvalid h e hok) (RemoteCalls.inv_start lazyTimeout) hok)
  intro net h p f
  dsimp only
  unfold PendingPromises.reported
  cases hf : (net.peer p).invoker.futures[f]? with
  | none => exact .inl rfl
  | some state =>
    rcases (h.peers p).invoker.told f state hf with hnone | hlate | ⟨value,hright,hvalue⟩
    · exact .inl hnone
    · exact .inr (.inl hlate)
    · obtain ⟨call,q,hcall,hfor,rfl⟩ := hright
      exact .inr (.inr ⟨call,q,hcall,hfor,hvalue⟩)

/-! ## A call that is answered twice -/

def sampleMethod : RemoteMethod UInt8 UInt8 where
  callId := ⟨.other 1,.other 1⟩
  replyId := ⟨.other 1,.other 2⟩
  argsTypeId := 1
  serializeArgs args size := if 1 ≤ size then some [args] else none
  codec := {
    readTypeId := 1
    writeTypeId := 1
    deserialize := List.head?
    serialize := fun value size => if 1 ≤ size then some [value] else none
    getDataWithSize := id }
  reader := { typeId := 1, deserialize := List.head?, getDataWithSize := id }
  blank := 0

theorem sampleMethod_faithful : sampleMethod.Faithful where
  args args size data h := by
    simp only [sampleMethod, Option.ite_none_right_eq_some, Option.some.injEq] at h
    rw [← h.2]
    rfl
  none := fun _ h => by cases h
  result value size data h := by
    simp only [sampleMethod, Option.ite_none_right_eq_some, Option.some.injEq] at h
    rw [← h.2]
    rfl
  ids := by decide

def sampleIds (p : Bool) : EndpointId := if p then 9 else 7

/-- The call is given to its target twice, and the reply to the caller. -/
def calledTwice : List (RemoteEvent Bool UInt8 UInt8) := [
  .act false (.invokeOn 9 3 8 1000 0),.act false (.owner (.onSuccess 0)),
  .arrive true 0 1 0 .immediate 8 10 fun _ => 10,.arrive true 0 1 0 .lazy 8 11 fun _ => 11,
  .act true (.handleLazy (fun _ => 12) 8),
  .arrive false 2 1 0 .immediate 8 20 fun _ => 20,.arrive false 1 1 0 .immediate 8 30 fun _ => 30]

theorem calledTwice_right :
    Always (RemoteCalls.step sampleMethod sampleIds fun _ => (·+1)) (fun net => ∀ p f,
      let reported := (net.peer p).invoker.reported f
      reported = [] ∨ reported = [.timeout] ∨ ∃ call q, (net.peer p).calls[f]? = some call ∧
        call.IsFor (sampleIds q) ∧ reported = [.success (call.args+1)])
      (.start fun _ => 1000) calledTwice ∧
    ((run (RemoteCalls.step sampleMethod sampleIds fun _ => (·+1)) (.start fun _ => 1000)
      calledTwice).peer false).invoker.reported 0 = [.success 4] :=
  ⟨replies_right sampleMethod sampleMethod_faithful sampleIds
    (fun a b => by revert a b; decide) (by decide) _ _ _ (by decide),by decide⟩

end MsgBus
