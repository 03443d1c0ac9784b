import Mathlib.Data.List.Induction
import MsgBus.Types
import MsgBus.Lib.OrderedMap
import MsgBus.Lib.StepRun

/-!
# Pending promises and the replies to invocations

A promise refers to the state of its future in a list of all future states;
the handlers that were called are reports appended to that state. The time is
read once for each promise that is looked at.
-/

set_option autoImplicit false

namespace MsgBus

inductive FutureReport (α : Type*) where
  | success (value : α)
  | timeout
  deriving DecidableEq, Repr

structure FutureState (α : Type*) where
  tooLate : Timeout
  successHandler : Bool := false
  timeoutHandler : Bool := false
  /-- Somebody still shares the ownership of the state. -/
  alive : Bool := true
  reported : List (FutureReport α) := []
  deriving DecidableEq, Repr

namespace FutureState

variable {α : Type*}

def report (o : FutureReport α) (state : FutureState α) : FutureState α :=
  { state with reported := state.reported++[o] }

/-- The state is alive and its handlers are set. -/
def ready (state : FutureState α) : Bool :=
  state.alive && state.successHandler && state.timeoutHandler

/-- The state after what one step reports, if anything. -/
def hear (state : FutureState α) : Option (FutureReport α) → FutureState α
  | some o => state.report o
  | none => state

@[simp] theorem hear_reported (state : FutureState α) (o : Option (FutureReport α)) :
    (state.hear o).reported = state.reported++o.toList := by
  cases o <;> simp [hear, report]

@[simp] theorem hear_tooLate (state : FutureState α) (o : Option (FutureReport α)) :
    (state.hear o).tooLate = state.tooLate := by
  cases o <;> rfl

@[simp] theorem hear_ready (state : FutureState α) (o : Option (FutureReport α)) :
    (state.hear o).ready = state.ready := by
  cases o <;> rfl

end FutureState

/-- A weak reference to the state of a future. -/
structure Promise where
  state : Option ℕ := none
  deriving DecidableEq, Repr

namespace Promise

variable {α : Type*}

def lock (futures : List (FutureState α)) (promise : Promise) : Option (ℕ × FutureState α) :=
  match promise.state with
  | some f =>
    match futures[f]? with
    | some state => if state.alive then some (f,state) else none
    | none => none
  | none => none

def shouldBeRemoved (now : ℕ) (promise : Promise) (futures : List (FutureState α)) :
    Bool × Promise × List (FutureState α) :=
  match promise.lock futures with
  | some (f,state) =>
    if state.tooLate.isExpired now then
      if state.timeoutHandler then (true,{},futures.modify f (FutureState.report .timeout))
      else (true,promise,futures)
    else (false,promise,futures)
  | none => (true,promise,futures)

def fulfill (now : ℕ) (value : α) (promise : Promise) (futures : List (FutureState α)) :
    Promise × List (FutureState α) :=
  match promise.lock futures with
  | some (f,state) =>
    if state.tooLate.isExpired now then
      if state.timeoutHandler then ({},futures.modify f (FutureState.report .timeout))
      else ({},futures)
    else
      if state.successHandler then ({},futures.modify f (FutureState.report (.success value)))
      else ({},futures)
  | none => (promise,futures)

end Promise

/-- The promises of one invoker, the futures made with them and the id that was
handed out with each future. -/
structure PendingPromises (α : Type*) where
  idSeq : MessageSequence := 0
  promises : OrderedMap MessageSequence Promise := .empty
  futures : List (FutureState α) := []
  ids : List MessageSequence := []

namespace PendingPromises

variable {α : Type*}

def nextId (s : PendingPromises α) : MessageSequence := (s.idSeq+1)%4294967296

def make (duration now : ℕ) (s : PendingPromises α) : PendingPromises α where
  idSeq := s.nextId
  promises := s.promises.assign s.nextId ⟨some s.futures.length⟩
  futures := s.futures++[{ tooLate := ⟨now,duration⟩ }]
  ids := s.ids++[s.nextId]

/-- Erasing asks each promise in the order of the ids, at its own time. -/
def updateIn (at_ : MessageSequence → ℕ) :
    List (MessageSequence × Promise) → List (FutureState α) →
      List (MessageSequence × Promise) × List (FutureState α)
  | [], futures => ([],futures)
  | e::es, futures =>
    let asked := e.2.shouldBeRemoved (at_ e.1) futures
    let rest := updateIn at_ es asked.2.2
    if asked.1 then rest else ((e.1,asked.2.1)::rest.1,rest.2)

theorem updateIn_keys (at_ : MessageSequence → ℕ) (es : List (MessageSequence × Promise))
    (futures : List (FutureState α)) :
    ((updateIn at_ es futures).1.map Prod.fst).Sublist (es.map Prod.fst) := by
  induction es generalizing futures with
  | nil => exact List.Sublist.refl _
  | cons e es ih =>
    simp only [updateIn]
    split_ifs
    · exact (ih _).cons _
    · exact (ih _).cons_cons _

theorem updateIn_sorted (at_ : MessageSequence → ℕ) (es : List (MessageSequence × Promise))
    (futures : List (FutureState α)) (h : es.Pairwise (fun a b => a.1 < b.1)) :
    (updateIn at_ es futures).1.Pairwise (fun a b => a.1 < b.1) :=
  List.pairwise_map.mp ((List.pairwise_map.mpr h).sublist (updateIn_keys at_ es futures))

def update (at_ : MessageSequence → ℕ) (s : PendingPromises α) : Bool × PendingPromises α :=
  let asked := updateIn at_ s.promises.entries s.futures
  (0 < s.promises.size-asked.1.length,{ s with
    promises := ⟨asked.1,updateIn_sorted at_ _ _ s.promises.sorted⟩
    futures := asked.2 })

def fulfill (id : MessageSequence) (value : α) (now : ℕ) (at_ : MessageSequence → ℕ)
    (s : PendingPromises α) : PendingPromises α :=
  match s.promises.find? id with
  | some found =>
    ({ s with
      promises := s.promises.erase id
      futures := (found.fulfill now value s.futures).2 }.update at_).2
  | none => (s.update at_).2

def hasSome (s : PendingPromises α) : Bool := !s.promises.isEmpty

def hasNone (s : PendingPromises α) : Bool := s.promises.isEmpty

end PendingPromises

/-- What reads the result of an invocation back from a message. -/
structure ResultReader (α : Type*) where
  typeId : EndpointId
  deserialize : Block → Option α
  getDataWithSize : Block → Block

/-- The value a reply carries, if it can be read. -/
def ResultReader.result {α : Type*} (reader : ResultReader α) (message : MessageView) : Option α :=
  if message.serializerId = reader.typeId then
    reader.deserialize (message.content reader.getDataWithSize)
  else none

inductive PromiseEvent (α : Type*) where
  | make (duration now : ℕ)
  | setTimeout (f duration now : ℕ)
  | onSuccess (f : ℕ)
  | onTimeout (f : ℕ)
  | release (f : ℕ)
  | fulfill (id : MessageSequence) (value : α) (now : ℕ) (at_ : MessageSequence → ℕ)
  | fulfillBy (message : MessageView) (now : ℕ) (at_ : MessageSequence → ℕ)
  | update (at_ : MessageSequence → ℕ)

namespace PromiseEvent

variable {α : Type*} (reader : ResultReader α)

/-- The events that look at the pending promises. -/
def looks : PromiseEvent α → Bool
  | .fulfill _ _ _ _ | .fulfillBy _ _ _ | .update _ => true
  | _ => false

/-- The id, the value and the time of a reply that can be read. -/
def reply : PromiseEvent α → Option (MessageSequence × α × ℕ)
  | .fulfill id value now _ => some (id,value,now)
  | .fulfillBy message now _ =>
    (reader.result message).map (fun value => (message.sequenceNo,value,now))
  | _ => none

/-- The value the event carries for the promise with this id. -/
def valueFor (e : PromiseEvent α) (id : MessageSequence) : Option α :=
  match e.reply reader with
  | some r => if r.1 = id then some r.2.1 else none
  | none => none

/-- The time at which the promise with this id is looked at. -/
def checkedAt (e : PromiseEvent α) (id : MessageSequence) : Option ℕ :=
  match e with
  | .fulfill id' _ now at_ => some (if id' = id then now else at_ id)
  | .fulfillBy message now at_ =>
    (reader.result message).map (fun _ => if message.sequenceNo = id then now else at_ id)
  | .update at_ => some (at_ id)
  | _ => none

end PromiseEvent

namespace PendingPromises

variable {α : Type*} (reader : ResultReader α)

def fulfillBy (message : MessageView) (now : ℕ) (at_ : MessageSequence → ℕ)
    (s : PendingPromises α) : PendingPromises α :=
  match reader.result message with
  | some result => s.fulfill message.sequenceNo result now at_
  | none => s

def modifyFuture (f : ℕ) (change : FutureState α → FutureState α) (s : PendingPromises α) :
    PendingPromises α :=
  { s with futures := s.futures.modify f change }

def step (s : PendingPromises α) : PromiseEvent α → PendingPromises α
  | .make duration now => s.make duration now
  | .setTimeout f duration now => s.modifyFuture f (fun c => { c with tooLate := ⟨now,duration⟩ })
  | .onSuccess f => s.modifyFuture f (fun c => { c with successHandler := true })
  | .onTimeout f => s.modifyFuture f (fun c => { c with timeoutHandler := true })
  | .release f => s.modifyFuture f (fun c => { c with alive := false })
  | .fulfill id value now at_ => s.fulfill id value now at_
  | .fulfillBy message now at_ => s.fulfillBy reader message now at_
  | .update at_ => (s.update at_).2

def promiseReady (s : PendingPromises α) (promise : Promise) : Bool :=
  match promise.state with
  | some f => ((s.futures[f]?).map FutureState.ready).getD false
  | none => true

def AllReady (s : PendingPromises α) : Prop :=
  s.promises.entries.all (fun e => s.promiseReady e.2) = true

/-- No id is given out that is still pending, and the states of the pending
promises are alive with their handlers set when they are looked at. -/
def Ready (s : PendingPromises α) : PromiseEvent α → Prop
  | .make _ _ => s.promises.contains s.nextId = false
  | .fulfill _ _ _ _ | .fulfillBy _ _ _ | .update _ => s.AllReady
  | _ => True

instance (s : PendingPromises α) : (e : PromiseEvent α) → Decidable (s.Ready e)
  | .make _ _ => inferInstanceAs (Decidable (s.promises.contains s.nextId = false))
  | .fulfill _ _ _ _ | .fulfillBy _ _ _ | .update _ =>
    inferInstanceAs (Decidable (s.promises.entries.all (fun e => s.promiseReady e.2) = true))
  | .setTimeout _ _ _ | .onSuccess _ | .onTimeout _ | .release _ => .isTrue trivial

/-- The future is pending under this id. -/
def Pending (s : PendingPromises α) (f : ℕ) (id : MessageSequence) : Prop :=
  s.ids[f]? = some id ∧ s.promises.find? id = some ⟨some f⟩

def reported (s : PendingPromises α) (f : ℕ) : List (FutureReport α) :=
  ((s.futures[f]?).map (·.reported)).getD []

def expired (s : PendingPromises α) (f now : ℕ) : Bool :=
  ((s.futures[f]?).map (·.tooLate.isExpired now)).getD false

/-- Each future is pending with nothing reported, or has one report. -/
def OnceReported (s : PendingPromises α) : Prop :=
  ∀ f < s.futures.length,
    (∃ id, s.Pending f id) ∧ s.reported f = [] ∨
    (∀ id, ¬ s.Pending f id) ∧ ∃ o, s.reported f = [o]

/-- A reply for the id of a pending future that comes before it times out. -/
def AnsweredInTime (f : ℕ) (value : α) (s : PendingPromises α) (e : PromiseEvent α) : Prop :=
  ∃ id t, s.Pending f id ∧ e.valueFor reader id = some value ∧
    e.checkedAt reader id = some t ∧ s.expired f t = false

/-- What a step does to the futures. -/
structure Settles (s : PendingPromises α) (e : PromiseEvent α) : Prop where
  late : ∀ f id t, s.Pending f id → e.checkedAt reader id = some t → s.expired f t = true →
    (s.step reader e).reported f = [.timeout]
  answered : ∀ f value, AnsweredInTime reader f value s e →
    (s.step reader e).reported f = [.success value]
  kept : ∀ f id, s.Pending f id → (∀ t, e.checkedAt reader id = some t → s.expired f t = false) →
    e.valueFor reader id = none →
    (s.step reader e).Pending f id ∧ (s.step reader e).reported f = []
  settled : ∀ f, s.reported f ≠ [] → (s.step reader e).reported f = s.reported f

section Update

variable {owner : List MessageSequence} {at_ : MessageSequence → ℕ}
  {es : List (MessageSequence × Promise)} {futures : List (FutureState α)}

theorem shouldBeRemoved_ready {f now : ℕ} {c : FutureState α} (hf : futures[f]? = some c)
    (hr : c.ready = true) : Promise.shouldBeRemoved now ⟨some f⟩ futures =
      if c.tooLate.isExpired now then (true,{},futures.modify f (FutureState.report .timeout))
      else (false,⟨some f⟩,futures) := by
  simp only [FutureState.ready, Bool.and_eq_true] at hr
  simp [Promise.shouldBeRemoved, Promise.lock, hf, hr]

theorem fulfill_ready {f : ℕ} (now : ℕ) {c : FutureState α} (hf : futures[f]? = some c)
    (hr : c.ready = true) (value : α) : (Promise.fulfill now value ⟨some f⟩ futures).2 =
      futures.modify f
        (FutureState.report (if c.tooLate.isExpired now then .timeout else .success value)) := by
  simp only [FutureState.ready, Bool.and_eq_true] at hr
  cases hx : c.tooLate.isExpired now with
  | true => simp [Promise.fulfill, Promise.lock, hf, hr, hx]
  | false => simp [Promise.fulfill, Promise.lock, hf, hr, hx]

/-- The future of an asked promise times out. -/
def timesOut (owner : List MessageSequence) (at_ : MessageSequence → ℕ)
    (es : List (MessageSequence × Promise)) (f : ℕ) (c : FutureState α) : Bool :=
  match owner[f]? with
  | some id => decide ((id,⟨some f⟩) ∈ es) && c.tooLate.isExpired (at_ id)
  | none => false

theorem timesOut_nil (f : ℕ) (c : FutureState α) : timesOut owner at_ [] f c = false := by
  rw [timesOut]
  cases owner[f]? <;> simp

theorem timesOut_cons_ne {id₀ : MessageSequence} {f₀ f : ℕ} (h : f₀ ≠ f) (c : FutureState α) :
    timesOut owner at_ ((id₀,⟨some f₀⟩)::es) f c = timesOut owner at_ es f c := by
  rw [timesOut, timesOut]
  cases owner[f]? <;> simp [Ne.symm h]

/-- Each promise has a ready future of its own, under the id it was made with. -/
def Owned (owner : List MessageSequence) (es : List (MessageSequence × Promise))
    (futures : List (FutureState α)) : Prop :=
  ∀ e ∈ es, ∃ f c, e.2 = ⟨some f⟩ ∧ owner[f]? = some e.1 ∧ futures[f]? = some c ∧ c.ready = true

/-- The future of the promise does not time out when it is looked at. -/
def Outlives (at_ : MessageSequence → ℕ) (futures : List (FutureState α))
    (e : MessageSequence × Promise) : Prop :=
  ∀ f c, e.2 = ⟨some f⟩ → futures[f]? = some c → c.tooLate.isExpired (at_ e.1) = false

theorem outlives_iff {e : MessageSequence × Promise} {f : ℕ} {c : FutureState α}
    (hp : e.2 = ⟨some f⟩) (hf : futures[f]? = some c) :
    Outlives at_ futures e ↔ c.tooLate.isExpired (at_ e.1) = false := by
  constructor
  · intro h
    exact h f c hp hf
  · intro h f' c' hp' hf'
    obtain rfl : f = f' := by simpa using hp.symm.trans hp'
    obtain rfl := Option.some.inj (hf.symm.trans hf')
    exact h

section First

variable {id₀ : MessageSequence} {f₀ : ℕ} {c₀ : FutureState α}

theorem updateIn_expired (hf : futures[f₀]? = some c₀) (hr : c₀.ready = true)
    (hx : c₀.tooLate.isExpired (at_ id₀) = true) :
    updateIn at_ ((id₀,⟨some f₀⟩)::es) futures =
      updateIn at_ es (futures.modify f₀ (FutureState.report .timeout)) := by
  simp only [updateIn, shouldBeRemoved_ready hf hr, if_pos hx, if_true]

theorem updateIn_kept (hf : futures[f₀]? = some c₀) (hr : c₀.ready = true)
    (hx : c₀.tooLate.isExpired (at_ id₀) = false) :
    updateIn at_ ((id₀,⟨some f₀⟩)::es) futures =
      ((id₀,⟨some f₀⟩)::(updateIn at_ es futures).1,(updateIn at_ es futures).2) := by
  simp only [updateIn, shouldBeRemoved_ready hf hr, hx, Bool.false_eq_true, if_false]

/-- The promises behind the first one have other futures. -/
theorem Owned.rest (he : Owned owner ((id₀,⟨some f₀⟩)::es) futures)
    (hs : ((id₀,⟨some f₀⟩)::es : List (MessageSequence × Promise)).Pairwise
      (fun a b => a.1 < b.1)) :
    ∀ e ∈ es, ∃ f c, f₀ ≠ f ∧ e.2 = ⟨some f⟩ ∧ owner[f]? = some e.1 ∧ futures[f]? = some c ∧
      c.ready = true := by
  intro e hmem
  obtain ⟨f,c,hp,ho,hf,hr⟩ := he e (List.mem_cons_of_mem _ hmem)
  refine ⟨f,c,?_,hp,ho,hf,hr⟩
  rintro rfl
  obtain ⟨f',-,hp',ho',-⟩ := he _ List.mem_cons_self
  obtain rfl : f₀ = f' := by simpa using hp'
  exact (List.rel_of_pairwise_cons hs hmem).ne (Option.some.inj (ho'.symm.trans ho))

theorem Owned.expire (he : Owned owner ((id₀,⟨some f₀⟩)::es) futures)
    (hs : ((id₀,⟨some f₀⟩)::es : List (MessageSequence × Promise)).Pairwise
      (fun a b => a.1 < b.1)) :
    Owned owner es (futures.modify f₀ (FutureState.report .timeout)) := by
  intro e hmem
  obtain ⟨f,c,hne,hp,ho,hf,hr⟩ := he.rest hs e hmem
  exact ⟨f,c,hp,ho,by simp [hne, hf],hr⟩

end First

variable (at_) in
theorem mem_updateIn (hs : es.Pairwise (fun a b => a.1 < b.1)) (he₀ : Owned owner es futures)
    (e : MessageSequence × Promise) :
    e ∈ (updateIn at_ es futures).1 ↔ e ∈ es ∧ Outlives at_ futures e := by
  induction es generalizing futures with
  | nil => simp [updateIn]
  | cons e₀ es ih =>
    have hs' := hs.of_cons
    obtain ⟨f₀,c₀,hp,ho,hf,hr⟩ := he₀ e₀ List.mem_cons_self
    obtain ⟨id₀,p₀⟩ := e₀
    obtain rfl := hp
    cases hx : c₀.tooLate.isExpired (at_ id₀) with
    | true =>
      have hsame (he : e ∈ es) : Outlives at_ (futures.modify f₀ (FutureState.report .timeout)) e ↔
          Outlives at_ futures e := by
        obtain ⟨f,c,hne,hp,-,hf,-⟩ := he₀.rest hs e he
        have hf' : (futures.modify f₀ (FutureState.report .timeout))[f]? = some c := by
          simp [hne, hf]
        rw [outlives_iff hp hf, outlives_iff hp hf']
      rw [updateIn_expired hf hr hx, ih hs' (he₀.expire hs)]
      constructor
      · rintro ⟨he,h⟩
        exact ⟨List.mem_cons_of_mem _ he,(hsame he).mp h⟩
      · rintro ⟨he,h⟩
        rcases List.mem_cons.mp he with rfl | he
        · rw [outlives_iff rfl hf, hx] at h
          cases h
        · exact ⟨he,(hsame he).mpr h⟩
    | false =>
      rw [updateIn_kept hf hr hx, List.mem_cons, List.mem_cons,
        ih hs' (fun e he => he₀ e (List.mem_cons_of_mem _ he))]
      constructor
      · rintro (rfl | ⟨he,h⟩)
        · exact ⟨Or.inl rfl,(outlives_iff rfl hf).mpr hx⟩
        · exact ⟨Or.inr he,h⟩
      · rintro ⟨rfl | he,h⟩
        · exact Or.inl rfl
        · exact Or.inr ⟨he,h⟩

variable (at_) in
theorem getElem?_updateIn (hs : es.Pairwise (fun a b => a.1 < b.1))
    (he₀ : Owned owner es futures) (f : ℕ) :
    (updateIn at_ es futures).2[f]? = (futures[f]?).map
      (fun c => if timesOut owner at_ es f c then c.report .timeout else c) := by
  induction es generalizing futures with
  | nil => simp [updateIn, timesOut_nil]
  | cons e₀ es ih =>
    have hs' := hs.of_cons
    obtain ⟨f₀,c₀,hp,ho,hf,hr⟩ := he₀ e₀ List.mem_cons_self
    obtain ⟨id₀,p₀⟩ := e₀
    obtain rfl := hp
    have hnot : (id₀,(⟨some f₀⟩ : Promise)) ∉ es :=
      fun h => lt_irrefl _ (List.rel_of_pairwise_cons hs h)
    cases hx : c₀.tooLate.isExpired (at_ id₀) with
    | true =>
      rw [updateIn_expired hf hr hx, ih hs' (he₀.expire hs)]
      by_cases hff : f₀ = f
      · subst hff
        simp [hf, timesOut, ho, hnot, hx]
      · simp [hff, timesOut_cons_ne hff]
    | false =>
      rw [updateIn_kept hf hr hx, ih hs' (fun e he => he₀ e (List.mem_cons_of_mem _ he))]
      by_cases hff : f₀ = f
      · subst hff
        simp [hf, timesOut, ho, hnot, hx]
      · simp only [timesOut_cons_ne hff]

end Update

structure Inv (s : PendingPromises α) : Prop where
  lengths : s.ids.length = s.futures.length
  entry : ∀ e ∈ s.promises.entries, ∃ f, e.2 = ⟨some f⟩ ∧ s.ids[f]? = some e.1 ∧
    f < s.futures.length
  once : s.OnceReported

/-- What a step reports for each future, everything else unchanged. -/
structure Changes (s s' : PendingPromises α) (out : ℕ → Option (FutureReport α)) : Prop where
  ids : s'.ids = s.ids
  idSeq : s'.idSeq = s.idSeq
  length : s'.futures.length = s.futures.length
  futures : ∀ f (c : FutureState α), s.futures[f]? = some c →
    s'.futures[f]? = some (c.hear (out f))
  find : ∀ id f, s'.promises.find? id = some ⟨some f⟩ ↔
    s.promises.find? id = some ⟨some f⟩ ∧ out f = none
  entries : ∀ e ∈ s'.promises.entries, e ∈ s.promises.entries
  only : ∀ f, out f ≠ none → ∃ id, s.Pending f id

section Changes

variable {s s' s'' : PendingPromises α} {out out' : ℕ → Option (FutureReport α)}

theorem Pending.unique {f : ℕ} {id id' : MessageSequence} (h : s.Pending f id)
    (h' : s.Pending f id') : id = id' :=
  Option.some.inj (h.1.symm.trans h'.1)

theorem Pending.lt {f : ℕ} {id : MessageSequence} (hi : s.Inv) (h : s.Pending f id) :
    f < s.futures.length := by
  rw [← hi.lengths]
  exact (List.getElem?_eq_some_iff.mp h.1).1

theorem Changes.pending (h : Changes s s' out) (f : ℕ) (id : MessageSequence) :
    s'.Pending f id ↔ s.Pending f id ∧ out f = none := by
  rw [Pending, Pending, h.ids, h.find, and_assoc]

theorem Changes.out_none (h : Changes s s' out) (hi : s.Inv) {f : ℕ}
    (hf : s.futures.length ≤ f) : out f = none := by
  by_contra ho
  obtain ⟨id,hp⟩ := h.only f ho
  exact absurd (hp.lt hi) (not_lt.mpr hf)

theorem Changes.reported (h : Changes s s' out) (hi : s.Inv) (f : ℕ) :
    s'.reported f = s.reported f++(out f).toList := by
  rw [PendingPromises.reported, PendingPromises.reported]
  cases hf : s.futures[f]? with
  | some c => simp [h.futures f c hf]
  | none =>
    have hlen : s.futures.length ≤ f := List.getElem?_eq_none_iff.mp hf
    rw [h.out_none hi hlen, List.getElem?_eq_none_iff.mpr (h.length ▸ hlen)]
    rfl

theorem Changes.expired (h : Changes s s' out) (f now : ℕ) :
    s'.expired f now = s.expired f now := by
  rw [PendingPromises.expired, PendingPromises.expired]
  cases hf : s.futures[f]? with
  | some c => simp [h.futures f c hf]
  | none =>
    have hlen : s.futures.length ≤ f := List.getElem?_eq_none_iff.mp hf
    rw [List.getElem?_eq_none_iff.mpr (h.length ▸ hlen)]

/-- Reports go to pending futures only, so each future hears one at most. -/
theorem Changes.inv (h : Changes s s' out) (hi : s.Inv) : s'.Inv := by
  refine ⟨by rw [h.ids, h.length, hi.lengths],fun e he => ?_,fun f hf => ?_⟩
  · rw [h.ids, h.length]
    exact hi.entry e (h.entries e he)
  · rw [h.length] at hf
    rw [h.reported hi]
    simp only [h.pending]
    rcases hi.once f hf with ⟨⟨id,hp⟩,hr⟩ | ⟨hn,o,ho⟩
    · cases hout : out f with
      | none => exact Or.inl ⟨⟨id,hp,rfl⟩,by simp [hr]⟩
      | some o => exact Or.inr ⟨fun id' hp' => (nomatch hp'.2),o,by simp [hr]⟩
    · have hnone : out f = none := by
        by_contra hout
        obtain ⟨id,hp⟩ := h.only f hout
        exact hn id hp
      exact Or.inr ⟨fun id hp => hn id hp.1,o,by simp [ho, hnone]⟩

theorem Changes.trans (h : Changes s s' out) (h' : Changes s' s'' out') :
    Changes s s'' (fun f => (out f).or (out' f)) where
  ids := h'.ids.trans h.ids
  idSeq := h'.idSeq.trans h.idSeq
  length := h'.length.trans h.length
  futures f c hf := by
    rw [h'.futures f _ (h.futures f c hf)]
    cases ho : out f with
    | none => rfl
    | some o =>
      have hnone : out' f = none := by
        by_contra hout
        obtain ⟨id,hp⟩ := h'.only f hout
        rw [h.pending, ho] at hp
        cases hp.2
      rw [hnone]
      rfl
  find id f := by
    rw [h'.find, h.find, and_assoc, Option.or_eq_none_iff]
  entries e he := h.entries e (h'.entries e he)
  only f hout := by
    by_cases ho : out f = none
    · rw [ho, Option.none_or] at hout
      obtain ⟨id,hp⟩ := h'.only f hout
      exact ⟨id,((h.pending f id).mp hp).1⟩
    · exact h.only f ho

end Changes

/-- What a look at the promises reports for a future: the time is the one its
promise is looked at, the value the one a reply brings for it. -/
def outcome (s : PendingPromises α) (time : MessageSequence → Option ℕ)
    (value : MessageSequence → Option α) (f : ℕ) : Option (FutureReport α) :=
  match s.ids[f]? with
  | some id =>
    if s.promises.find? id = some ⟨some f⟩ then
      match time id with
      | some t => if s.expired f t then some .timeout else (value id).map .success
      | none => none
    else none
  | none => none

section Outcome

variable {s : PendingPromises α} {time : MessageSequence → Option ℕ}
  {value : MessageSequence → Option α} {f : ℕ} {id : MessageSequence}

theorem outcome_pending (h : s.Pending f id) : s.outcome time value f =
    match time id with
    | some t => if s.expired f t then some .timeout else (value id).map .success
    | none => none := by
  simp [outcome, h.1, h.2]

theorem outcome_not_pending (h : ∀ id, ¬ s.Pending f id) : s.outcome time value f = none := by
  rw [outcome]
  cases hid : s.ids[f]? with
  | none => rfl
  | some id => exact if_neg (fun hp => h id ⟨hid,hp⟩)

theorem outcome_only (h : s.outcome time value f ≠ none) : ∃ id, s.Pending f id := by
  by_contra hn
  exact h (outcome_not_pending (not_exists.mp hn))

/-- A look at one pending promise settles its future and no other. -/
theorem outcome_one (h : s.Pending f id) (value : α) (now f' : ℕ) :
    s.outcome (fun id' => if id = id' then some now else none)
      (fun id' => if id = id' then some value else none) f' =
        if f' = f then some (if s.expired f now then .timeout else .success value) else none := by
  by_cases hne : f' = f
  · subst hne
    simp only [outcome_pending h, if_true, Option.map_some]
    split_ifs <;> rfl
  · rw [if_neg hne]
    by_contra ho
    obtain ⟨id',hp⟩ := outcome_only ho
    rw [outcome_pending hp] at ho
    by_cases heq : id = id'
    · subst heq
      exact hne (by simpa using hp.2.symm.trans h.2)
    · simp [heq] at ho

end Outcome

section Looks

variable {s : PendingPromises α}

theorem AllReady.owned (hi : s.Inv) (h : s.AllReady) :
    Owned s.ids s.promises.entries s.futures := by
  intro e he
  obtain ⟨f,hp,hid,hlt⟩ := hi.entry e he
  have hr := List.all_eq_true.mp h e he
  have hf := List.getElem?_eq_getElem hlt
  simp only [promiseReady, hp, hf, Option.map_some, Option.getD_some] at hr
  exact ⟨f,_,hp,hid,hf,hr⟩

theorem Inv.pending_of_mem (hi : s.Inv) {e : MessageSequence × Promise}
    (he : e ∈ s.promises.entries) : ∃ f, e.2 = ⟨some f⟩ ∧ s.Pending f e.1 := by
  obtain ⟨f,hp,hid,-⟩ := hi.entry e he
  exact ⟨f,hp,hid,OrderedMap.find?_eq_some.mpr (hp ▸ he)⟩

theorem expired_eq {f now : ℕ} {c : FutureState α} (hf : s.futures[f]? = some c) :
    s.expired f now = c.tooLate.isExpired now := by
  simp [expired, hf]

theorem update_changes (hi : s.Inv) (hr : s.AllReady) (at_ : MessageSequence → ℕ) :
    Changes s (s.update at_).2 (s.outcome (fun id => some (at_ id)) (fun _ => none)) := by
  have hown := hr.owned hi
  have hkept (e) := mem_updateIn at_ s.promises.sorted hown e
  have hfut (f) := getElem?_updateIn at_ s.promises.sorted hown f
  have hget (f : ℕ) (c : FutureState α) (hf : s.futures[f]? = some c) :
      (s.update at_).2.futures[f]? =
        some (c.hear (s.outcome (fun id => some (at_ id)) (fun _ => none) f)) := by
    show (updateIn at_ s.promises.entries s.futures).2[f]? = _
    rw [hfut, hf, Option.map_some, timesOut, outcome]
    cases s.ids[f]? with
    | none => rfl
    | some id =>
      simp only [← OrderedMap.find?_eq_some, expired_eq hf, Option.map_none]
      by_cases hp : s.promises.find? id = some ⟨some f⟩
      · by_cases hx : c.tooLate.isExpired (at_ id) = true
        · simp [hp, hx, FutureState.hear]
        · simp [hp, hx, FutureState.hear]
      · simp [hp, FutureState.hear]
  refine ⟨rfl,rfl,?_,hget,fun id f => ?_,fun e he => ((hkept e).mp he).1,
    fun f => outcome_only⟩
  · apply le_antisymm
    · by_contra hlt
      have hnone := hfut s.futures.length
      rw [List.getElem?_eq_none_iff.mpr le_rfl, Option.map_none] at hnone
      exact hlt (List.getElem?_eq_none_iff.mp hnone)
    · by_contra hlt
      have hlt := not_le.mp hlt
      have := hget _ _ (List.getElem?_eq_getElem hlt)
      exact absurd (List.getElem?_eq_some_iff.mp this).1 (lt_irrefl _)
  · rw [OrderedMap.find?_eq_some, OrderedMap.find?_eq_some]
    show (id,(⟨some f⟩ : Promise)) ∈ (updateIn at_ s.promises.entries s.futures).1 ↔ _
    rw [hkept]
    apply and_congr_right
    intro he
    obtain ⟨f',c,hp,hid,hf,-⟩ := hown _ he
    obtain rfl : f = f' := by simpa using hp
    have hpend : s.Pending f id := ⟨hid,OrderedMap.find?_eq_some.mpr he⟩
    rw [outcome_pending hpend, outlives_iff rfl hf]
    simp only [expired_eq hf, Option.map_none]
    cases c.tooLate.isExpired (at_ id) <;> simp

theorem Changes.congr {s' : PendingPromises α} {out out' : ℕ → Option (FutureReport α)}
    (h : Changes s s' out) (ho : ∀ f, out f = out' f) : Changes s s' out' :=
  funext ho ▸ h

theorem Changes.refl (s : PendingPromises α) : Changes s s (fun _ => none) :=
  ⟨rfl,rfl,rfl,fun _ _ h => h,fun _ _ => by simp,fun _ h => h,fun _ h => absurd rfl h⟩

theorem Changes.allReady {s' : PendingPromises α} {out : ℕ → Option (FutureReport α)}
    (h : Changes s s' out) (hi : s.Inv) (hr : s.AllReady) : s'.AllReady := by
  apply List.all_eq_true.mpr
  intro e he
  have he' := h.entries e he
  obtain ⟨f,c,hp,-,hf,hready⟩ := hr.owned hi e he'
  simp [promiseReady, hp, h.futures f c hf, hready]

/-- The reply settles the promise with its id and no other. -/
theorem answer_changes (hi : s.Inv) (hr : s.AllReady) {id : MessageSequence} {found : Promise}
    (hfound : s.promises.find? id = some found) (value : α) (now : ℕ) :
    Changes s
      { s with
        promises := s.promises.erase id
        futures := (found.fulfill now value s.futures).2 }
      (s.outcome (fun id' => if id = id' then some now else none)
        (fun id' => if id = id' then some value else none)) := by
  obtain ⟨f,c,hp,hid,hf,hready⟩ := hr.owned hi _ (OrderedMap.find?_eq_some.mp hfound)
  obtain rfl : found = ⟨some f⟩ := hp
  have hpend : s.Pending f id := ⟨hid,hfound⟩
  have hful := fulfill_ready now hf hready value
  refine ⟨rfl,rfl,by simp [hful],fun f' c' hf' => ?_,fun id' f' => ?_,fun e he => ?_,
    fun f => outcome_only⟩
  · rw [outcome_one hpend, expired_eq hf]
    simp only [hful]
    by_cases hne : f' = f
    · subst hne
      obtain rfl := Option.some.inj (hf.symm.trans hf')
      simp [hf, FutureState.hear]
    · simp [Ne.symm hne, hne, hf', FutureState.hear]
  · rw [OrderedMap.find?_erase, outcome_one hpend]
    by_cases heq : id' = id
    · subst heq
      rw [if_pos rfl, hfound]
      constructor
      · exact fun h => nomatch h
      · rintro ⟨h,ho⟩
        obtain rfl : f = f' := by simpa using h
        cases (if_pos rfl).symm.trans ho
    · rw [if_neg heq]
      constructor
      · intro h
        obtain ⟨f'',hp',hpend'⟩ := hi.pending_of_mem (OrderedMap.find?_eq_some.mp h)
        obtain rfl : f' = f'' := by simpa using hp'
        refine ⟨h,if_neg ?_⟩
        rintro rfl
        exact heq (hpend'.unique hpend)
      · exact fun h => h.1
  · exact (List.mem_filter.mp he).1

theorem fulfill_changes (hi : s.Inv) (hr : s.AllReady) (id : MessageSequence) (value : α)
    (now : ℕ) (at_ : MessageSequence → ℕ) :
    Changes s (s.fulfill id value now at_)
      (s.outcome (fun id' => some (if id = id' then now else at_ id'))
        (fun id' => if id = id' then some value else none)) := by
  rw [fulfill]
  cases hfound : s.promises.find? id with
  | none =>
    apply (update_changes hi hr at_).congr
    intro f
    by_cases hp : ∃ id', s.Pending f id'
    · obtain ⟨id',hp⟩ := hp
      have hne : id ≠ id' := by
        rintro rfl
        exact nomatch hfound.symm.trans hp.2
      simp [outcome_pending hp, hne]
    · rw [outcome_not_pending (not_exists.mp hp), outcome_not_pending (not_exists.mp hp)]
  | some found =>
    have h₁ := answer_changes hi hr hfound value now
    have h₂ := update_changes (h₁.inv hi) (h₁.allReady hi hr) at_
    apply (h₁.trans h₂).congr
    intro f
    by_cases hp : ∃ id', s.Pending f id'
    · obtain ⟨id',hp⟩ := hp
      by_cases heq : id = id'
      · simp only [outcome_pending hp, if_pos heq]
        split_ifs <;> rfl
      · have hnone : s.outcome (fun id' => if id = id' then some now else none)
            (fun id' => if id = id' then some value else none) f = none := by
          simp [outcome_pending hp, heq]
        rw [hnone, Option.none_or, outcome_pending ((h₁.pending f id').mpr ⟨hp,hnone⟩),
          outcome_pending hp]
        simp [heq, h₁.expired]
    · have hn := not_exists.mp hp
      rw [outcome_not_pending hn, outcome_not_pending hn,
        outcome_not_pending (fun id' h => hn id' ((h₁.pending f id').mp h).1)]
      rfl

end Looks

section Steps

variable {reader : ResultReader α} {s : PendingPromises α} {e : PromiseEvent α}

theorem Inv.reported_pending (hi : s.Inv) {f : ℕ} {id : MessageSequence} (hp : s.Pending f id) :
    s.reported f = [] := by
  rcases hi.once f (hp.lt hi) with ⟨-,h⟩ | ⟨h,-⟩
  · exact h
  · exact absurd hp (h id)

/-- A look at the promises settles what it has to and leaves the rest. -/
theorem settles_of_changes (hi : s.Inv)
    (h : Changes s (s.step reader e) (s.outcome (e.checkedAt reader) (e.valueFor reader))) :
    s.Settles reader e := by
  refine ⟨fun f id t hp ht hx => ?_,fun f value ha => ?_,fun f id hp hx hv => ?_,fun f hr => ?_⟩
  · rw [h.reported hi, hi.reported_pending hp, outcome_pending hp]
    simp [ht, hx]
  · obtain ⟨id,t,hp,hv,ht,hx⟩ := ha
    rw [h.reported hi, hi.reported_pending hp, outcome_pending hp]
    simp [ht, hx, hv]
  · have hnone : s.outcome (e.checkedAt reader) (e.valueFor reader) f = none := by
      rw [outcome_pending hp]
      cases ht : e.checkedAt reader id with
      | none => rfl
      | some t => simp [hx t ht, hv]
    exact ⟨(h.pending f id).mpr ⟨hp,hnone⟩,by
      rw [h.reported hi, hi.reported_pending hp, hnone]
      rfl⟩
  · have hnone : s.outcome (e.checkedAt reader) (e.valueFor reader) f = none :=
      outcome_not_pending (fun id hp => hr (hi.reported_pending hp))
    rw [h.reported hi, hnone]
    exact List.append_nil _

theorem success_of_changes (hi : s.Inv)
    (h : Changes s (s.step reader e) (s.outcome (e.checkedAt reader) (e.valueFor reader)))
    {f : ℕ} {value : α} (hs : .success value ∈ (s.step reader e).reported f) :
    .success value ∈ s.reported f ∨ AnsweredInTime reader f value s e := by
  rw [h.reported hi] at hs
  rcases List.mem_append.mp hs with hs | hs
  · exact Or.inl hs
  · have ho := Option.mem_toList.mp hs
    obtain ⟨id,hp⟩ := outcome_only (Option.ne_none_iff_exists'.mpr ⟨_,ho⟩)
    rw [outcome_pending hp] at ho
    cases ht : e.checkedAt reader id with
    | none => simp [ht] at ho
    | some t =>
      cases hx : s.expired f t with
      | true => simp [ht, hx] at ho
      | false =>
        simp only [ht, hx, Bool.false_eq_true, if_false, Option.map_eq_some_iff] at ho
        obtain ⟨v,hv,hvv⟩ := ho
        cases hvv
        exact Or.inr ⟨id,t,hp,hv,ht,hx⟩

/-- A step that only sets something in one future. -/
theorem modifyFuture_quiet {f : ℕ} {change : FutureState α → FutureState α}
    (hc : ∀ c, (change c).reported = c.reported) (g : ℕ) :
    (s.modifyFuture f change).reported g = s.reported g := by
  rw [reported, reported]
  simp only [modifyFuture, List.getElem?_modify]
  cases s.futures[g]? with
  | none => rfl
  | some c =>
    by_cases h : f = g
    · simp [h, hc]
    · simp [h]

theorem make_reported {duration now f : ℕ} (hf : f ≤ s.futures.length) :
    (s.make duration now).reported f = if f < s.futures.length then s.reported f else [] := by
  rw [reported, reported]
  split_ifs with hlt
  · simp [make, List.getElem?_append_left hlt]
  · obtain rfl : f = s.futures.length := by omega
    simp [make]

theorem make_pending (hi : s.Inv) (hnew : s.promises.contains s.nextId = false)
    {duration now f : ℕ} {id : MessageSequence} :
    (s.make duration now).Pending f id ↔
      s.Pending f id ∨ f = s.futures.length ∧ id = s.nextId := by
  have hfind : s.promises.find? s.nextId = none := by
    simpa [OrderedMap.contains] using hnew
  have hids (g : ℕ) (h : g < s.futures.length) :
      (s.make duration now).ids[g]? = s.ids[g]? :=
    List.getElem?_append_left (by rwa [hi.lengths])
  have hput (id : MessageSequence) : (s.make duration now).promises.find? id =
      if s.nextId = id then some ⟨some s.futures.length⟩ else s.promises.find? id :=
    OrderedMap.find?_assign _ _ _ _
  constructor
  · rintro ⟨-,hp⟩
    rw [hput] at hp
    split_ifs at hp with hid
    · exact Or.inr ⟨by simpa using hp.symm,hid.symm⟩
    · obtain ⟨g,hg,hp'⟩ := hi.pending_of_mem (OrderedMap.find?_eq_some.mp hp)
      obtain rfl : f = g := by simpa using hg
      exact Or.inl hp'
  · rintro (hp | ⟨rfl,rfl⟩)
    · refine ⟨by rw [hids f (hp.lt hi), hp.1],?_⟩
      rw [hput, if_neg, hp.2]
      rintro rfl
      exact nomatch hfind.symm.trans hp.2
    · exact ⟨by simp [make, ← hi.lengths],by rw [hput, if_pos rfl]⟩

theorem make_inv (hi : s.Inv) (hnew : s.promises.contains s.nextId = false)
    (duration now : ℕ) : (s.make duration now).Inv := by
  have hlen : (s.make duration now).futures.length = s.futures.length+1 := by simp [make]
  refine ⟨by simp [make, hi.lengths],fun e he => ?_,fun f hf => ?_⟩
  · rw [hlen]
    rcases OrderedMap.mem_assignIn he with rfl | he
    · exact ⟨_,rfl,by simp [make, ← hi.lengths],Nat.lt_succ_self _⟩
    · obtain ⟨f,hp,hid,hf⟩ := hi.entry e he
      refine ⟨f,hp,?_,Nat.lt_succ_of_lt hf⟩
      rw [← hid]
      exact List.getElem?_append_left (by rwa [hi.lengths])
  · rw [hlen] at hf
    simp only [make_pending hi hnew, make_reported (Nat.le_of_lt_succ hf)]
    by_cases hlt : f < s.futures.length
    · have hne : f ≠ s.futures.length := Nat.ne_of_lt hlt
      simpa [hlt, hne] using hi.once f hlt
    · have heq : f = s.futures.length := by omega
      exact Or.inl ⟨⟨s.nextId,Or.inr ⟨heq,rfl⟩⟩,if_neg hlt⟩

theorem modifyFuture_inv (hi : s.Inv) {f : ℕ} {change : FutureState α → FutureState α}
    (hc : ∀ c, (change c).reported = c.reported) : (s.modifyFuture f change).Inv := by
  have hlen : (s.modifyFuture f change).futures.length = s.futures.length := by
    simp [modifyFuture]
  refine ⟨by rw [hlen]; exact hi.lengths,fun e he => ?_,fun g hg => ?_⟩
  · rw [hlen]
    exact hi.entry e he
  · rw [hlen] at hg
    rw [modifyFuture_quiet hc]
    exact hi.once g hg

theorem look_changes (hi : s.Inv) (hr : s.AllReady) (hl : e.looks = true) :
    Changes s (s.step reader e) (s.outcome (e.checkedAt reader) (e.valueFor reader)) := by
  cases e with
  | fulfill id value now at_ => exact fulfill_changes hi hr id value now at_
  | update at_ => exact update_changes hi hr at_
  | fulfillBy message now at_ =>
    simp only [step, fulfillBy]
    cases hres : reader.result message with
    | some result =>
      apply (fulfill_changes hi hr message.sequenceNo result now at_).congr
      intro f
      congr 1
      · funext id
        simp [PromiseEvent.checkedAt, hres]
      · funext id
        simp [PromiseEvent.valueFor, PromiseEvent.reply, hres]
    | none =>
      apply (Changes.refl s).congr
      intro f
      by_cases hp : ∃ id, s.Pending f id
      · obtain ⟨id,hp⟩ := hp
        simp [outcome_pending hp, PromiseEvent.checkedAt, hres]
      · exact (outcome_not_pending (not_exists.mp hp)).symm
  | _ => cases hl

/-- A step that looks at no promise and reports nothing. -/
theorem settles_of_quiet (hi : s.Inv) (hlook : ∀ id, e.checkedAt reader id = none)
    (hq : ∀ f, s.reported f ≠ [] ∨ (∃ id, s.Pending f id) →
      (s.step reader e).reported f = s.reported f)
    (hp : ∀ f id, s.Pending f id → (s.step reader e).Pending f id) : s.Settles reader e := by
  refine ⟨fun f id t _ ht _ => ?_,fun f value ha => ?_,fun f id h _ _ => ?_,
    fun f hr => hq f (Or.inl hr)⟩
  · rw [hlook id] at ht
    cases ht
  · obtain ⟨id,t,-,-,ht,-⟩ := ha
    rw [hlook id] at ht
    cases ht
  · exact ⟨hp f id h,(hq f (Or.inr ⟨id,h⟩)).trans (hi.reported_pending h)⟩

theorem reported_lt {f : ℕ} (h : s.reported f ≠ []) : f < s.futures.length := by
  by_contra hlt
  rw [reported, List.getElem?_eq_none_iff.mpr (not_lt.mp hlt)] at h
  exact h rfl

theorem make_kept {f duration now : ℕ} (hi : s.Inv)
    (h : s.reported f ≠ [] ∨ ∃ id, s.Pending f id) :
    (s.make duration now).reported f = s.reported f := by
  have hlt : f < s.futures.length := by
    rcases h with h | ⟨id,hp⟩
    · exact reported_lt h
    · exact hp.lt hi
  rw [make_reported hlt.le, if_pos hlt]

/-- What a step can be: a look at the promises, a new promise, or something set
in the state of one future. -/
theorem step_cases (hi : s.Inv) (hr : s.Ready e) :
    Changes s (s.step reader e) (s.outcome (e.checkedAt reader) (e.valueFor reader)) ∨
    (∃ duration now, e = .make duration now ∧ s.promises.contains s.nextId = false) ∨
    ∃ f change, (∀ c : FutureState α, (change c).reported = c.reported) ∧
      s.step reader e = s.modifyFuture f change ∧ ∀ id, e.checkedAt reader id = none := by
  cases e with
  | fulfill | fulfillBy | update => exact Or.inl (look_changes hi hr rfl)
  | make duration now => exact Or.inr (Or.inl ⟨duration,now,rfl,hr⟩)
  | setTimeout | onSuccess | onTimeout | release =>
    exact Or.inr (Or.inr ⟨_,_,by intro c; rfl,rfl,fun _ => rfl⟩)

theorem step_settles (hi : s.Inv) (hr : s.Ready e) : s.Settles reader e := by
  rcases step_cases hi hr with h | ⟨duration,now,rfl,hnew⟩ | ⟨f,change,hc,hs,hlook⟩
  · exact settles_of_changes hi h
  · exact settles_of_quiet hi (fun _ => rfl) (fun f => make_kept hi)
      (fun f id hp => (make_pending hi hnew).mpr (Or.inl hp))
  · apply settles_of_quiet hi hlook
    · intro g _
      rw [hs, modifyFuture_quiet hc]
    · intro g id hp
      rw [hs]
      exact hp

theorem step_inv (hi : s.Inv) (hr : s.Ready e) : (s.step reader e).Inv := by
  rcases step_cases hi hr with h | ⟨duration,now,rfl,hnew⟩ | ⟨f,change,hc,hs,-⟩
  · exact h.inv hi
  · exact make_inv hi hnew duration now
  · rw [hs]
    exact modifyFuture_inv hi hc

theorem step_success (hi : s.Inv) (hr : s.Ready e) {f : ℕ} {value : α}
    (hv : .success value ∈ (s.step reader e).reported f) :
    .success value ∈ s.reported f ∨ AnsweredInTime reader f value s e := by
  rcases step_cases hi hr with h | ⟨duration,now,rfl,-⟩ | ⟨g,change,hc,hs,-⟩
  · exact success_of_changes hi h hv
  · have hlt := reported_lt (List.ne_nil_of_mem hv)
    simp only [step, make, List.length_append, List.length_singleton] at hlt
    rw [step, make_reported (Nat.le_of_lt_succ hlt)] at hv
    split_ifs at hv
    · exact Or.inl hv
    · cases hv
  · rw [hs, modifyFuture_quiet hc] at hv
    exact Or.inl hv

end Steps

theorem start_inv : ({} : PendingPromises α).Inv := by
  refine ⟨rfl,fun e he => ?_,fun f hf => ?_⟩
  · cases he
  · cases hf

theorem run_success {es : List (PromiseEvent α)} (hok : StepRun.Steps (step reader) Ready {} es)
    {f : ℕ} {value : α} (hs : .success value ∈ (StepRun.run (step reader) {} es).reported f) :
    StepRun.Sometime (step reader) (AnsweredInTime reader f value) {} es := by
  induction es using List.reverseRecOn with
  | nil => cases hs
  | append_singleton es e ih =>
    obtain ⟨hok,hr⟩ := StepRun.steps_snoc.mp hok
    have hi := StepRun.run_invariant (fun s e hi hr => step_inv hi hr) start_inv hok
    rw [StepRun.run_append] at hs
    rcases step_success hi hr hs with hs | hs
    · exact StepRun.sometime_snoc.mpr (Or.inl (ih hok hs))
    · exact StepRun.sometime_snoc.mpr (Or.inr hs)

/-- Each future is pending or has one report, a success is the value of a reply
in time, and each step settles the promises it has to and no others. -/
theorem promises_settled (es : List (PromiseEvent α))
    (hok : StepRun.Steps (step reader) Ready {} es) :
    StepRun.Always (step reader) OnceReported {} es ∧
    (∀ f value, .success value ∈ (StepRun.run (step reader) {} es).reported f →
      StepRun.Sometime (step reader) (AnsweredInTime reader f value) {} es) ∧
    StepRun.Steps (step reader) (Settles reader) {} es := by
  refine ⟨?_,fun f value => run_success reader hok,?_⟩
  · exact StepRun.always_mono (fun s hi => hi.once)
      (StepRun.always_of_invariant (fun s e hi hr => step_inv hi hr) start_inv hok)
  · exact StepRun.steps_of_invariant (fun s e hi hr => step_inv hi hr)
      (fun s e hi hr => step_settles hi hr) start_inv hok

def sampleReader : ResultReader ℕ where
  typeId := 5
  deserialize := fun data => data.head?.map UInt8.toNat
  getDataWithSize := id

/-- Two calls, the second answered in time and once more, the first one never. -/
def sampleCalls : List (PromiseEvent ℕ) := [
  .make 1000 0, .onSuccess 0, .onTimeout 0,
  .make 1000 10, .onSuccess 1, .onTimeout 1,
  .fulfillBy { serializerId := 5, sequenceNo := 2, data := [7] } 500 (fun _ => 500),
  .fulfill 2 9 600 (fun _ => 600),
  .update (fun _ => 1200)]

theorem sampleCalls_settled :
    (StepRun.run (step sampleReader) {} sampleCalls).reported 0 = [.timeout] ∧
    (StepRun.run (step sampleReader) {} sampleCalls).reported 1 = [.success 7] ∧
    StepRun.Always (step sampleReader) OnceReported {} sampleCalls ∧
    StepRun.Sometime (step sampleReader) (AnsweredInTime sampleReader 1 7) {} sampleCalls ∧
    StepRun.Steps (step sampleReader) (Settles sampleReader) {} sampleCalls := by
  have h := promises_settled sampleReader sampleCalls (by decide)
  exact ⟨by decide,by decide,h.1,h.2.1 1 7 (by decide),h.2.2⟩

end PendingPromises

end MsgBus
