import MsgBus.Lib.OrderedMap
import MsgBus.Lib.StepRun
import MsgBus.Types

/-!
# Deferred skeletons

A lazy or an asynchronous skeleton keeps the calls that it has accepted until
it answers them. Both keep them under the number of the request alone, which
the invokers choose independently. A request counts as received if its
arguments can be read.
-/

set_option autoImplicit false

namespace MsgBus

/-- How the arguments of a call are read and its result is written. A
signature without parameters reads nothing. -/
structure SkeletonCodec (α β : Type*) where
  readTypeId : EndpointId
  writeTypeId : EndpointId
  noParameters : Option α := none
  deserialize : Block → Option α
  /-- The result in a buffer of this size. -/
  serialize : β → ℕ → Option Block
  getDataWithSize : Block → Block

structure DeferredCall (χ α β : Type*) where
  responseId : MessageId
  args : α
  func : α → β
  invokerId : EndpointId
  state : χ

/-- What a request asks for. -/
structure Invocation (α β : Type*) where
  invokerId : EndpointId
  sequenceNo : MessageSequence
  responseId : MessageId
  func : α → β
  args : α

variable {χ α β : Type*}

abbrev PendingCalls (χ α β : Type*) := OrderedMap MessageSequence (DeferredCall χ α β)

namespace SkeletonCodec

variable (codec : SkeletonCodec α β)

def readArgs (request : MessageView) : Option α :=
  match codec.noParameters with
  | some args => some args
  | none =>
    if request.serializerId = codec.readTypeId then
      codec.deserialize (request.content codec.getDataWithSize)
    else none

def invocation (request : MessageView) (responseId : MessageId) (func : α → β) :
    Option (Invocation α β) :=
  (codec.readArgs request).map
    (fun args => ⟨request.sourceId,request.sequenceNo,responseId,func,args⟩)

/-- The message that is posted for a call, if its result can be written. -/
def response (invocationId : MessageSequence) (call : DeferredCall χ α β) (result : β)
    (size : ℕ) : Option (MessageId × MessageView) :=
  (codec.serialize result size).map (fun data =>
    (call.responseId,
      { data, serializerId := codec.writeTypeId, targetId := call.invokerId,
        sequenceNo := invocationId }))

/-- `try_emplace` with the number of the request, taken back if the arguments
cannot be read. -/
def enqueue (pending : PendingCalls χ α β) (request : MessageView) (responseId : MessageId)
    (func : α → β) (state : χ) : Bool × PendingCalls χ α β :=
  if pending.contains request.sequenceNo then (false,pending)
  else
    match codec.readArgs request with
    | some args =>
      (true,pending.assign request.sequenceNo ⟨responseId,args,func,request.sourceId,state⟩)
    | none => (false,pending)

end SkeletonCodec

def invocationOf (e : MessageSequence × DeferredCall χ α β) : Invocation α β :=
  ⟨e.2.invokerId,e.1,e.2.responseId,e.2.func,e.2.args⟩

/-! ## Lazy skeletons -/

abbrev LazyCall (α β : Type*) := DeferredCall Timeout α β

structure LazySkeleton (α β : Type*) where
  defaultTimeout : ℕ
  pending : PendingCalls Timeout α β := .empty

namespace LazySkeleton

variable (codec : SkeletonCodec α β)

def enqueue (now : ℕ) (request : MessageView) (responseId : MessageId) (func : α → β)
    (s : LazySkeleton α β) : Bool × LazySkeleton α β :=
  let r := codec.enqueue s.pending request responseId func ⟨now,s.defaultTimeout⟩
  (r.1,{ s with pending := r.2 })

/-- The call is too late when it is looked at. -/
def isLate (at_ : MessageSequence → ℕ) (e : MessageSequence × LazyCall α β) : Bool :=
  e.2.state.isExpired (at_ e.1)

/-- The first call that is not too late, and the calls behind it. -/
def handleIn (at_ : MessageSequence → ℕ) :
    List (MessageSequence × LazyCall α β) →
      Option (MessageSequence × LazyCall α β) × List (MessageSequence × LazyCall α β)
  | [] => (none,[])
  | e::es => if isLate at_ e then handleIn at_ es else (some e,es)

theorem handleIn_split (at_ : MessageSequence → ℕ) (es : List (MessageSequence × LazyCall α β)) :
    es = es.takeWhile (isLate at_) ++ ((handleIn at_ es).1.toList ++ (handleIn at_ es).2) := by
  induction es with
  | nil => rfl
  | cons e es ih =>
    rw [handleIn, List.takeWhile_cons]
    split_ifs
    · rw [List.cons_append, ← ih]
    · rfl

theorem handleIn_sublist (at_ : MessageSequence → ℕ)
    (es : List (MessageSequence × LazyCall α β)) :
    (handleIn at_ es).2.Sublist es := by
  induction es with
  | nil => exact List.Sublist.refl _
  | cons e es ih =>
    rw [handleIn]
    split_ifs
    · exact ih.cons e
    · exact List.sublist_cons_self e es

theorem handleIn_length (at_ : MessageSequence → ℕ) (es : List (MessageSequence × LazyCall α β)) :
    (handleIn at_ es).2.length ≤ es.length-1 := by
  induction es with
  | nil => exact Nat.le_refl _
  | cons e es ih =>
    rw [handleIn]
    split_ifs
    · exact ih.trans (Nat.sub_le _ _)
    · exact Nat.le_refl _

/-- All calls up to the one that is answered are erased. The answer of the
function is whether there was any. -/
def handleOne (at_ : MessageSequence → ℕ) (size : ℕ) (s : LazySkeleton α β) :
    Bool × Option (MessageId × MessageView) × LazySkeleton α β :=
  let r := handleIn at_ s.pending.entries
  (!s.pending.isEmpty,
    r.1.bind (fun e => codec.response e.1 e.2 (e.2.func e.2.args) size),
    { s with pending := ⟨r.2,s.pending.sorted.sublist (handleIn_sublist at_ s.pending.entries)⟩ })

end LazySkeleton

/-! ## Asynchronous skeletons -/

/-- What the workers have made of a call. -/
structure WorkState (β : Type*) where
  result : Option β := none
  finished : Bool := false
  deriving DecidableEq, Repr

abbrev AsyncCall (α β : Type*) := DeferredCall (WorkState β) α β

structure AsyncSkeleton (α β : Type*) where
  pending : PendingCalls (WorkState β) α β := .empty

namespace AsyncSkeleton

variable (codec : SkeletonCodec α β)

def enqueue (request : MessageView) (responseId : MessageId) (func : α → β)
    (s : AsyncSkeleton α β) : Bool × AsyncSkeleton α β :=
  let r := codec.enqueue s.pending request responseId func {}
  (r.1,{ s with pending := r.2 })

def work (id : MessageSequence) (change : AsyncCall α β → WorkState β) (s : AsyncSkeleton α β) :
    AsyncSkeleton α β :=
  { s with
    pending := s.pending.mapValues
      (fun id' call => if id' = id then { call with state := change call } else call) }

/-- A worker calls `do_it`. -/
def doIt (id : MessageSequence) (s : AsyncSkeleton α β) : AsyncSkeleton α β :=
  s.work id (fun call => { call.state with result := some (call.func call.args) })

/-- The workshop calls `deliver`. -/
def deliver (id : MessageSequence) (s : AsyncSkeleton α β) : AsyncSkeleton α β :=
  s.work id (fun call => { call.state with finished := true })

/-- The first finished call, and the other calls. -/
def handleIn : List (MessageSequence × AsyncCall α β) →
    Option (MessageSequence × AsyncCall α β) × List (MessageSequence × AsyncCall α β)
  | [] => (none,[])
  | e::es => if e.2.state.finished then (some e,es) else ((handleIn es).1,e::(handleIn es).2)

theorem handleIn_sublist (es : List (MessageSequence × AsyncCall α β)) :
    (handleIn es).2.Sublist es := by
  induction es with
  | nil => exact List.Sublist.refl _
  | cons e es ih =>
    rw [handleIn]
    split_ifs
    · exact List.sublist_cons_self e es
    · exact ih.cons_cons e

theorem handleIn_perm (es : List (MessageSequence × AsyncCall α β)) :
    es.Perm ((handleIn es).1.toList ++ (handleIn es).2) := by
  induction es with
  | nil => exact List.Perm.refl _
  | cons e es ih =>
    rw [handleIn]
    split_ifs
    · exact List.Perm.refl _
    · exact (ih.cons e).trans List.perm_middle.symm

/-- Among finished calls the first one is taken. -/
theorem handleIn_finished {es : List (MessageSequence × AsyncCall α β)}
    (h : ∀ e ∈ es, e.2.state.finished = true) : (handleIn es).2 = es.tail := by
  cases es with
  | nil => rfl
  | cons e es => rw [handleIn, if_pos (h e (by simp)), List.tail_cons]

theorem handleIn_taken {es : List (MessageSequence × AsyncCall α β)}
    {e : MessageSequence × AsyncCall α β} (h : (handleIn es).1 = some e) :
    e ∈ es ∧ e.2.state.finished = true := by
  induction es with
  | nil => simp [handleIn] at h
  | cons d es ih =>
    rw [handleIn] at h
    split_ifs at h with hfinished
    · obtain rfl := Option.some.inj h
      exact ⟨List.mem_cons_self,hfinished⟩
    · exact (ih h).imp_left (List.mem_cons_of_mem d)

/-- A finished call is answered with the result that its worker left, or with
a blank one. -/
def handleOne (blank : β) (size : ℕ) (s : AsyncSkeleton α β) :
    Bool × Option (MessageId × MessageView) × AsyncSkeleton α β :=
  let r := handleIn s.pending.entries
  (r.1.isSome,
    r.1.bind (fun e => codec.response e.1 e.2 (e.2.state.result.getD blank) size),
    { s with pending := ⟨r.2,s.pending.sorted.sublist (handleIn_sublist s.pending.entries)⟩ })

end AsyncSkeleton

end MsgBus
