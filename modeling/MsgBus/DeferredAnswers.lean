import Mathlib.Data.List.Forall2
import Mathlib.Data.List.TakeWhile
import MsgBus.DeferredSkeletons

/-!
# Answers of deferred skeletons

Beside a skeleton a run keeps the requests it has received, the messages it
has posted and the calls that were too late. While no number is used for two
pending calls and every result can be written, each request is in exactly one
place: answered by one of the messages, pending, or too late.
-/

set_option autoImplicit false

namespace MsgBus.DeferredAnswers

variable {χ α β : Type*} (codec : SkeletonCodec α β)

/-- The message goes to the invoker with the number and the response id of
the request, and holds the function applied to its arguments. -/
def Answers (request : Invocation α β) (posted : MessageId × MessageView) : Prop :=
  ∃ size data, codec.serialize (request.func request.args) size = some data ∧
    posted = (request.responseId,
      { data, serializerId := codec.writeTypeId, targetId := request.invokerId,
        sequenceNo := request.sequenceNo })

/-- Each request is answered by one message, or pending, or too late. -/
def Accounted (requests pending late : List (Invocation α β))
    (posted : List (MessageId × MessageView)) : Prop :=
  ∃ answered, List.Forall₂ (Answers codec) answered posted ∧
    requests.Perm (answered ++ (pending ++ late))

section Accounts

variable {codec} {requests pending pending' late : List (Invocation α β)}
  {posted : List (MessageId × MessageView)}

theorem Accounted.length (h : Accounted codec requests pending late posted) :
    requests.length = posted.length+(pending.length+late.length) := by
  obtain ⟨answered,hposted,hperm⟩ := h
  rw [hperm.length_eq, List.length_append, List.length_append, hposted.length_eq]

theorem Accounted.received (h : Accounted codec requests pending late posted)
    {request : Invocation α β} (hp : pending'.Perm (request::pending)) :
    Accounted codec (requests ++ [request]) pending' late posted := by
  obtain ⟨answered,hposted,hperm⟩ := h
  refine ⟨answered,hposted,?_⟩
  calc List.Perm (requests ++ [request]) (request::requests) := List.perm_append_singleton _ _
    List.Perm _ (request::(answered ++ (pending ++ late))) := hperm.cons request
    List.Perm _ (answered ++ (request::pending ++ late)) := List.perm_middle.symm
    List.Perm _ (answered ++ (pending' ++ late)) :=
      (hp.symm.append_right late).append_left answered

theorem Accounted.answered (h : Accounted codec requests pending late posted)
    {request : Invocation α β} (hp : pending.Perm (request::pending'))
    {message : MessageId × MessageView} (ha : Answers codec request message) :
    Accounted codec requests pending' late (posted ++ [message]) := by
  obtain ⟨answered,hposted,hperm⟩ := h
  refine ⟨answered ++ [request],List.rel_append hposted (List.Forall₂.cons ha .nil),?_⟩
  rw [List.append_assoc]
  exact hperm.trans ((hp.append_right late).append_left answered)

theorem Accounted.passed (h : Accounted codec requests pending late posted)
    {dropped : List (Invocation α β)} (hp : pending.Perm (dropped ++ pending')) :
    Accounted codec requests pending' (late ++ dropped) posted := by
  obtain ⟨answered,hposted,hperm⟩ := h
  refine ⟨answered,hposted,hperm.trans (List.Perm.append_left answered ?_)⟩
  calc List.Perm (pending ++ late) (dropped ++ pending' ++ late) := hp.append_right late
    List.Perm _ (pending' ++ dropped ++ late) := List.perm_append_comm.append_right late
    _ = pending' ++ (dropped ++ late) := List.append_assoc _ _ _
    List.Perm _ (pending' ++ (late ++ dropped)) := List.perm_append_comm.append_left pending'

end Accounts

theorem response_answers {e : MessageSequence × DeferredCall χ α β} {size : ℕ}
    {message : MessageId × MessageView}
    (h : codec.response e.1 e.2 (e.2.func e.2.args) size = some message) :
    Answers codec (invocationOf e) message := by
  obtain ⟨data,hdata,rfl⟩ := Option.map_eq_some_iff.mp h
  exact ⟨size,data,hdata,rfl⟩

section Enqueue

variable {codec} {pending : PendingCalls χ α β} {message : MessageView} {responseId : MessageId}
  {func : α → β} {state : χ}

theorem enqueue_unread (h : codec.invocation message responseId func = none) :
    codec.enqueue pending message responseId func state = (false,pending) := by
  have hargs : codec.readArgs message = none := Option.map_eq_none_iff.mp h
  rw [SkeletonCodec.enqueue, hargs]
  exact ite_self _

/-- A request with the number of a pending call is refused. -/
theorem enqueue_taken (h : pending.contains message.sequenceNo = true) :
    codec.enqueue pending message responseId func state = (false,pending) := if_pos h

theorem enqueue_fresh {request : Invocation α β}
    (h : codec.invocation message responseId func = some request)
    (hfresh : pending.contains message.sequenceNo = false) :
    (codec.enqueue pending message responseId func state).1 = true ∧
      ((codec.enqueue pending message responseId func state).2.entries.map invocationOf).Perm
        (request::pending.entries.map invocationOf) := by
  obtain ⟨args,hargs,rfl⟩ := Option.map_eq_some_iff.mp h
  have hnone : pending.find? message.sequenceNo = none := by
    rwa [OrderedMap.contains, Option.isSome_eq_false_iff, Option.isNone_iff_eq_none] at hfresh
  rw [SkeletonCodec.enqueue, hfresh, hargs]
  refine ⟨rfl,?_⟩
  exact (OrderedMap.assignIn_perm (fun e he hkey =>
    OrderedMap.find?_eq_none.mp hnone e he hkey) _).map invocationOf

end Enqueue

/-! ## Runs of a lazy skeleton -/

structure LazyRun (α β : Type*) where
  skeleton : LazySkeleton α β
  requests : List (Invocation α β) := []
  posted : List (MessageId × MessageView) := []
  /-- The calls that were passed over, with the time at which they were. -/
  late : List ((MessageSequence × LazyCall α β) × ℕ) := []

inductive LazyEvent (α β : Type*) where
  | enqueue (now : ℕ) (request : MessageView) (responseId : MessageId) (func : α → β)
  | handleOne (at_ : MessageSequence → ℕ) (size : ℕ)

namespace LazyRun

def step (s : LazyRun α β) : LazyEvent α β → LazyRun α β
  | .enqueue now request responseId func =>
    { s with
      skeleton := (s.skeleton.enqueue codec now request responseId func).2
      requests := s.requests ++ (codec.invocation request responseId func).toList }
  | .handleOne at_ size =>
    let r := s.skeleton.handleOne codec at_ size
    { s with
      skeleton := r.2.2
      posted := s.posted ++ r.2.1.toList
      late := s.late ++ (s.skeleton.pending.entries.takeWhile (LazySkeleton.isLate at_)).map
        (fun e => (e,at_ e.1)) }

/-- Each request is answered by one message, or pending, or had run out of
time when it was passed over. -/
structure Accounted (s : LazyRun α β) : Prop where
  accounted : DeferredAnswers.Accounted codec s.requests
    (s.skeleton.pending.entries.map invocationOf) (s.late.map (fun x => invocationOf x.1)) s.posted
  late : ∀ x ∈ s.late, x.1.2.state.isExpired x.2 = true

/-- A request whose arguments can be read is accepted. -/
def Accepted (s : LazyRun α β) : LazyEvent α β → Prop
  | .enqueue now request responseId func => ∀ r, codec.invocation request responseId func = some r →
    (s.skeleton.enqueue codec now request responseId func).1 = true
  | .handleOne _ _ => True

/-- No call with the number of a request is pending when it comes, and the
result of a call that is handled can be written. -/
def Distinct (s : LazyRun α β) : LazyEvent α β → Prop
  | .enqueue _ request responseId func => ∀ r, codec.invocation request responseId func = some r →
    s.skeleton.pending.contains request.sequenceNo = false
  | .handleOne at_ size => ∀ e ∈ (LazySkeleton.handleIn at_ s.skeleton.pending.entries).1,
    (codec.serialize (e.2.func e.2.args) size).isSome = true

def start (defaultTimeout : ℕ) : LazyRun α β := { skeleton := { defaultTimeout } }

variable {codec} {s : LazyRun α β}

theorem accepted_of_distinct (e : LazyEvent α β) (h : Distinct codec s e) :
    Accepted codec s e := by
  cases e with
  | enqueue now request responseId func =>
    exact fun r hr => (enqueue_fresh hr (h r hr)).1
  | handleOne at_ size => trivial

/-- The calls of a handled skeleton, before the taken one is answered. -/
theorem pass_accounted (h : Accounted codec s) (at_ : MessageSequence → ℕ) :
    DeferredAnswers.Accounted codec s.requests
      (((LazySkeleton.handleIn at_ s.skeleton.pending.entries).1.toList ++
        (LazySkeleton.handleIn at_ s.skeleton.pending.entries).2).map invocationOf)
      ((s.late ++ (s.skeleton.pending.entries.takeWhile (LazySkeleton.isLate at_)).map
        (fun e => (e,at_ e.1))).map (fun x => invocationOf x.1)) s.posted := by
  have hsplit := congrArg (List.map invocationOf)
    (LazySkeleton.handleIn_split at_ s.skeleton.pending.entries)
  rw [List.map_append] at hsplit
  have hlate : (s.late ++ (s.skeleton.pending.entries.takeWhile (LazySkeleton.isLate at_)).map
      (fun e => (e,at_ e.1))).map (fun x => invocationOf x.1) =
        s.late.map (fun x => invocationOf x.1) ++
          (s.skeleton.pending.entries.takeWhile (LazySkeleton.isLate at_)).map invocationOf := by
    rw [List.map_append, List.map_map]
    rfl
  rw [hlate]
  exact h.accounted.passed (List.Perm.of_eq hsplit)

theorem step_accounted (h : Accounted codec s) (e : LazyEvent α β) (hok : Distinct codec s e) :
    Accounted codec (step codec s e) := by
  cases e with
  | enqueue now request responseId func =>
    refine ⟨?_,h.late⟩
    cases hr : codec.invocation request responseId func with
    | none =>
      simp only [step, LazySkeleton.enqueue, enqueue_unread hr, hr, Option.toList_none,
        List.append_nil]
      exact h.accounted
    | some r =>
      simp only [step, LazySkeleton.enqueue, hr, Option.toList_some]
      exact h.accounted.received (enqueue_fresh hr (hok r hr)).2
  | handleOne at_ size =>
    refine ⟨?_,?_⟩
    · have hpass := pass_accounted h at_
      simp only [step, LazySkeleton.handleOne]
      cases htaken : (LazySkeleton.handleIn at_ s.skeleton.pending.entries).1 with
      | none =>
        rw [htaken] at hpass
        simpa using hpass
      | some e =>
        rw [htaken] at hpass
        obtain ⟨data,hdata⟩ := Option.isSome_iff_exists.mp (hok e (by simp [htaken]))
        have hmessage : codec.response e.1 e.2 (e.2.func e.2.args) size = some _ :=
          Option.map_eq_some_iff.mpr ⟨data,hdata,rfl⟩
        rw [Option.bind_some, hmessage]
        exact hpass.answered (List.Perm.refl _) (response_answers codec hmessage)
    · rintro x hx
      rcases List.mem_append.mp hx with hx | hx
      · exact h.late x hx
      · obtain ⟨e,he,rfl⟩ := List.mem_map.mp hx
        have hexpired : LazySkeleton.isLate at_ e = true := List.mem_takeWhile_imp he
        exact hexpired

/-- A refused request, or a result that cannot be written, is in no place. -/
theorem distinct_of_accounted (h : Accounted codec s) (e : LazyEvent α β)
    (hs : Accounted codec (step codec s e)) : Distinct codec s e := by
  have hlen := h.accounted.length
  have hlen' := hs.accounted.length
  cases e with
  | enqueue now request responseId func =>
    intro r hr
    by_contra hpending
    rw [Bool.not_eq_false] at hpending
    simp only [step, LazySkeleton.enqueue, enqueue_taken hpending, hr, Option.toList_some,
      List.length_append, List.length_singleton] at hlen'
    omega
  | handleOne at_ size =>
    intro e he
    by_contra hsome
    have hnone : codec.response e.1 e.2 (e.2.func e.2.args) size = none :=
      Option.map_eq_none_iff.mpr (Option.not_isSome_iff_eq_none.mp hsome)
    have htaken : (LazySkeleton.handleIn at_ s.skeleton.pending.entries).1 = some e := he
    have hpass := (pass_accounted h at_).length
    simp only [step, LazySkeleton.handleOne, htaken, Option.bind_some, hnone, Option.toList_none,
      List.append_nil, List.length_map] at hlen'
    simp only [htaken, Option.toList_some, List.length_map, List.length_append,
      List.length_singleton] at hpass hlen'
    omega

theorem answered_iff (defaultTimeout : ℕ) (es : List (LazyEvent α β)) :
    StepRun.Always (step codec) (Accounted codec) (start defaultTimeout) es ↔
      StepRun.Steps (step codec) (Distinct codec) (start defaultTimeout) es := by
  refine StepRun.always_iff_steps (fun _ h => h) (fun _ e h hok => step_accounted h e hok)
    (fun _ e h hs => distinct_of_accounted h e hs) ⟨⟨[],.nil,List.Perm.refl _⟩,by simp [start]⟩

def handles : LazyEvent α β → Bool
  | .handleOne _ _ => true
  | .enqueue _ _ _ _ => false

/-- As many calls of `handle_one` as there are pending calls leave none. -/
theorem handles_all (codec : SkeletonCodec α β) (hs : List (LazyEvent α β)) (s : LazyRun α β)
    (hall : ∀ e ∈ hs, handles e = true) (hlen : s.skeleton.pending.size ≤ hs.length) :
    (StepRun.run (step codec) s hs).skeleton.pending.entries = [] := by
  induction hs generalizing s with
  | nil => exact List.eq_nil_of_length_eq_zero (Nat.le_zero.mp hlen)
  | cons e hs ih =>
    cases e with
    | enqueue now request responseId func =>
      have hfirst := hall _ List.mem_cons_self
      cases hfirst
    | handleOne at_ size =>
      refine ih (step codec s (.handleOne at_ size))
        (fun e he => hall e (List.mem_cons_of_mem _ he)) ?_
      have hless := LazySkeleton.handleIn_length at_ s.skeleton.pending.entries
      rw [List.length_cons] at hlen
      change (LazySkeleton.handleIn at_ s.skeleton.pending.entries).2.length ≤ hs.length
      change s.skeleton.pending.entries.length ≤ hs.length+1 at hlen
      omega

end LazyRun

/-! ## Runs of an asynchronous skeleton -/

structure AsyncRun (α β : Type*) where
  skeleton : AsyncSkeleton α β := {}
  requests : List (Invocation α β) := []
  posted : List (MessageId × MessageView) := []

inductive AsyncEvent (α β : Type*) where
  | enqueue (request : MessageView) (responseId : MessageId) (func : α → β)
  | doIt (id : MessageSequence)
  | deliver (id : MessageSequence)
  | handleOne (size : ℕ)

namespace AsyncRun

variable (blank : β)

def step (s : AsyncRun α β) : AsyncEvent α β → AsyncRun α β
  | .enqueue request responseId func =>
    { s with
      skeleton := (s.skeleton.enqueue codec request responseId func).2
      requests := s.requests ++ (codec.invocation request responseId func).toList }
  | .doIt id => { s with skeleton := s.skeleton.doIt id }
  | .deliver id => { s with skeleton := s.skeleton.deliver id }
  | .handleOne size =>
    let r := s.skeleton.handleOne codec blank size
    { s with skeleton := r.2.2, posted := s.posted ++ r.2.1.toList }

/-- Each request is answered by one message or pending. -/
def Accounted (s : AsyncRun α β) : Prop :=
  DeferredAnswers.Accounted codec s.requests (s.skeleton.pending.entries.map invocationOf) []
    s.posted

def Accepted (s : AsyncRun α β) : AsyncEvent α β → Prop
  | .enqueue request responseId func => ∀ r, codec.invocation request responseId func = some r →
    (s.skeleton.enqueue codec request responseId func).1 = true
  | _ => True

/-- The workshop delivers a call only after it was done. -/
def Worked (s : AsyncRun α β) : AsyncEvent α β → Prop
  | .deliver id => ∀ call, s.skeleton.pending.find? id = some call → call.state.result.isSome = true
  | _ => True

def Distinct (s : AsyncRun α β) : AsyncEvent α β → Prop
  | .enqueue request responseId func => ∀ r, codec.invocation request responseId func = some r →
    s.skeleton.pending.contains request.sequenceNo = false
  | .handleOne size => ∀ e ∈ (AsyncSkeleton.handleIn s.skeleton.pending.entries).1,
    (codec.serialize (e.2.func e.2.args) size).isSome = true
  | _ => True

/-- A result is that of the call, and a finished call has one. -/
def Done (call : AsyncCall α β) : Prop :=
  (∀ result ∈ call.state.result, result = call.func call.args) ∧
    (call.state.finished = true → call.state.result.isSome = true)

structure Inv (s : AsyncRun α β) : Prop where
  accounted : Accounted codec s
  done : ∀ e ∈ s.skeleton.pending.entries, Done e.2

variable {codec} {blank} {s : AsyncRun α β}

theorem accepted_of_distinct (e : AsyncEvent α β) (h : Distinct codec s e) :
    Accepted codec s e := by
  cases e with
  | enqueue request responseId func => exact fun r hr => (enqueue_fresh hr (h r hr)).1
  | doIt id => trivial
  | deliver id => trivial
  | handleOne size => trivial

theorem work_invocations (id : MessageSequence) (change : AsyncCall α β → WorkState β) :
    (s.skeleton.work id change).pending.entries.map invocationOf =
      s.skeleton.pending.entries.map invocationOf := by
  change (s.skeleton.pending.entries.map _).map invocationOf = _
  rw [List.map_map]
  apply List.map_congr_left
  intro e _
  simp only [Function.comp_apply]
  split_ifs <;> rfl

/-- Work on one call leaves the others as they are. -/
theorem work_done (h : ∀ e ∈ s.skeleton.pending.entries, Done e.2) {id : MessageSequence}
    {change : AsyncCall α β → WorkState β}
    (hchange : ∀ call, s.skeleton.pending.find? id = some call → Done call →
      Done { call with state := change call }) :
    ∀ e ∈ (s.skeleton.work id change).pending.entries, Done e.2 := by
  intro e he
  obtain ⟨d,hd,rfl⟩ := List.mem_map.mp he
  dsimp only
  split_ifs with hid
  · subst hid
    exact hchange d.2 (OrderedMap.find?_eq_some.mpr hd) (h d hd)
  · exact h d hd

/-- The calls of a handled skeleton, before the taken one is answered. -/
theorem take_accounted (h : Inv codec s) :
    DeferredAnswers.Accounted codec s.requests
      (((AsyncSkeleton.handleIn s.skeleton.pending.entries).1.toList ++
        (AsyncSkeleton.handleIn s.skeleton.pending.entries).2).map invocationOf) [] s.posted := by
  obtain ⟨answered,hposted,hperm⟩ := h.accounted
  have htake := (AsyncSkeleton.handleIn_perm s.skeleton.pending.entries).map invocationOf
  exact ⟨answered,hposted,hperm.trans ((htake.append_right []).append_left answered)⟩

/-- The result of a taken call is the function applied to its arguments. -/
theorem taken_result (h : Inv codec s) {e : MessageSequence × AsyncCall α β}
    (he : (AsyncSkeleton.handleIn s.skeleton.pending.entries).1 = some e) :
    e.2.state.result.getD blank = e.2.func e.2.args := by
  obtain ⟨hmem,hfinished⟩ := AsyncSkeleton.handleIn_taken he
  obtain ⟨hresult,hsome⟩ := h.done e hmem
  obtain ⟨result,hr⟩ := Option.isSome_iff_exists.mp (hsome hfinished)
  rw [hr, Option.getD_some]
  exact hresult result hr

theorem step_accounted (h : Inv codec s) (e : AsyncEvent α β) (hok : Distinct codec s e) :
    Accounted codec (step codec blank s e) := by
  cases e with
  | enqueue request responseId func =>
    cases hr : codec.invocation request responseId func with
    | none =>
      simp only [Accounted, step, AsyncSkeleton.enqueue, enqueue_unread hr, hr,
        Option.toList_none, List.append_nil]
      exact h.accounted
    | some r =>
      simp only [Accounted, step, AsyncSkeleton.enqueue, hr, Option.toList_some]
      exact h.accounted.received (enqueue_fresh hr (hok r hr)).2
  | doIt id =>
    rw [Accounted, step, AsyncSkeleton.doIt, work_invocations]
    exact h.accounted
  | deliver id =>
    rw [Accounted, step, AsyncSkeleton.deliver, work_invocations]
    exact h.accounted
  | handleOne size =>
    have htake := take_accounted h
    simp only [Accounted, step, AsyncSkeleton.handleOne]
    cases htaken : (AsyncSkeleton.handleIn s.skeleton.pending.entries).1 with
    | none =>
      rw [htaken] at htake
      simpa using htake
    | some e =>
      rw [htaken] at htake
      obtain ⟨data,hdata⟩ := Option.isSome_iff_exists.mp (hok e (by simp [htaken]))
      have hmessage : codec.response e.1 e.2 (e.2.func e.2.args) size = some _ :=
        Option.map_eq_some_iff.mpr ⟨data,hdata,rfl⟩
      rw [Option.bind_some, taken_result h htaken, hmessage]
      exact htake.answered (List.Perm.refl _) (response_answers codec hmessage)

theorem step_done (h : Inv codec s) (e : AsyncEvent α β) (hw : Worked s e) :
    ∀ d ∈ (step codec blank s e).skeleton.pending.entries, Done d.2 := by
  cases e with
  | enqueue request responseId func =>
    intro d hd
    simp only [step, AsyncSkeleton.enqueue, SkeletonCodec.enqueue] at hd
    split at hd
    · exact h.done d hd
    · split at hd
      · rcases OrderedMap.mem_assignIn hd with rfl | hd
        · exact ⟨by simp,by simp⟩
        · exact h.done d hd
      · exact h.done d hd
  | doIt id => exact work_done h.done fun call _ _ => ⟨by simp,by simp⟩
  | deliver id => exact work_done h.done fun call hcall hdone => ⟨hdone.1,fun _ => hw call hcall⟩
  | handleOne size =>
    exact fun d hd => h.done d ((AsyncSkeleton.handleIn_sublist s.skeleton.pending.entries).mem hd)

theorem distinct_of_accounted (h : Inv codec s) (e : AsyncEvent α β)
    (hs : Accounted codec (step codec blank s e)) : Distinct codec s e := by
  have hlen := h.accounted.length
  have hlen' := hs.length
  cases e with
  | enqueue request responseId func =>
    intro r hr
    by_contra hpending
    rw [Bool.not_eq_false] at hpending
    simp only [step, AsyncSkeleton.enqueue, enqueue_taken hpending, hr, Option.toList_some,
      List.length_append, List.length_singleton] at hlen'
    omega
  | doIt id => trivial
  | deliver id => trivial
  | handleOne size =>
    intro e he
    by_contra hsome
    have hnone : codec.response e.1 e.2 (e.2.func e.2.args) size = none :=
      Option.map_eq_none_iff.mpr (Option.not_isSome_iff_eq_none.mp hsome)
    have htaken : (AsyncSkeleton.handleIn s.skeleton.pending.entries).1 = some e := he
    have htake := (take_accounted h).length
    simp only [step, AsyncSkeleton.handleOne, htaken, Option.bind_some, taken_result h htaken,
      hnone, Option.toList_none, List.append_nil, List.length_map] at hlen'
    simp only [htaken, Option.toList_some, List.length_map, List.length_append,
      List.length_singleton] at htake hlen'
    omega

theorem answered_iff (es : List (AsyncEvent α β))
    (hw : StepRun.Steps (step codec blank) Worked {} es) :
    StepRun.Always (step codec blank) (Accounted codec) {} es ↔
      StepRun.Steps (step codec blank) (Distinct codec) {} es := by
  have hkeep : ∀ (s : AsyncRun α β) e, Inv codec s → Worked s e → Distinct codec s e →
      Inv codec (step codec blank s e) :=
    fun _ e h hw hok => ⟨step_accounted h e hok,step_done h e hw⟩
  have hbreak : ∀ (s : AsyncRun α β) e, Inv codec s → Worked s e →
      Accounted codec (step codec blank s e) → Distinct codec s e :=
    fun _ e h _ hs => distinct_of_accounted h e hs
  refine StepRun.always_iff_steps_of (fun _ h => Inv.accounted h) hkeep hbreak ?_ hw
  exact ⟨⟨[],.nil,List.Perm.refl _⟩,fun e he => (List.not_mem_nil he).elim⟩

def handles : AsyncEvent α β → Bool
  | .handleOne _ => true
  | _ => false

/-- When the workers are done, as many calls of `handle_one` as there are
pending calls leave none. -/
theorem handles_all (codec : SkeletonCodec α β) (blank : β) (hs : List (AsyncEvent α β))
    (s : AsyncRun α β) (hall : ∀ e ∈ hs, handles e = true)
    (hdone : ∀ e ∈ s.skeleton.pending.entries, e.2.state.finished = true)
    (hlen : s.skeleton.pending.size ≤ hs.length) :
    (StepRun.run (step codec blank) s hs).skeleton.pending.entries = [] := by
  induction hs generalizing s with
  | nil => exact List.eq_nil_of_length_eq_zero (Nat.le_zero.mp hlen)
  | cons e hs ih =>
    cases e with
    | handleOne size =>
      have htail := AsyncSkeleton.handleIn_finished hdone
      refine ih (step codec blank s (.handleOne size))
        (fun e he => hall e (List.mem_cons_of_mem _ he)) ?_ ?_
      · intro e he
        change e ∈ (AsyncSkeleton.handleIn s.skeleton.pending.entries).2 at he
        rw [htail] at he
        exact hdone e (List.mem_of_mem_tail he)
      · rw [List.length_cons] at hlen
        change (AsyncSkeleton.handleIn s.skeleton.pending.entries).2.length ≤ hs.length
        change s.skeleton.pending.entries.length ≤ hs.length+1 at hlen
        rw [htail, List.length_tail]
        omega
    | enqueue request responseId func =>
      have hfirst := hall _ List.mem_cons_self
      cases hfirst
    | doIt id =>
      have hfirst := hall _ List.mem_cons_self
      cases hfirst
    | deliver id =>
      have hfirst := hall _ List.mem_cons_self
      cases hfirst

end AsyncRun

/-- In every run of a deferred skeleton each request is accepted and in exactly
one place, its answer its own, exactly if no request comes with the number of
a pending call and every result can be written. From every state enough calls
of `handle_one` leave nothing pending, once the workers are done. -/
theorem deferred_answers_iff {α β : Type*} (codec : SkeletonCodec α β) (defaultTimeout : ℕ)
    (blank : β) :
    (∀ es : List (LazyEvent α β),
      (StepRun.Always (LazyRun.step codec) (LazyRun.Accounted codec) (.start defaultTimeout) es ∧
        StepRun.Steps (LazyRun.step codec) (LazyRun.Accepted codec) (.start defaultTimeout) es ↔
      StepRun.Steps (LazyRun.step codec) (LazyRun.Distinct codec) (.start defaultTimeout) es)) ∧
    (∀ (s : LazyRun α β) hs, (∀ e ∈ hs, LazyRun.handles e = true) →
      s.skeleton.pending.size ≤ hs.length →
      (StepRun.run (LazyRun.step codec) s hs).skeleton.pending.entries = []) ∧
    (∀ es : List (AsyncEvent α β),
      StepRun.Steps (AsyncRun.step codec blank) AsyncRun.Worked {} es →
      (StepRun.Always (AsyncRun.step codec blank) (AsyncRun.Accounted codec) {} es ∧
        StepRun.Steps (AsyncRun.step codec blank) (AsyncRun.Accepted codec) {} es ↔
      StepRun.Steps (AsyncRun.step codec blank) (AsyncRun.Distinct codec) {} es)) ∧
    ∀ (s : AsyncRun α β) hs, (∀ e ∈ hs, AsyncRun.handles e = true) →
      (∀ e ∈ s.skeleton.pending.entries, e.2.state.finished = true) →
      s.skeleton.pending.size ≤ hs.length →
      (StepRun.run (AsyncRun.step codec blank) s hs).skeleton.pending.entries = [] := by
  refine ⟨fun es => ?_,fun s hs => LazyRun.handles_all codec hs s,fun es hw => ?_,
    fun s hs => AsyncRun.handles_all codec blank hs s⟩
  · rw [LazyRun.answered_iff]
    exact and_iff_left_of_imp (StepRun.steps_mono fun _ e h => LazyRun.accepted_of_distinct e h)
  · rw [AsyncRun.answered_iff es hw]
    exact and_iff_left_of_imp (StepRun.steps_mono fun _ e h => AsyncRun.accepted_of_distinct e h)

/-! ## Two invokers with one number -/

def sampleCodec : SkeletonCodec ℕ ℕ where
  readTypeId := 1
  writeTypeId := 1
  deserialize data := data.head?.map UInt8.toNat
  serialize result size := if 1 ≤ size then some [UInt8.ofNat result] else none
  getDataWithSize := id

/-- The first request of an invoker, for the successor of 3. -/
def firstRequest (invokerId : EndpointId) : MessageView :=
  { serializerId := 1, sourceId := invokerId, sequenceNo := 1, data := [3] }

def lazyRun (invokers : List EndpointId) : List (LazyEvent ℕ ℕ) :=
  invokers.map (fun id => .enqueue 0 (firstRequest id) (msgbusId .pong) Nat.succ) ++
    [.handleOne (fun _ => 5) 8,.handleOne (fun _ => 5) 8]

def asyncRun (invokers : List EndpointId) : List (AsyncEvent ℕ ℕ) :=
  invokers.map (fun id => .enqueue (firstRequest id) (msgbusId .pong) Nat.succ) ++
    [.doIt 1,.deliver 1,.handleOne 8,.handleOne 8]

theorem deferred_answers_first :
    StepRun.Always (LazyRun.step sampleCodec) (LazyRun.Accounted sampleCodec) (.start 1000)
        (lazyRun [5]) ∧
      StepRun.Always (AsyncRun.step sampleCodec 0) (AsyncRun.Accounted sampleCodec) {}
        (asyncRun [5]) := by
  obtain ⟨hlazy,-,hasync,-⟩ := deferred_answers_iff sampleCodec 1000 0
  have hlate : StepRun.Steps (LazyRun.step sampleCodec) (LazyRun.Distinct sampleCodec)
      (.start 1000) (lazyRun [5]) := by
    refine ⟨fun _ _ => rfl,fun e he => ?_,fun e he => ?_,trivial⟩
    · cases he
      rfl
    · cases he
  have hworked : StepRun.Steps (AsyncRun.step sampleCodec 0) AsyncRun.Worked {} (asyncRun [5]) := by
    refine ⟨trivial,trivial,fun call hcall => ?_,trivial,trivial,trivial⟩
    cases hcall
    rfl
  have hdistinct : StepRun.Steps (AsyncRun.step sampleCodec 0) (AsyncRun.Distinct sampleCodec) {}
      (asyncRun [5]) := by
    refine ⟨fun _ _ => rfl,trivial,trivial,fun e he => ?_,fun e he => ?_,trivial⟩
    · cases he
      rfl
    · cases he
  exact ⟨((hlazy _).mpr hlate).1,((hasync _ hworked).mpr hdistinct).1⟩

/-- The second of two requests with one number is refused and gets no answer. -/
theorem same_number_refused :
    let lazy := StepRun.run (LazyRun.step sampleCodec) (.start 1000) (lazyRun [5,7])
    let async := StepRun.run (AsyncRun.step sampleCodec 0) {} (asyncRun [5,7])
    (lazy.requests.map Invocation.invokerId = [5,7] ∧ lazy.skeleton.pending.isEmpty = true ∧
      lazy.posted.map (fun m => m.2.targetId) = [5] ∧ ¬ LazyRun.Accounted sampleCodec lazy) ∧
    async.requests.map Invocation.invokerId = [5,7] ∧ async.skeleton.pending.isEmpty = true ∧
      async.posted.map (fun m => m.2.targetId) = [5] ∧ ¬ AsyncRun.Accounted sampleCodec async := by
  refine ⟨⟨by decide,by decide,by decide,fun h => ?_⟩,by decide,by decide,by decide,fun h => ?_⟩
  · exact absurd h.accounted.length (by decide)
  · exact absurd h.length (by decide)

end MsgBus.DeferredAnswers
