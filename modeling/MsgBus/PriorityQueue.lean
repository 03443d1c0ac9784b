import MsgBus.Lib.PriorityList
import MsgBus.Lib.StepRun
import MsgBus.MessageStorage

/-!
# The message priority queue

The vector of a queue is ascending in the priority; a message is put at the
lower bound of its priority, thus before those that have the same one. One
message at a time is taken from the back, but all messages are processed and
given from the front.
-/

set_option autoImplicit false

namespace MsgBus

open StepRun

theorem MessagePriority.value_inj {l r : MessagePriority} : l.value = r.value ↔ l = r := by
  cases l <;> cases r <;> decide

namespace MessageView

def rank (message : MessageView) : ℕ := message.priority.value

/-- The buffer of a taken message is released and the message marked. -/
def release (message : MessageView) : MessageView := { message with hopCount := 64, data := [] }

theorem release_tooManyHops (message : MessageView) : message.release.tooManyHops = true := rfl

end MessageView

structure MessagePriorityQueue where
  messages : List MessageView := []
  sorted : messages.Pairwise (PriorityList.NotAbove MessageView.rank) := by exact .nil

abbrev ProcessHandler (σ : Type) := σ → MessageView → Bool × σ

namespace MessagePriorityQueue

variable {σ : Type} (handler : ProcessHandler σ)

theorem ext {l r : MessagePriorityQueue} (h : l.messages = r.messages) : l = r := by
  cases l
  cases r
  cases h
  rfl

def empty : MessagePriorityQueue := {}

def push (queue : MessagePriorityQueue) (message : MessageView) : MessagePriorityQueue where
  messages := PriorityList.insert MessageView.rank message queue.messages
  sorted := PriorityList.insert_sorted MessageView.rank message queue.sorted

def popBack (queue : MessagePriorityQueue) : MessagePriorityQueue where
  messages := queue.messages.dropLast
  sorted := queue.sorted.sublist (List.dropLast_sublist _)

def processOne (queue : MessagePriorityQueue) (st : σ) : Bool × MessagePriorityQueue × σ :=
  match queue.messages.getLast? with
  | some message =>
    let (taken,st) := handler st message
    if taken then (true,queue.popBack,st) else (false,queue,st)
  | none => (false,queue,st)

theorem kept_sorted (queue : MessagePriorityQueue) (st : σ) :
    (fetchAllEntries MessageView.release handler (fun message => message.tooManyHops)
      queue.messages st).1.Pairwise (PriorityList.NotAbove MessageView.rank) := by
  rw [fetchAllEntries_eq MessageView.release handler _ MessageView.release_tooManyHops]
  exact queue.sorted.sublist
    (List.filter_sublist.trans (handled_refused_sublist handler queue.messages st))

/-- The size is returned if all were taken, else how many were erased. -/
def processAll (queue : MessagePriorityQueue) (st : σ) : ℕ × MessagePriorityQueue × σ :=
  let fetched := fetchEntries MessageView.release handler queue.messages st
  (if fetched.clearAll then queue.messages.length
    else fetched.entries.countP fun message => message.tooManyHops,
    ⟨(fetchAllEntries MessageView.release handler (fun message => message.tooManyHops)
      queue.messages st).1,kept_sorted handler queue st⟩,
    fetched.state)

/-- The generator, when it is run to its end. -/
def giveMessages (queue : MessagePriorityQueue) : List MessageView × MessagePriorityQueue :=
  (queue.messages,empty)

/-- `process_one` called again and again. -/
def processOnes : ℕ → MessagePriorityQueue → σ → MessagePriorityQueue × σ
  | 0, queue, st => (queue,st)
  | calls+1, queue, st =>
    let (_,queue,st) := queue.processOne handler st
    processOnes calls queue st

end MessagePriorityQueue

/-! ## Consumed messages -/

section Consumed

variable {σ : Type}

namespace MessageStorage

/-- The handler as it is called for a stored message. -/
def offer (now : ℕ) (handler : FetchHandler σ) (st : σ) (entry : StoredMessage) : Bool × σ :=
  handler st entry.msgId (entry.age now) entry.message

/-- A fetch offers each message once and leaves what the handler refused. -/
def FetchConsumes (now : ℕ) (handler : FetchHandler σ) (storage : MessageStorage) (st : σ) :
    Prop :=
  let (_,kept,final) := storage.fetchAll now handler st
  final = storage.messages.foldl (fun st entry => (offer now handler st entry).2) st ∧
    kept.messages = (handled (offer now handler) storage.messages st).2.1

theorem fetchConsumes_iff (now : ℕ) (handler : FetchHandler σ) (storage : MessageStorage)
    (st : σ) : storage.FetchConsumes now handler st ↔
      ∀ entry ∈ (handled (offer now handler) storage.messages st).2.1,
        entry.message.tooManyHops = false := by
  have h := fetchAllEntries_eq StoredMessage.release (offer now handler)
    (fun entry => entry.message.tooManyHops) StoredMessage.release_tooManyHops
    storage.messages st
  unfold offer at h
  unfold FetchConsumes fetchAll offer
  rw [h, ← handled_state]
  simp only [true_and, List.filter_eq_self, Bool.not_eq_true']

end MessageStorage

namespace MessagePriorityQueue

/-- Processing offers each message once, leaves what the handler refused and
returns how many it took. -/
def ProcessConsumes (handler : ProcessHandler σ) (queue : MessagePriorityQueue) (st : σ) : Prop :=
  let (count,kept,final) := queue.processAll handler st
  final = queue.messages.foldl (fun st message => (handler st message).2) st ∧
    kept.messages = (handled handler queue.messages st).2.1 ∧
    count = (handled handler queue.messages st).1.length

theorem processAll_eq (handler : ProcessHandler σ) (queue : MessagePriorityQueue) (st : σ) :
    (queue.processAll handler st).1 = (handled handler queue.messages st).1.length +
        (handled handler queue.messages st).2.1.countP (fun message => message.tooManyHops) ∧
      (queue.processAll handler st).2.1.messages =
        (handled handler queue.messages st).2.1.filter (fun message => !message.tooManyHops) ∧
      (queue.processAll handler st).2.2 = (handled handler queue.messages st).2.2 := by
  obtain ⟨_,hc,hst⟩ := fetchEntries_handled MessageView.release handler queue.messages st
  refine ⟨?_,?_,hst⟩
  · have hm := fetchEntries_countP MessageView.release handler
      (fun message => message.tooManyHops) MessageView.release_tooManyHops queue.messages st
    simp only [processAll, hc, hm]
    split_ifs with h
    · have hl := handled_length handler queue.messages st
      simp only [List.isEmpty_iff.mp h, List.length_nil, Nat.add_zero] at hl
      simp only [List.isEmpty_iff.mp h, List.countP_nil, Nat.add_zero, hl]
    · rfl
  · have hk := fetchAllEntries_eq MessageView.release handler
      (fun message => message.tooManyHops) MessageView.release_tooManyHops queue.messages st
    simp only [processAll, hk]

theorem processConsumes_iff (handler : ProcessHandler σ) (queue : MessagePriorityQueue) (st : σ) :
    queue.ProcessConsumes handler st ↔
      ∀ message ∈ (handled handler queue.messages st).2.1, message.tooManyHops = false := by
  obtain ⟨hcount,hkept,hfinal⟩ := processAll_eq handler queue st
  simp only [ProcessConsumes, hcount, hkept, hfinal, handled_state, true_and,
    List.filter_eq_self, Bool.not_eq_true']
  constructor
  · exact And.left
  · intro h
    refine ⟨h,?_⟩
    rw [List.countP_eq_zero.mpr fun message hm => by simp [h message hm], Nat.add_zero]

end MessagePriorityQueue

end Consumed

theorem messages_consumed_iff {σ τ : Type} (now : ℕ) (fetching : FetchHandler σ)
    (storage : MessageStorage) (processing : ProcessHandler τ) (queue : MessagePriorityQueue)
    (s : σ) (t : τ) :
    (storage.FetchConsumes now fetching s ↔
      ∀ entry ∈ (handled (MessageStorage.offer now fetching) storage.messages s).2.1,
        entry.message.tooManyHops = false) ∧
    (queue.ProcessConsumes processing t ↔
      ∀ message ∈ (handled processing queue.messages t).2.1, message.tooManyHops = false) :=
  ⟨storage.fetchConsumes_iff now fetching s,queue.processConsumes_iff processing t⟩

/-- A refused message that made 64 hops is erased and counted as taken. -/
theorem refused_erased : ¬ ∀ (now : ℕ) (fetching : FetchHandler Unit) (storage : MessageStorage)
    (processing : ProcessHandler Unit) (queue : MessagePriorityQueue),
    storage.FetchConsumes now fetching () ∧ queue.ProcessConsumes processing () := by
  intro h
  have hq := (h 0 (fun _ _ _ _ => (false,())) {} (fun _ _ => (false,()))
    ⟨[{ hopCount := 64 }],List.pairwise_singleton _ _⟩).2.2.2
  exact absurd hq (by decide)

/-! ## Draining -/

namespace MessagePriorityQueue

/-- A handler that lists what it is given. -/
def presenting (accepts : MessageView → Bool) : ProcessHandler (List MessageView) :=
  fun presented message => (accepts message,presented ++ [message])

def takingAll : ProcessHandler (List MessageView) := presenting fun _ => true

inductive Event where
  | push (message : MessageView)
  | processOne (accepts : MessageView → Bool)

def step (queue : MessagePriorityQueue) : Event → MessagePriorityQueue
  | .push message => queue.push message
  | .processOne accepts => (queue.processOne (presenting accepts) []).2.1

/-- The messages that were pushed and not taken, in the order of the pushes,
when always the first of the highest priority is taken. -/
def waitingStep (waiting : List MessageView) : Event → List MessageView
  | .push message => waiting ++ [message]
  | .processOne accepts =>
    match waiting.argmax MessageView.rank with
    | some message => if accepts message then waiting.erase message else waiting
    | none => waiting

def Arranges (queue : MessagePriorityQueue) (waiting : List MessageView) : Prop :=
  queue.messages = PriorityList.arrange MessageView.rank waiting

variable {σ : Type} {queue : MessagePriorityQueue} {waiting : List MessageView}

theorem arranges_nil : ({} : MessagePriorityQueue).Arranges [] := by
  unfold Arranges
  rfl

theorem Arranges.push (h : queue.Arranges waiting) (message : MessageView) :
    (queue.push message).Arranges (waiting ++ [message]) := by
  rw [Arranges, PriorityList.arrange_concat, ← h]
  rfl

theorem Arranges.empty (h : queue.Arranges waiting)
    (hw : waiting.argmax MessageView.rank = none) : queue.messages = [] := by
  rw [h, List.argmax_eq_none.mp hw]
  rfl

theorem Arranges.back (h : queue.Arranges waiting) {message : MessageView}
    (hw : waiting.argmax MessageView.rank = some message) :
    queue.messages.getLast? = some message ∧ queue.popBack.Arranges (waiting.erase message) := by
  have hm := PriorityList.arrange_argmax MessageView.rank hw
  rw [← h] at hm
  constructor
  · rw [hm, List.getLast?_concat]
  · have hp : queue.popBack.messages = queue.messages.dropLast := rfl
    rw [Arranges, hp, hm, List.dropLast_concat]

/-- A call of `process_one` offers the first message of the highest priority. -/
theorem Arranges.processOne (h : queue.Arranges waiting) (handler : ProcessHandler σ) (st : σ) :
    queue.processOne handler st =
      match waiting.argmax MessageView.rank with
      | some message =>
        let (taken,st) := handler st message
        if taken then (true,queue.popBack,st) else (false,queue,st)
      | none => (false,queue,st) := by
  cases hw : waiting.argmax MessageView.rank with
  | none => simp only [MessagePriorityQueue.processOne, h.empty hw, List.getLast?_nil]
  | some message => simp only [MessagePriorityQueue.processOne, (h.back hw).1]

theorem Arranges.step (h : queue.Arranges waiting) (event : Event) :
    (queue.step event).Arranges (waitingStep waiting event) := by
  cases event with
  | push message => exact h.push message
  | processOne accepts =>
    simp only [MessagePriorityQueue.step, waitingStep, h.processOne]
    cases hw : waiting.argmax MessageView.rank with
    | none => exact h
    | some message =>
      cases ha : accepts message
      · simpa only [presenting, ha, Bool.false_eq_true, if_false] using h
      · simpa only [presenting, ha, if_true] using (h.back hw).2

theorem Arranges.run (h : queue.Arranges waiting) (events : List Event) :
    (StepRun.run MessagePriorityQueue.step queue events).Arranges
      (StepRun.run waitingStep waiting events) := by
  induction events generalizing queue waiting with
  | nil => exact h
  | cons event events ih => exact ih (h.step event)

/-- A call of `process_one` takes the first message of the highest priority,
if the handler accepts it. -/
def TakesFirstHighest (queue : MessagePriorityQueue) (waiting : List MessageView) : Prop :=
  ∀ accepts, ∃ kept : MessagePriorityQueue,
    let taken := (waiting.argmax MessageView.rank).filter accepts
    queue.processOne (presenting accepts) [] =
      (taken.isSome,kept,(waiting.argmax MessageView.rank).toList) ∧
    kept.Arranges (taken.elim waiting waiting.erase)

/-- The order in which calls of `process_one` present the messages until none is left. -/
def processOneOrder (queue : MessagePriorityQueue) : List MessageView :=
  (processOnes takingAll queue.messages.length queue []).2

/-- Both ways to drain the queue at once present the messages in the order of `process_one`. -/
def DrainsAlike (queue : MessagePriorityQueue) : Prop :=
  (queue.processAll takingAll []).2.2 = queue.processOneOrder ∧
    queue.giveMessages.1 = queue.processOneOrder

instance (queue : MessagePriorityQueue) : Decidable queue.DrainsAlike :=
  inferInstanceAs (Decidable (_ ∧ _))

theorem Arranges.takesFirstHighest (h : queue.Arranges waiting) :
    queue.TakesFirstHighest waiting := by
  intro accepts
  rw [h.processOne]
  cases hw : waiting.argmax MessageView.rank with
  | none => exact ⟨queue,rfl,h⟩
  | some message =>
    cases ha : accepts message
    · exact ⟨queue,by simp [presenting, ha],by simpa [Option.filter, ha] using h⟩
    · exact ⟨queue.popBack,by simp [presenting, ha],by
        simpa [Option.filter, ha] using (h.back hw).2⟩

theorem processOnes_takingAll (queue : MessagePriorityQueue) (presented : List MessageView) :
    processOnes takingAll queue.messages.length queue presented =
      ({},presented ++ queue.messages.reverse) := by
  obtain ⟨messages,hs⟩ := queue
  induction messages using List.reverseRecOn generalizing presented with
  | nil => simp [processOnes]
  | append_singleton messages message ih =>
    have hpop : popBack ⟨messages ++ [message],hs⟩ =
        ⟨messages,hs.sublist (List.sublist_append_left _ _)⟩ :=
      ext (List.dropLast_concat)
    rw [List.length_append, List.length_singleton, processOnes, processOne]
    simp only [List.getLast?_concat, takingAll, presenting, if_true, hpop]
    rw [← takingAll, ih]
    simp

theorem processAll_takingAll (queue : MessagePriorityQueue) (presented : List MessageView) :
    (queue.processAll takingAll presented).2.2 = presented ++ queue.messages := by
  rw [(processAll_eq takingAll queue presented).2.2, handled_state]
  induction queue.messages generalizing presented with
  | nil => exact (List.append_nil presented).symm
  | cons message messages ih =>
    rw [List.foldl_cons, ih]
    exact List.append_assoc presented [message] messages

theorem drainsAlike_iff (queue : MessagePriorityQueue) :
    queue.DrainsAlike ↔ queue.messages.reverse = queue.messages := by
  simp only [DrainsAlike, processOneOrder, processOnes_takingAll, processAll_takingAll,
    giveMessages, List.nil_append, and_self]
  exact eq_comm

/-- Processing one message at a time follows the priorities in every run; the
queue drains in the same order at once only if a single priority is waiting,
in an order that reads the same from both ends. -/
theorem drain_order_iff (events : List Event) :
    let queue := run step {} events
    let waiting := run waitingStep [] events
    queue.TakesFirstHighest waiting ∧ queue.DrainsAlike ↔
      (∀ m ∈ waiting, ∀ m' ∈ waiting, m.priority = m'.priority) ∧
        waiting.reverse = waiting := by
  have h := arranges_nil.run events
  simp only [h.takesFirstHighest, true_and, drainsAlike_iff]
  rw [h, PriorityList.arrange_palindrome]
  simp only [MessageView.rank, MessagePriority.value_inj]

theorem pushes_reversed : ¬ ∀ events : List Event,
    (run step {} events).TakesFirstHighest (run waitingStep [] events) ∧
      (run step {} events).DrainsAlike := by
  intro h
  exact absurd (h [.push {},.push { sequenceNo := 1 }]).2 (by decide)

end MessagePriorityQueue

end MsgBus
