import MsgBus.EndpointIds
import MsgBus.Lib.CountedCells

/-!
# Counted subscriptions

An endpoint counts the subscriptions to each message id next to the queue of
that id, and erases both with the last one. A subscriber keeps in each of its
handler entries a pointer to the queue; it asks for the queues first and
subscribes afterwards. Messages that nobody subscribed to make queues too,
with a count of zero. A pointer is the address of a cell.
-/

set_option autoImplicit false

namespace MsgBus

open CountedCells EndpointIds StepRun

instance : Inhabited MessagePriorityQueue := ⟨.empty⟩

structure HandlerEntry (σ : Type) where
  msgId : MessageId
  handler : ProcessHandler σ
  queue : Option ℕ := none

/-- An endpoint whose queues are in counted cells; the queues of `node` are not
used. -/
structure SubscribedEndpoint (ρ : Type) where
  node : Endpoint ρ
  incoming : Table MessageId MessagePriorityQueue := .empty

namespace EndpointIds.Endpoint

variable {ρ : Type} (turn : Turn)

/-- What the connection does in its own update is left out. -/
def flushOutbox (e : Endpoint ρ) : Endpoint ρ := if e.hasId then e.updateSendOutbox turn else e

def sayBye (e : Endpoint ρ) : Endpoint ρ := (e.post turn (msgbusId .byeByeEndp) {}).2

def finish (e : Endpoint ρ) : Endpoint ρ := (e.sayBye turn).flushOutbox turn

end EndpointIds.Endpoint

namespace SubscribedEndpoint

variable {ρ σ : Type} (env : Environment ρ) (turn : Turn)

def ensureIncoming (e : SubscribedEndpoint ρ) (msgId : MessageId) : ℕ × SubscribedEndpoint ρ :=
  let (p,incoming) := e.incoming.ensure msgId
  (p,{ e with incoming })

def findIncoming (e : SubscribedEndpoint ρ) (msgId : MessageId) : Option ℕ := e.incoming.find msgId

def ensureQueue (e : SubscribedEndpoint ρ) (msgId : MessageId) : ℕ × SubscribedEndpoint ρ :=
  e.ensureIncoming msgId

def subscriptionCount (e : SubscribedEndpoint ρ) (msgId : MessageId) : ℤ := e.incoming.count msgId

def subscribe (e : SubscribedEndpoint ρ) (msgId : MessageId) : SubscribedEndpoint ρ :=
  { e with incoming := e.incoming.acquire msgId }

def unsubscribe (e : SubscribedEndpoint ρ) (msgId : MessageId) : SubscribedEndpoint ρ :=
  { e with incoming := e.incoming.release msgId }

def push (e : SubscribedEndpoint ρ) (p : ℕ) (message : MessageView) : SubscribedEndpoint ρ :=
  { e with incoming := e.incoming.update p fun queue => queue.push message }

def finish (e : SubscribedEndpoint ρ) : SubscribedEndpoint ρ :=
  { e with node := e.node.finish turn }

def storeMessage (e : SubscribedEndpoint ρ) (msgId : MessageId) (msgAge : MessageAge)
    (message : MessageView) : SubscribedEndpoint ρ :=
  let (result,node) := e.node.handleSpecial env turn msgId message
  let e := { e with node }
  if result = .shouldBeStored then
    if node.isTarget message then
      let message := { message with toMessageInfo := message.addAge msgAge }
      match e.findIncoming msgId with
      | some p => e.push p message
      | none =>
        let (p,e) := e.ensureIncoming msgId
        e.push p message
    else { e with node := (node.post turn (msgbusId .notARouter) {}).2 }
  else e

def acceptMessage (e : SubscribedEndpoint ρ) (msgId : MessageId) (message : MessageView) :
    Bool × SubscribedEndpoint ρ :=
  let (result,node) := e.node.handleSpecial env turn msgId message
  let e := { e with node }
  if result = .wasHandled then (true,e)
  else
    match e.findIncoming msgId with
    | some p => (true,if node.isTarget message then e.push p message else e)
    | none => (false,e)

/-- The store handler of an actor. -/
def processMessage (e : SubscribedEndpoint ρ) (msgId : MessageId) (message : MessageView) :
    SubscribedEndpoint ρ :=
  let (accepted,e) := e.acceptMessage env turn msgId message
  if accepted then e
  else if isSpecialMessage msgId then e
  else { e with node := e.node.postMetaMessage env turn (msgbusId .msgBlkList) msgId }

def store (e : SubscribedEndpoint ρ) (m : MessageId × MessageAge × MessageView) :
    SubscribedEndpoint ρ :=
  if env.isActor then e.processMessage env turn m.1 m.2.2
  else e.storeMessage env turn m.1 m.2.1 m.2.2

/-! ## The handler entries of a subscriber -/

def setupQueues : List (HandlerEntry σ) → SubscribedEndpoint ρ →
    List (HandlerEntry σ) × SubscribedEndpoint ρ
  | [], e => ([],e)
  | entry::entries, e =>
    let (p,e) := e.ensureQueue entry.msgId
    let (entries,e) := setupQueues entries e
    ({ entry with queue := some p }::entries,e)

def subscribeTo (e : SubscribedEndpoint ρ) (entries : List (HandlerEntry σ)) :
    SubscribedEndpoint ρ := entries.foldl (fun e entry => e.subscribe entry.msgId) e

def unsubscribeFrom (e : SubscribedEndpoint ρ) (entries : List (HandlerEntry σ)) :
    SubscribedEndpoint ρ := entries.foldl (fun e entry => e.unsubscribe entry.msgId) e

/-- What the pointer points at is processed; it must point at a queue. The
handlers change the state of the program. -/
def processQueue (entry : HandlerEntry σ) (e : SubscribedEndpoint ρ) (st : σ) :
    ℕ × SubscribedEndpoint ρ × σ :=
  match entry.queue with
  | some p =>
    match e.incoming.read p with
    | some queue =>
      let (done,queue,st) := queue.processAll entry.handler st
      (done,{ e with incoming := e.incoming.update p fun _ => queue },st)
    | none => (0,e,st)
  | none => (0,e,st)

/-- All messages of the first queue of which some are taken. -/
def processOne : List (HandlerEntry σ) → SubscribedEndpoint ρ → σ →
    Bool × SubscribedEndpoint ρ × σ
  | [], e, st => (false,e,st)
  | entry::entries, e, st =>
    let (done,e,st) := processQueue entry e st
    if done ≠ 0 then (true,e,st) else processOne entries e st

def processEach : List (HandlerEntry σ) → SubscribedEndpoint ρ → σ →
    ℕ × SubscribedEndpoint ρ × σ
  | [], e, st => (0,e,st)
  | entry::entries, e, st =>
    let (done,e,st) := processQueue entry e st
    let (more,e,st) := processEach entries e st
    (done+more,e,st)

def processAll (entries : List (HandlerEntry σ)) (e : SubscribedEndpoint ρ) (st : σ) :
    Bool × SubscribedEndpoint ρ × σ :=
  let (done,e,st) := processEach entries e st
  (0 < done,e,st)

end SubscribedEndpoint

/-- A subscriber is live from its construction, or from `init`, to its
destruction, or to `finish`. Its service calls `init` when it is constructed
and `finish` when it is destroyed. -/
structure Subscriber (σ : Type) where
  isStatic : Bool
  msgHandlers : List (HandlerEntry σ) := []
  live : Bool := false

namespace Subscriber

variable {ρ σ : Type}

def addMethod (s : Subscriber σ) (msgId : MessageId) (handler : ProcessHandler σ) :
    Subscriber σ :=
  { s with msgHandlers := s.msgHandlers ++ [{ msgId, handler }] }

def init (s : Subscriber σ) (e : SubscribedEndpoint ρ) : Subscriber σ × SubscribedEndpoint ρ :=
  let (msgHandlers,e) := SubscribedEndpoint.setupQueues s.msgHandlers e
  ({ s with msgHandlers, live := true },e.subscribeTo msgHandlers)

def destroy (s : Subscriber σ) (e : SubscribedEndpoint ρ) : Subscriber σ × SubscribedEndpoint ρ :=
  ({ s with live := false },e.unsubscribeFrom s.msgHandlers)

def finish (turn : Turn) (s : Subscriber σ) (e : SubscribedEndpoint ρ) :
    Subscriber σ × SubscribedEndpoint ρ :=
  ({ s with live := false },(e.unsubscribeFrom s.msgHandlers).finish turn)

/-- The constructor of a static subscriber does what `init` does. -/
def construct (handlers : List (MessageId × ProcessHandler σ)) (e : SubscribedEndpoint ρ) :
    Subscriber σ × SubscribedEndpoint ρ :=
  ({ isStatic := true, msgHandlers := handlers.map fun h => ⟨h.1,h.2,none⟩ } :
    Subscriber σ).init e

def liveHandlers (s : Subscriber σ) : List (HandlerEntry σ) := if s.live then s.msgHandlers else []

end Subscriber

/-! ## Held entries -/

section Held

variable {ρ σ : Type} {t : Table MessageId MessagePriorityQueue}
  {entries others : List (HandlerEntry σ)}

def entryCount (entries : List (HandlerEntry σ)) (msgId : MessageId) : ℕ :=
  (entries.map HandlerEntry.msgId).count msgId

/-- The table counts the entries, and each points at the cell of its id. -/
structure Held (t : Table MessageId MessagePriorityQueue) (entries : List (HandlerEntry σ)) :
    Prop where
  counts : t.Counts (entryCount entries)
  queues : ∀ entry ∈ entries, ∃ p, entry.queue = some p ∧ t.find entry.msgId = some p

/-- Where ids still have entries, their cells stay. -/
def Stay (t t' : Table MessageId MessagePriorityQueue) (entries : List (HandlerEntry σ)) : Prop :=
  ∀ msgId p, t.find msgId = some p → 0 < entryCount entries msgId → t'.find msgId = some p

theorem entryCount_append (msgId : MessageId) :
    entryCount (entries++others) msgId = entryCount entries msgId+entryCount others msgId := by
  rw [entryCount, List.map_append, List.count_append]
  rfl

theorem entryCount_pos {entry : HandlerEntry σ} (h : entry ∈ entries) :
    0 < entryCount entries entry.msgId :=
  List.count_pos_iff.mpr (List.mem_map_of_mem h)

theorem entryCount_perm (h : entries.Perm others) : entryCount entries = entryCount others :=
  funext fun msgId => (h.map HandlerEntry.msgId).count_eq msgId

theorem Held.perm (h : Held t entries) (hp : entries.Perm others) : Held t others where
  counts := by
    rw [← entryCount_perm hp]
    exact h.counts
  queues entry hentry := h.queues entry (hp.mem_iff.mpr hentry)

theorem Held.grow (h : Held t entries) {t' : Table MessageId MessagePriorityQueue}
    (hgrow : t.Grows t') : Held t' entries where
  counts msgId := (hgrow.2 msgId).trans (h.counts msgId)
  queues entry hentry := by
    obtain ⟨p,hp,hq⟩ := h.queues entry hentry
    exact ⟨p,hp,hgrow.1 _ _ hq⟩

namespace SubscribedEndpoint

variable {e : SubscribedEndpoint ρ}

theorem setupQueues_grows (entries : List (HandlerEntry σ)) :
    e.incoming.Grows (setupQueues entries e).2.incoming := by
  induction entries generalizing e with
  | nil => exact .refl _
  | cons entry entries ih =>
    exact (Table.Grows.ensure entry.msgId).trans (ih (e := (e.ensureQueue entry.msgId).2))

theorem setupQueues_queues (entries : List (HandlerEntry σ)) :
    ∀ entry ∈ (setupQueues entries e).1, ∃ p, entry.queue = some p ∧
      (setupQueues entries e).2.incoming.find entry.msgId = some p := by
  induction entries generalizing e with
  | nil => exact fun _ h => nomatch h
  | cons entry entries ih =>
    intro other h
    rcases List.mem_cons.mp h with rfl | h
    · exact ⟨_,rfl,(setupQueues_grows entries).1 _ _ Table.ensure_find⟩
    · exact ih other h

theorem subscribeTo_incoming (entries : List (HandlerEntry σ)) :
    (e.subscribeTo entries).incoming =
      e.incoming.acquireAll (entries.map HandlerEntry.msgId) := by
  induction entries generalizing e with
  | nil => rfl
  | cons entry entries ih => exact ih

theorem unsubscribeFrom_incoming (entries : List (HandlerEntry σ)) :
    (e.unsubscribeFrom entries).incoming =
      e.incoming.releaseAll (entries.map HandlerEntry.msgId) := by
  induction entries generalizing e with
  | nil => rfl
  | cons entry entries ih => exact ih

theorem processQueue_grows (entry : HandlerEntry σ) (st : σ) :
    e.incoming.Grows (processQueue entry e st).2.1.incoming := by
  cases hp : entry.queue with
  | none =>
    rw [processQueue, hp]
    exact .refl _
  | some p =>
    cases hq : e.incoming.read p with
    | none =>
      simp only [processQueue, hp, hq]
      exact .refl _
    | some queue =>
      simp only [processQueue, hp, hq]
      exact .update ..

theorem processOne_grows (entries : List (HandlerEntry σ)) (e : SubscribedEndpoint ρ) (st : σ) :
    e.incoming.Grows (processOne entries e st).2.1.incoming := by
  induction entries generalizing e st with
  | nil => exact .refl _
  | cons entry entries ih =>
    have h := processQueue_grows (e := e) entry st
    by_cases hdone : (processQueue entry e st).1 = 0
    · simp only [processOne, hdone, ne_eq, not_true, if_false]
      exact h.trans (ih ..)
    · simp only [processOne, hdone, ne_eq, not_false_iff, if_true]
      exact h

theorem processAll_grows (entries : List (HandlerEntry σ)) (e : SubscribedEndpoint ρ) (st : σ) :
    e.incoming.Grows (processAll entries e st).2.1.incoming := by
  have heach : e.incoming.Grows (processEach entries e st).2.1.incoming := by
    induction entries generalizing e st with
    | nil => exact .refl _
    | cons entry entries ih => exact (processQueue_grows entry st).trans (ih ..)
  exact heach

end SubscribedEndpoint

namespace Subscriber

variable {s : Subscriber σ} {e : SubscribedEndpoint ρ}

/-- The queues are there before anything is counted, and counting moves none. -/
theorem init_held (h : Held e.incoming others) :
    Held (s.init e).2.incoming (others++(s.init e).1.msgHandlers) ∧
      ∀ msgId p, e.incoming.find msgId = some p → (s.init e).2.incoming.find msgId = some p := by
  have hin : (s.init e).2.incoming = (SubscribedEndpoint.setupQueues s.msgHandlers
      e).2.incoming.acquireAll ((s.init e).1.msgHandlers.map HandlerEntry.msgId) :=
    SubscribedEndpoint.subscribeTo_incoming _
  have hsetup : (SubscribedEndpoint.setupQueues s.msgHandlers e).2.incoming.Counts
      (entryCount others) :=
    (h.grow (SubscribedEndpoint.setupQueues_grows _)).counts
  have hkeeps (msgId : MessageId) (p : ℕ) (hp : e.incoming.find msgId = some p) :
      (s.init e).2.incoming.find msgId = some p := by
    rw [hin]
    exact Table.acquireAll_keeps _ ((SubscribedEndpoint.setupQueues_grows _).1 _ _ hp)
  refine ⟨⟨?_,?_⟩,hkeeps⟩
  · intro msgId
    rw [hin, entryCount_append]
    exact hsetup.acquireAll _ msgId
  · intro entry hentry
    rcases List.mem_append.mp hentry with hother | hown
    · obtain ⟨p,hp,hq⟩ := h.queues entry hother
      exact ⟨p,hp,hkeeps _ _ hq⟩
    · obtain ⟨p,hp,hq⟩ := SubscribedEndpoint.setupQueues_queues s.msgHandlers entry hown
      refine ⟨p,hp,?_⟩
      rw [hin]
      exact Table.acquireAll_keeps _ hq

theorem construct_held (handlers : List (MessageId × ProcessHandler σ))
    (h : Held e.incoming others) :
    Held (construct handlers e).2.incoming (others++(construct handlers e).1.msgHandlers) ∧
      ∀ msgId p, e.incoming.find msgId = some p →
        (construct handlers e).2.incoming.find msgId = some p := init_held h

/-- Only the entries that let go are no longer counted. -/
theorem unsubscribeFrom_held (h : Held e.incoming (others++entries)) :
    Held (e.unsubscribeFrom entries).incoming others ∧
      Stay e.incoming (e.unsubscribeFrom entries).incoming others := by
  rw [SubscribedEndpoint.unsubscribeFrom_incoming]
  have hcounts : e.incoming.Counts fun msgId =>
      entryCount others msgId+(entries.map HandlerEntry.msgId).count msgId := by
    intro msgId
    rw [h.counts msgId, entryCount_append]
    rfl
  obtain ⟨hleft,hkeeps⟩ := hcounts.releaseAll _
  refine ⟨⟨hleft,?_⟩,fun msgId p hp hpos => (hkeeps msgId hpos).trans hp⟩
  intro entry hentry
  obtain ⟨p,hp,hq⟩ := h.queues entry (List.mem_append_left _ hentry)
  exact ⟨p,hp,(hkeeps _ (entryCount_pos hentry)).trans hq⟩

end Subscriber

/-! ## Stored messages -/

namespace SubscribedEndpoint

variable (env : Environment ρ) (turn : Turn) (e : SubscribedEndpoint ρ) (msgId : MessageId)
  (msgAge : MessageAge) (message : MessageView)

/-- The message is not handled by the endpoint itself, and is for it. -/
def Stores : Prop :=
  (e.node.handleSpecial env turn msgId message).1 = .shouldBeStored ∧
    (e.node.handleSpecial env turn msgId message).2.isTarget message = true

variable {env turn e msgId message}

theorem push_grows (p : ℕ) : e.incoming.Grows (e.push p message).incoming :=
  .update p fun queue : MessagePriorityQueue => queue.push message

/-- A message is put into the queue of its id, which is made if there is none. -/
theorem storeMessage_stores (h : e.Stores env turn msgId message) :
    (e.storeMessage env turn msgId msgAge message).incoming =
      (e.incoming.ensure msgId).2.update (e.incoming.ensure msgId).1 fun queue =>
        queue.push { message with toMessageInfo := message.addAge msgAge } := by
  simp only [storeMessage, h.1, h.2, if_true, findIncoming]
  cases hp : e.incoming.find msgId with
  | some p =>
    simp only [Table.ensure_of_find hp]
    rfl
  | none => rfl

theorem storeMessage_other (h : ¬ e.Stores env turn msgId message) :
    (e.storeMessage env turn msgId msgAge message).incoming = e.incoming := by
  by_cases hresult : (e.node.handleSpecial env turn msgId message).1 = .shouldBeStored
  · have htarget : ¬ (e.node.handleSpecial env turn msgId message).2.isTarget message = true :=
      fun ht => h ⟨hresult,ht⟩
    simp only [storeMessage, hresult, htarget, if_true]
    rfl
  · simp only [storeMessage, hresult, if_false]

/-- The message is left to the endpoint's queues, and is for it. -/
def Accepts (env : Environment ρ) (turn : Turn) (e : SubscribedEndpoint ρ) (msgId : MessageId)
    (message : MessageView) : Prop :=
  (e.node.handleSpecial env turn msgId message).1 ≠ .wasHandled ∧
    (e.node.handleSpecial env turn msgId message).2.isTarget message = true

theorem acceptMessage_accepts {p : ℕ} (hp : e.incoming.find msgId = some p)
    (h : e.Accepts env turn msgId message) :
    (e.acceptMessage env turn msgId message).2.incoming =
      e.incoming.update p fun queue => queue.push message := by
  simp only [acceptMessage, h.1, h.2, if_false, if_true, findIncoming, hp]
  rfl

theorem storeMessage_grows :
    e.incoming.Grows (e.storeMessage env turn msgId msgAge message).incoming := by
  by_cases h : e.Stores env turn msgId message
  · rw [storeMessage_stores msgAge h]
    exact (Table.Grows.ensure msgId).trans (.update ..)
  · rw [storeMessage_other msgAge h]
    exact .refl _

variable (env turn e)

theorem acceptMessage_grows (msgId : MessageId) (message : MessageView) :
    e.incoming.Grows (e.acceptMessage env turn msgId message).2.incoming := by
  by_cases hresult : (e.node.handleSpecial env turn msgId message).1 = .wasHandled
  · simp only [acceptMessage, hresult, if_true]
    exact .refl _
  · cases hp : e.incoming.find msgId with
    | none =>
      simp only [acceptMessage, hresult, if_false, findIncoming, hp]
      exact .refl _
    | some p =>
      simp only [acceptMessage, hresult, if_false, findIncoming, hp]
      split_ifs
      · exact push_grows (e := { e with node := _ }) p
      · exact .refl _

theorem store_grows (m : MessageId × MessageAge × MessageView) :
    e.incoming.Grows (e.store env turn m).incoming := by
  rw [store]
  split_ifs
  · have h := acceptMessage_grows env turn e m.1 m.2.2
    rw [processMessage]
    dsimp only
    split_ifs
    all_goals exact h
  · exact storeMessage_grows m.2.1

/-- The pointer is that of the queue to which messages of the id go, also in an
actor. -/
structure StoresAt (env : Environment ρ) (e : SubscribedEndpoint ρ) (msgId : MessageId) (p : ℕ)
    (queue : MessagePriorityQueue) : Prop where
  found : e.findIncoming msgId = some p
  points : e.incoming.read p = some queue
  stored : ∀ turn msgAge message, e.Stores env turn msgId message →
    (e.storeMessage env turn msgId msgAge message).incoming.read p =
      some (queue.push { message with toMessageInfo := message.addAge msgAge })
  accepted : ∀ turn message, e.Accepts env turn msgId message →
    (e.acceptMessage env turn msgId message).2.incoming.read p = some (queue.push message)

theorem storesAt_of_find {p : ℕ} (h : e.incoming.find msgId = some p) :
    ∃ queue, e.StoresAt env msgId p queue := by
  obtain ⟨queue,hq⟩ := Table.read_of_find h
  refine ⟨queue,h,hq,?_,?_⟩
  · intro turn msgAge message hs
    rw [storeMessage_stores msgAge hs, Table.ensure_of_find h, Table.update_read, hq]
    rfl
  · intro turn message ha
    rw [acceptMessage_accepts h ha, Table.update_read, hq]
    rfl

end SubscribedEndpoint

end Held

/-! ## The endpoint without counts -/

namespace EndpointIds.Endpoint

variable {ρ : Type} (env : Environment ρ) (turn : Turn) (msgId : MessageId)
  (message : MessageView) (incoming : MessageId → Option MessagePriorityQueue) (e : Endpoint ρ)

def withIncoming : Endpoint ρ := { e with incoming }

/-- The same answer, with other queues of received messages. -/
def carry {α : Type} (r : α × Endpoint ρ) : α × Endpoint ρ := (r.1,withIncoming incoming r.2)

theorem carry_fst {α : Type} (r : α × Endpoint ρ) : (carry incoming r).1 = r.1 := rfl

theorem carry_isTarget {α : Type} (r : α × Endpoint ρ) :
    (carry incoming r).2.isTarget message = r.2.isTarget message := rfl

theorem doSend_carry : (withIncoming incoming e).doSend turn msgId message =
    carry incoming (e.doSend turn msgId message) := by
  rw [doSend, doSend, apply_ite (carry incoming)]
  rfl

theorem post_carry : (withIncoming incoming e).post turn msgId message =
    carry incoming (e.post turn msgId message) := by
  rw [post, post, apply_ite (carry incoming), ← doSend_carry]
  rfl

theorem postAll_carry (posted : List Outbound) : (withIncoming incoming e).postAll turn posted =
    withIncoming incoming (e.postAll turn posted) := by
  induction posted generalizing e with
  | nil => rfl
  | cons p posted ih =>
    have hp := congrArg Prod.snd (post_carry turn p.1 p.2 incoming e)
    exact (congrArg (fun e : Endpoint ρ => e.postAll turn posted) hp).trans (ih _)

theorem postMetaMessage_carry (metaMsgId : MessageId) :
    (withIncoming incoming e).postMetaMessage env turn metaMsgId msgId =
      withIncoming incoming (e.postMetaMessage env turn metaMsgId msgId) := by
  rw [postMetaMessage, postMetaMessage]
  cases env.serializeMessageType msgId with
  | none => rfl
  | some data => exact congrArg Prod.snd (post_carry turn metaMsgId _ incoming e)

theorem handleAssignId_carry : (withIncoming incoming e).handleAssignId message =
    carry incoming (e.handleAssignId message) := by
  rw [handleAssignId, handleAssignId, carry]
  dsimp only
  rw [apply_ite (withIncoming incoming)]
  rfl

theorem handleConfirmId_carry : (withIncoming incoming e).handleConfirmId turn message =
    carry incoming (e.handleConfirmId turn message) := by
  have hpost := congrArg Prod.snd (post_carry turn (msgbusId .rtrCertQry) {} incoming
    { e with routerId := message.sourceId, endpointId := message.targetId })
  rw [handleConfirmId, handleConfirmId, carry]
  dsimp only
  rw [apply_ite (withIncoming incoming), apply_ite (withIncoming incoming)]
  exact congrArg (Prod.mk _) (congrArg (ite _ _) (congrArg (fun x => ite _ x _) hpost))

theorem handlePasswordRequest_carry :
    (withIncoming incoming e).handlePasswordRequest env turn message =
      carry incoming (e.handlePasswordRequest env turn message) := by
  rw [handlePasswordRequest, handlePasswordRequest, carry]
  dsimp only
  rw [apply_ite (withIncoming incoming), apply_ite (withIncoming incoming)]
  cases env.encryptSharedPassword message.data with
  | none => rfl
  | some encrypted =>
    have hsend := congrArg Prod.snd (doSend_carry turn (msgbusId .encRutrPwd)
      ⟨({} : MessageInfo).setupResponse message.toMessageInfo,encrypted⟩ incoming e)
    exact congrArg (Prod.mk _) (congrArg (fun x => ite _ (ite _ x _) _) hsend)

theorem handleOther_carry : (withIncoming incoming e).handleOther env turn msgId message =
    carry incoming (e.handleOther env turn msgId message) :=
  congrArg (Prod.mk _) (postAll_carry turn incoming { e with rest := _ } _)

theorem handleSpecial_carry : (withIncoming incoming e).handleSpecial env turn msgId message =
    carry incoming (e.handleSpecial env turn msgId message) := by
  have hother := handleOther_carry env turn msgId message incoming e
  by_cases hs : isSpecialMessage msgId = true
  · rw [handleSpecial, handleSpecial, if_pos hs, if_pos hs]
    cases msgId.method
    case assignId => exact handleAssignId_carry message incoming e
    case confirmId => exact handleConfirmId_carry turn message incoming e
    case reqRutrPwd => exact handlePasswordRequest_carry env turn message incoming e
    all_goals first | exact hother | rfl
  · rw [handleSpecial, handleSpecial, if_neg hs, if_neg hs]
    rfl

end EndpointIds.Endpoint

namespace SubscribedEndpoint

variable {ρ : Type} (env : Environment ρ) (turn : Turn) (e : SubscribedEndpoint ρ)
  (msgId : MessageId) (message : MessageView)

/-- The endpoint with its queues, but without counts and addresses. -/
def view : Endpoint ρ := e.node.withIncoming e.incoming.lookup

theorem view_enqueue {t : Table MessageId MessagePriorityQueue} {node : Endpoint ρ}
    (ht : t.lookup msgId = some (((e.incoming.lookup msgId).getD .empty).push message))
    (hother : ∀ id, id ≠ msgId → t.lookup id = e.incoming.lookup id) :
    node.withIncoming t.lookup =
      (node.withIncoming e.incoming.lookup).enqueue msgId message := by
  have hqueues : t.lookup = fun id => if id = msgId then
      some (((e.incoming.lookup id).getD .empty).push message) else e.incoming.lookup id := by
    funext id
    by_cases hid : id = msgId
    · rw [if_pos hid, hid, ht]
    · rw [if_neg hid, hother id hid]
  rw [hqueues]
  rfl

theorem storeMessage_node (h : e.Stores env turn msgId message) (msgAge : MessageAge) :
    (e.storeMessage env turn msgId msgAge message).node =
      (e.node.handleSpecial env turn msgId message).2 := by
  simp only [storeMessage, h.1, h.2, if_true]
  cases hp : e.incoming.find msgId with
  | some p =>
    simp only [findIncoming, hp]
    rfl
  | none =>
    simp only [findIncoming, hp]
    rfl

theorem handleSpecial_view : e.view.handleSpecial env turn msgId message =
    Endpoint.carry e.incoming.lookup (e.node.handleSpecial env turn msgId message) :=
  Endpoint.handleSpecial_carry ..

theorem storeMessage_view (msgAge : MessageAge) :
    (e.storeMessage env turn msgId msgAge message).view =
      e.view.storeMessage env turn msgId msgAge message := by
  rw [Endpoint.storeMessage, handleSpecial_view]
  dsimp only
  rw [Endpoint.carry_fst, Endpoint.carry_isTarget]
  by_cases h : e.Stores env turn msgId message
  · rw [if_pos h.1, if_pos h.2, view, storeMessage_node env turn e msgId message h,
      storeMessage_stores msgAge h]
    refine view_enqueue e msgId _ ?_ fun id hid => ?_
    · rw [Table.update_lookup _ Table.ensure_find, Table.ensure_lookup]
      rfl
    · rw [Table.update_lookup_other _ Table.ensure_find hid, Table.ensure_lookup_other hid]
  · rw [view, storeMessage_other msgAge h, storeMessage]
    dsimp only
    by_cases hresult : (e.node.handleSpecial env turn msgId message).1 = .shouldBeStored
    · have htarget : ¬ (e.node.handleSpecial env turn msgId message).2.isTarget message = true :=
        fun ht => h ⟨hresult,ht⟩
      rw [if_pos hresult, if_neg htarget, if_pos hresult, if_neg htarget]
      exact (congrArg Prod.snd (Endpoint.post_carry turn (msgbusId .notARouter) {}
        e.incoming.lookup _)).symm
    · rw [if_neg hresult, if_neg hresult]
      rfl

theorem push_view {p : ℕ} (hp : e.incoming.find msgId = some p) :
    (e.push p message).view = e.view.enqueue msgId message := by
  obtain ⟨queue,hq⟩ := Table.read_of_find hp
  have hin : (e.push p message).incoming = e.incoming.update p fun queue => queue.push message :=
    rfl
  rw [view, hin]
  refine view_enqueue e msgId message ?_ fun id hid => Table.update_lookup_other _ hp hid
  rw [Table.update_lookup _ hp, Table.lookup, hp, Option.bind_some, hq]
  rfl

theorem acceptMessage_view :
    ((e.acceptMessage env turn msgId message).1,(e.acceptMessage env turn msgId message).2.view) =
      e.view.acceptMessage env turn msgId message := by
  have hqueue : (Endpoint.carry e.incoming.lookup
      (e.node.handleSpecial env turn msgId message)).2.incoming msgId =
        e.incoming.lookup msgId := rfl
  rw [Endpoint.acceptMessage, handleSpecial_view, acceptMessage]
  dsimp only
  rw [Endpoint.carry_fst, Endpoint.carry_isTarget, hqueue, findIncoming, Table.lookup]
  by_cases hresult : (e.node.handleSpecial env turn msgId message).1 = .wasHandled
  · rw [if_pos hresult, if_pos hresult]
    rfl
  · rw [if_neg hresult, if_neg hresult]
    cases hp : e.incoming.find msgId with
    | none => rfl
    | some p =>
      obtain ⟨queue,hq⟩ := Table.read_of_find hp
      have hpush := push_view
        { e with node := (e.node.handleSpecial env turn msgId message).2 } msgId message hp
      rw [Option.bind_some, hq]
      refine congrArg (Prod.mk true) ?_
      dsimp only
      rw [apply_ite view, hpush]
      rfl

/-- Counts and addresses do not matter to which messages are stored. -/
theorem store_view (m : MessageId × MessageAge × MessageView) :
    (e.store env turn m).view = e.view.store env turn m := by
  rw [store, Endpoint.store]
  split_ifs
  · have h := acceptMessage_view env turn e m.1 m.2.2
    rw [processMessage, Endpoint.processMessage, ← h]
    dsimp only
    split_ifs
    · rfl
    · rfl
    · exact (Endpoint.postMetaMessage_carry ..).symm
  · exact storeMessage_view env turn e m.1 m.2.2 m.2.1

end SubscribedEndpoint

/-! ## Subscribers of one endpoint -/

namespace SubscriberRun

variable {ρ σ : Type}

/-- Subscribers are known by their position; those that are gone keep it. -/
structure State (ρ σ : Type) where
  endpoint : SubscribedEndpoint ρ
  subscribers : List (Subscriber σ) := []
  program : σ

/-- Whatever else an endpoint does is an `other` event: it leaves the incoming
messages alone. -/
inductive Event (ρ σ : Type) where
  | constructStatic (handlers : List (MessageId × ProcessHandler σ))
  | destroyStatic (n : ℕ)
  | construct
  | addMethod (n : ℕ) (msgId : MessageId) (handler : ProcessHandler σ)
  | init (n : ℕ)
  | finish (n : ℕ) (turn : Turn)
  | store (turn : Turn) (m : MessageId × MessageAge × MessageView)
  | processOne (n : ℕ)
  | processAll (n : ℕ)
  | other (change : Endpoint ρ → Endpoint ρ)

namespace State

def liveHandlers (s : State ρ σ) : List (HandlerEntry σ) :=
  s.subscribers.flatMap Subscriber.liveHandlers

def change (s : State ρ σ) (n : ℕ)
    (f : Subscriber σ → SubscribedEndpoint ρ → Subscriber σ × SubscribedEndpoint ρ) :
    State ρ σ :=
  match s.subscribers[n]? with
  | some subscriber =>
    let (subscriber,endpoint) := f subscriber s.endpoint
    { s with endpoint, subscribers := s.subscribers.set n subscriber }
  | none => s

def process (s : State ρ σ) (n : ℕ)
    (f : List (HandlerEntry σ) → SubscribedEndpoint ρ → σ → Bool × SubscribedEndpoint ρ × σ) :
    State ρ σ :=
  match s.subscribers[n]? with
  | some subscriber =>
    let (_,endpoint,program) := f subscriber.msgHandlers s.endpoint s.program
    { s with endpoint, program }
  | none => s

/-- There is a subscriber of the kind at the position, live or not. -/
def Has (s : State ρ σ) (n : ℕ) (isStatic live : Bool) : Prop :=
  s.subscribers[n]?.map (fun subscriber => (subscriber.isStatic,subscriber.live)) =
    some (isStatic,live)

instance (s : State ρ σ) (n : ℕ) (isStatic live : Bool) : Decidable (s.Has n isStatic live) :=
  inferInstanceAs (Decidable (_ = _))

end State

def step (env : Environment ρ) (s : State ρ σ) : Event ρ σ → State ρ σ
  | .constructStatic handlers =>
    let (subscriber,endpoint) := Subscriber.construct handlers s.endpoint
    { s with endpoint, subscribers := s.subscribers ++ [subscriber] }
  | .destroyStatic n => s.change n Subscriber.destroy
  | .construct => { s with subscribers := s.subscribers ++ [{ isStatic := false }] }
  | .addMethod n msgId handler =>
    s.change n fun subscriber endpoint => (subscriber.addMethod msgId handler,endpoint)
  | .init n => s.change n Subscriber.init
  | .finish n turn => s.change n (Subscriber.finish turn)
  | .store turn m => { s with endpoint := s.endpoint.store env turn m }
  | .processOne n => s.process n SubscribedEndpoint.processOne
  | .processAll n => s.process n SubscribedEndpoint.processAll
  | .other change => { s with endpoint := { s.endpoint with node := change s.endpoint.node } }

/-- A static subscriber is destroyed once; `init` and `finish` of another one
alternate, and handlers are added before `init` or after `finish`. -/
def Lifetimes (s : State ρ σ) : Event ρ σ → Prop
  | .destroyStatic n => s.Has n true true
  | .addMethod n _ _ => s.Has n false false
  | .init n => s.Has n false false
  | .finish n _ => s.Has n false true
  | .processOne n | .processAll n => s.Has n true true ∨ s.Has n false true
  | .constructStatic _ | .construct | .store _ _ | .other _ => True

instance (s : State ρ σ) : (event : Event ρ σ) → Decidable (Lifetimes s event)
  | .destroyStatic n => inferInstanceAs (Decidable (s.Has n true true))
  | .addMethod n _ _ | .init n => inferInstanceAs (Decidable (s.Has n false false))
  | .finish n _ => inferInstanceAs (Decidable (s.Has n false true))
  | .processOne n | .processAll n =>
    inferInstanceAs (Decidable (s.Has n true true ∨ s.Has n false true))
  | .constructStatic _ | .construct | .store _ _ | .other _ => inferInstanceAs (Decidable True)

def start (node : Endpoint ρ) (program : σ) : State ρ σ := { endpoint := { node }, program }

def Inv (s : State ρ σ) : Prop := Held s.endpoint.incoming s.liveHandlers

/-- One subscriber and the others. -/
theorem exists_others {subscribers : List (Subscriber σ)} {n : ℕ} {subscriber : Subscriber σ}
    (h : subscribers[n]? = some subscriber) : ∃ others,
      (subscribers.flatMap Subscriber.liveHandlers).Perm (others++subscriber.liveHandlers) ∧
      ∀ changed, ((subscribers.set n changed).flatMap Subscriber.liveHandlers).Perm
        (others++changed.liveHandlers) := by
  induction subscribers generalizing n with
  | nil => cases h
  | cons first rest ih =>
    cases n with
    | zero =>
      cases h
      exact ⟨rest.flatMap Subscriber.liveHandlers,List.perm_append_comm,
        fun _ => List.perm_append_comm⟩
    | succ n =>
      obtain ⟨others,hp,hset⟩ := ih (n := n) h
      refine ⟨first.liveHandlers++others,?_,fun changed => ?_⟩
      · rw [List.flatMap_cons, List.append_assoc]
        exact hp.append_left _
      · rw [List.set_cons_succ, List.flatMap_cons, List.append_assoc]
        exact (hset changed).append_left _

section Steps

variable {env : Environment ρ} {s : State ρ σ} {n : ℕ}

/-- What one step keeps: the invariant, and the cells of ids with entries. -/
def Keeps (s s' : State ρ σ) : Prop :=
  Inv s' ∧ Stay s.endpoint.incoming s'.endpoint.incoming s'.liveHandlers

theorem keeps_grow {s' : State ρ σ} (h : Inv s) (hlive : s'.liveHandlers = s.liveHandlers)
    (hgrow : s.endpoint.incoming.Grows s'.endpoint.incoming) : Keeps s s' := by
  refine ⟨?_,fun msgId p hp _ => hgrow.1 msgId p hp⟩
  rw [Inv, hlive]
  exact h.grow hgrow

theorem liveHandlers_snoc (subscribers : List (Subscriber σ)) (subscriber : Subscriber σ) :
    (subscribers++[subscriber]).flatMap Subscriber.liveHandlers =
      subscribers.flatMap Subscriber.liveHandlers++subscriber.liveHandlers := by
  rw [List.flatMap_append, List.flatMap_singleton]

theorem has_some {isStatic live : Bool} (h : s.Has n isStatic live) :
    ∃ subscriber, s.subscribers[n]? = some subscriber ∧ subscriber.live = live := by
  obtain ⟨subscriber,hs,he⟩ := Option.map_eq_some_iff.mp h
  exact ⟨subscriber,hs,congrArg Prod.snd he⟩

theorem change_some {f : Subscriber σ → SubscribedEndpoint ρ → Subscriber σ × SubscribedEndpoint ρ}
    {subscriber : Subscriber σ} (h : s.subscribers[n]? = some subscriber) :
    s.change n f = { s with
      endpoint := (f subscriber s.endpoint).2
      subscribers := s.subscribers.set n (f subscriber s.endpoint).1 } := by
  rw [State.change, h]

/-- A subscriber comes to life with the entries it has. -/
theorem keeps_init (h : Inv s) (hhas : s.Has n false false) :
    Keeps s (s.change n Subscriber.init) := by
  obtain ⟨subscriber,hs,hlive⟩ := has_some hhas
  obtain ⟨others,hp,hset⟩ := exists_others hs
  have hothers : Held s.endpoint.incoming others := by
    have hperm := h.perm hp
    rwa [Subscriber.liveHandlers, hlive, if_neg Bool.false_ne_true, List.append_nil] at hperm
  obtain ⟨hheld,hfind⟩ := Subscriber.init_held (s := subscriber) hothers
  rw [change_some hs]
  exact ⟨hheld.perm (hset (subscriber.init s.endpoint).1).symm,fun msgId p hq _ => hfind msgId p hq⟩

theorem keeps_addMethod {msgId : MessageId} {handler : ProcessHandler σ} (h : Inv s)
    (hhas : s.Has n false false) : Keeps s (s.change n fun subscriber endpoint =>
      (subscriber.addMethod msgId handler,endpoint)) := by
  obtain ⟨subscriber,hs,hlive⟩ := has_some hhas
  obtain ⟨others,hp,hset⟩ := exists_others hs
  have hadd : (subscriber.addMethod msgId handler).liveHandlers = subscriber.liveHandlers := by
    rw [Subscriber.liveHandlers, Subscriber.liveHandlers, hlive]
    exact if_neg (hlive ▸ Bool.false_ne_true)
  have hsame := hset (subscriber.addMethod msgId handler)
  rw [hadd] at hsame
  rw [change_some hs]
  exact ⟨h.perm (hp.trans hsame.symm),fun msgId p hq _ => hq⟩

/-- A live subscriber lets go of all its entries. -/
theorem keeps_unsubscribe
    {f : Subscriber σ → SubscribedEndpoint ρ → Subscriber σ × SubscribedEndpoint ρ}
    (h : Inv s) {isStatic : Bool} (hhas : s.Has n isStatic true)
    (hf : ∀ subscriber e, (f subscriber e).1.live = false ∧
      (f subscriber e).2.incoming = (e.unsubscribeFrom subscriber.msgHandlers).incoming) :
    Keeps s (s.change n f) := by
  obtain ⟨subscriber,hs,hlive⟩ := has_some hhas
  obtain ⟨others,hp,hset⟩ := exists_others hs
  have hheld : Held s.endpoint.incoming (others++subscriber.msgHandlers) := by
    have hperm := h.perm hp
    rwa [Subscriber.liveHandlers, hlive, if_pos rfl] at hperm
  obtain ⟨hleft,hstay⟩ := Subscriber.unsubscribeFrom_held hheld
  have hrest : ((s.subscribers.set n (f subscriber s.endpoint).1).flatMap
      Subscriber.liveHandlers).Perm others := by
    have hperm := hset (f subscriber s.endpoint).1
    rwa [Subscriber.liveHandlers, (hf subscriber s.endpoint).1, if_neg Bool.false_ne_true,
      List.append_nil] at hperm
  rw [change_some hs, Keeps, Inv, (hf subscriber s.endpoint).2]
  refine ⟨hleft.perm hrest.symm,fun msgId p hq hpos => hstay msgId p hq ?_⟩
  rwa [State.liveHandlers, entryCount_perm hrest] at hpos

theorem keeps_process
    {f : List (HandlerEntry σ) → SubscribedEndpoint ρ → σ → Bool × SubscribedEndpoint ρ × σ}
    (h : Inv s) (hf : ∀ entries (e : SubscribedEndpoint ρ) st,
      e.incoming.Grows (f entries e st).2.1.incoming) :
    Keeps s (s.process n f) := by
  cases hs : s.subscribers[n]? with
  | none =>
    rw [State.process, hs]
    exact keeps_grow h rfl (.refl _)
  | some subscriber =>
    rw [State.process, hs]
    exact keeps_grow h rfl (hf ..)

theorem step_keeps (env : Environment ρ) (s : State ρ σ) (event : Event ρ σ) (h : Inv s)
    (hok : Lifetimes s event) : Keeps s (step env s event) := by
  cases event with
  | constructStatic handlers =>
    obtain ⟨hheld,hfind⟩ := Subscriber.construct_held handlers h
    have hlive : (step env s (.constructStatic handlers)).liveHandlers =
        s.liveHandlers++(Subscriber.construct handlers s.endpoint).1.msgHandlers :=
      liveHandlers_snoc s.subscribers _
    refine ⟨?_,fun msgId p hp _ => hfind msgId p hp⟩
    rw [Inv, hlive]
    exact hheld
  | destroyStatic n => exact keeps_unsubscribe h hok fun _ _ => ⟨rfl,rfl⟩
  | construct =>
    refine keeps_grow h ?_ (.refl _)
    exact (liveHandlers_snoc s.subscribers _).trans (List.append_nil _)
  | addMethod n msgId handler => exact keeps_addMethod h hok
  | init n => exact keeps_init h hok
  | finish n turn => exact keeps_unsubscribe h hok fun _ _ => ⟨rfl,rfl⟩
  | store turn m => exact keeps_grow h rfl (SubscribedEndpoint.store_grows env turn s.endpoint m)
  | processOne n => exact keeps_process h SubscribedEndpoint.processOne_grows
  | processAll n => exact keeps_process h SubscribedEndpoint.processAll_grows
  | other change => exact keeps_grow h rfl (.refl _)

end Steps

/-- Each id has as many subscriptions as live entries, and each live entry
points at the queue to which messages of its id go. -/
structure Counted (env : Environment ρ) (s : State ρ σ) : Prop where
  counts : ∀ msgId, s.endpoint.subscriptionCount msgId = entryCount s.liveHandlers msgId
  queues : ∀ entry ∈ s.liveHandlers, ∃ p queue, entry.queue = some p ∧
    s.endpoint.StoresAt env entry.msgId p queue

theorem Inv.counted {s : State ρ σ} (h : Inv s) (env : Environment ρ) : Counted env s where
  counts := h.counts
  queues entry hentry := by
    obtain ⟨p,hp,hq⟩ := h.queues entry hentry
    obtain ⟨queue,hqueue⟩ := SubscribedEndpoint.storesAt_of_find env s.endpoint hq
    exact ⟨p,queue,hp,hqueue⟩

theorem start_inv (node : Endpoint ρ) (program : σ) : Inv (start node program) where
  counts _ := rfl
  queues _ h := nomatch h

/-- In all lifetimes of subscribers, with any messages in between, the counts
and the pointers are right, and no queue is erased that still has an entry. -/
theorem subscriptions_counted (env : Environment ρ) (node : Endpoint ρ) (program : σ)
    (events : List (Event ρ σ)) (h : Steps (step env) Lifetimes (start node program) events) :
    Always (step env) (Counted env) (start node program) events ∧
      Steps (step env) (fun s event => Stay s.endpoint.incoming
        (step env s event).endpoint.incoming (step env s event).liveHandlers)
        (start node program) events := by
  have hstep (s : State ρ σ) (event : Event ρ σ) (hs : Inv s) (hok : Lifetimes s event) :
      Inv (step env s event) := (step_keeps env s event hs hok).1
  constructor
  · have hinv := always_of_invariant hstep (start_inv node program) h
    exact always_mono (fun s hs => Inv.counted hs env) hinv
  · exact steps_of_invariant hstep (fun s event hs hok => (step_keeps env s event hs hok).2)
      (start_inv node program) h

/-- A message that nobody waits for, then a static subscriber with one id
twice, then another one with the same id that outlives it. -/
def overlapping : List (Event Unit Unit) := [
  .store ⟨0,fun _ _ _ => true,true,[]⟩ (⟨.other 1,.other 1⟩,0,{}),
  .constructStatic [(⟨.other 1,.other 1⟩,fun st _ => (true,st)),
    (⟨.other 1,.other 1⟩,fun st _ => (true,st))],
  .construct,
  .addMethod 1 ⟨.other 1,.other 1⟩ fun st _ => (true,st),
  .init 1,
  .destroyStatic 0,
  .store ⟨0,fun _ _ _ => true,true,[]⟩ (⟨.other 1,.other 1⟩,0,{}),
  .processAll 1,
  .finish 1 ⟨0,fun _ _ _ => true,true,[]⟩]

theorem overlapping_counted :
    Always (step Endpoint.sampleEnvironment) (Counted Endpoint.sampleEnvironment)
        (start (Endpoint.start 11 ⟨1000,5⟩ ()) ()) overlapping ∧
      Steps (step Endpoint.sampleEnvironment) (fun s event => Stay s.endpoint.incoming
        (step Endpoint.sampleEnvironment s event).endpoint.incoming
        (step Endpoint.sampleEnvironment s event).liveHandlers)
        (start (Endpoint.start 11 ⟨1000,5⟩ ()) ()) overlapping :=
  subscriptions_counted Endpoint.sampleEnvironment (Endpoint.start 11 ⟨1000,5⟩ ()) () overlapping
    (by decide)

example : (run (step Endpoint.sampleEnvironment) (start (Endpoint.start 11 ⟨1000,5⟩ ()) ())
    (overlapping.take 5)).endpoint.subscriptionCount ⟨.other 1,.other 1⟩ = 3 := by decide

end SubscriberRun

end MsgBus
