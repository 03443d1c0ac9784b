import Mathlib.Algebra.Order.Group.Multiset
import MsgBus.Lib.StepRun
import MsgBus.SampleSerializer

/-!
# What a connection offers to its handler

An inbox is the incoming queue of a connection with the state of its handlers
and the messages received and accepted so far. Each fetch brings its own
handler, as when a pending connection of a router is adopted. The second
storage is drained only when the first one was not empty, a refused message
with too many hops is dropped with the accepted ones, and the result of a fetch
is always false.
-/

set_option autoImplicit false

namespace MsgBus.IncomingFetch

open StepRun

abbrev Received := MessageId × MessageView

/-- The handler with a record of what it was offered and what it took. -/
def recorded {σ : Type} (handler : FetchHandler σ) : FetchHandler (σ × List (Received × Bool)) :=
  fun st msgId age message =>
    let (taken,inner) := handler st.1 msgId age message
    (taken,inner,st.2 ++ [((msgId,message),taken)])

structure Inbox (σ : Type) where
  incoming : ConnectionIncomingMessages := {}
  state : σ
  received : Multiset Received := 0
  accepted : Multiset Received := 0

inductive Event (σ : Type) where
  | push (now : ℕ) (data : Block)
  | fetch (now : ℕ) (handler : FetchHandler σ)

variable {σ : Type} (backend : SerializerBackend) (sized : SizedBlocks)

namespace Inbox

variable (inbox : Inbox σ)

def waiting : Multiset Received := inbox.received-inbox.accepted

def fetch (now : ℕ) (handler : FetchHandler σ) :
    Bool × ConnectionIncomingMessages × σ × List (Received × Bool) :=
  inbox.incoming.fetchMessages backend sized now (recorded handler) (inbox.state,[])

/-- The messages that a fetch offers, each with the answer of the handler. -/
def offers (now : ℕ) (handler : FetchHandler σ) : List (Received × Bool) :=
  (inbox.fetch backend sized now handler).2.2.2

def step : Event σ → Inbox σ
  | .push now data => { inbox with
      incoming := inbox.incoming.push now data
      received := inbox.received+↑(ConnectionIncomingMessages.decoded backend sized data) }
  | .fetch now handler => { inbox with
      incoming := (inbox.fetch backend sized now handler).2.1
      state := (inbox.fetch backend sized now handler).2.2.1
      accepted := inbox.accepted+
        ↑(((inbox.offers backend sized now handler).filter Prod.snd).map Prod.fst) }

/-- Every waiting message is offered, and the result tells whether one was accepted. -/
def Right (inbox : Inbox σ) : Event σ → Prop
  | .push _ _ => True
  | .fetch now handler =>
    inbox.waiting ≤ ↑((inbox.offers backend sized now handler).map Prod.fst) ∧
    (inbox.fetch backend sized now handler).1 =
      (inbox.offers backend sized now handler).any Prod.snd

/-- A block has arrived or nothing was left unpacked, and a refused message
has not made too many hops. -/
def Served (inbox : Inbox σ) : Event σ → Prop
  | .push _ _ => True
  | .fetch now handler =>
    (inbox.incoming.packed.messages ≠ [] ∨ inbox.incoming.unpacked.messages = []) ∧
    ∀ o ∈ inbox.offers backend sized now handler, o.2 = false → o.1.2.tooManyHops = false

/-- The handler of the fetch refuses all it is offered. -/
def Refusing (inbox : Inbox σ) : Event σ → Prop
  | .push _ _ => True
  | .fetch now handler => ∀ o ∈ inbox.offers backend sized now handler, o.2 = false

/-- What both storages hold. -/
def held : List Received :=
  (inbox.incoming.unpacked.messages ++ inbox.incoming.arrived backend sized).map fun entry =>
    (entry.msgId,entry.message)

/-- Nothing was lost: what was received was accepted or is held. -/
def Accounted : Prop :=
  inbox.received = inbox.accepted+↑(inbox.held backend sized)

end Inbox

def toReceived (entry : StoredMessage) : Received := (entry.msgId,entry.message)

/-- The handler as it is called on the entries of the second storage. -/
def onEntry (now : ℕ) (handler : FetchHandler σ) (st : σ × List (Received × Bool))
    (entry : StoredMessage) : Bool × σ × List (Received × Bool) :=
  recorded handler st entry.msgId (entry.age now) entry.message

/-- The record tells the taken entries from the refused ones. -/
theorem handled_recorded (now : ℕ) (handler : FetchHandler σ) (entries : List StoredMessage)
    (st : σ × List (Received × Bool)) : ∃ log : List (Received × Bool),
    (handled (onEntry now handler) entries st).2.2.2 = st.2 ++ log ∧
    log.map Prod.fst = entries.map toReceived ∧
    (log.filter Prod.snd).map Prod.fst =
      (handled (onEntry now handler) entries st).1.map toReceived ∧
    (log.filter fun o => !o.2).map Prod.fst =
      (handled (onEntry now handler) entries st).2.1.map toReceived := by
  induction entries generalizing st with
  | nil => exact ⟨[],(List.append_nil _).symm,rfl,rfl,rfl⟩
  | cons entry entries ih =>
    obtain ⟨log,hlog,hall,htaken,hrefused⟩ := ih (onEntry now handler st entry).2
    refine ⟨(toReceived entry,(onEntry now handler st entry).1)::log,?_,?_,?_,?_⟩
    · simp only [handled]
      split_ifs <;> simpa [onEntry, recorded, toReceived] using hlog
    · rw [List.map_cons, hall, List.map_cons]
    · simp only [handled]
      split_ifs with h <;> simp [h, htaken]
    · simp only [handled]
      split_ifs with h <;> simp [h, hrefused]

namespace Inbox

variable (inbox : Inbox σ) (now : ℕ) (handler : FetchHandler σ)

theorem fetch_returns : (inbox.fetch backend sized now handler).1 = false := by
  rw [fetch, ConnectionIncomingMessages.fetchMessages_eq]
  split_ifs <;> rfl

/-- Without a new block nothing is offered and nothing changes. -/
theorem fetch_idle (h : inbox.incoming.packed.messages = []) :
    inbox.fetch backend sized now handler = (false,inbox.incoming,inbox.state,[]) := by
  rw [fetch, ConnectionIncomingMessages.fetchMessages_eq, if_pos h]

/-- With a new block everything held is offered; the refused messages are
kept unless they made too many hops. -/
theorem fetch_offers (h : inbox.incoming.packed.messages ≠ []) :
    (inbox.offers backend sized now handler).map Prod.fst = inbox.held backend sized ∧
    ((inbox.step backend sized (.fetch now handler)).held backend sized) =
      ((inbox.offers backend sized now handler).filter
        fun o => !o.2 && !o.1.2.tooManyHops).map Prod.fst := by
  obtain ⟨log,hlog,hall,-,hrefused⟩ := handled_recorded now handler
    (inbox.incoming.unpacked.messages ++ inbox.incoming.arrived backend sized) (inbox.state,[])
  have hfetch : inbox.fetch backend sized now handler = _ :=
    (ConnectionIncomingMessages.fetchMessages_eq backend sized now (recorded handler)
      inbox.incoming (inbox.state,[])).trans (if_neg h)
  have hoffers : inbox.offers backend sized now handler = log := by
    rw [offers, hfetch]
    exact hlog
  refine ⟨by rw [hoffers, hall]; rfl,?_⟩
  rw [hoffers]
  have hstep : (inbox.step backend sized (.fetch now handler)).incoming =
      ⟨{},⟨(handled (onEntry now handler) (inbox.incoming.unpacked.messages ++
        inbox.incoming.arrived backend sized) (inbox.state,[])).2.1.filter
          fun entry => !entry.message.tooManyHops⟩⟩ := by
    rw [step, hfetch]
    rfl
  have hkept := congrArg (List.filter fun m : Received => !m.2.tooManyHops) hrefused
  rw [List.filter_map, List.filter_map, List.filter_filter] at hkept
  rw [held, hstep]
  simp only [ConnectionIncomingMessages.arrived, List.flatMap_nil, List.append_nil]
  exact hkept.symm.trans (by
    congr 2
    funext o
    exact Bool.and_comm _ _)

theorem waiting_held (h : inbox.Accounted backend sized) :
    inbox.waiting = ↑(inbox.held backend sized) := by
  rw [waiting, h, add_tsub_cancel_left]

/-- A push adds to what is held what it adds to what was received. -/
theorem push_accounted (data : Block) (h : inbox.Accounted backend sized) :
    (inbox.step backend sized (.push now data)).Accounted backend sized := by
  have hheld : (inbox.step backend sized (.push now data)).held backend sized =
      inbox.held backend sized ++ ConnectionIncomingMessages.decoded backend sized data := by
    simp only [held, step, ConnectionIncomingMessages.push, ConnectionIncomingMessages.arrived,
      SerializedMessageStorage.push]
    split_ifs with hd
    · rw [hd, ConnectionIncomingMessages.decoded_nil, List.append_nil]
    · simp [Function.comp_def]
  unfold Accounted at h ⊢
  rw [hheld]
  simp only [step, h, ← Multiset.coe_add, add_assoc]

theorem fetch_accounted (h : inbox.Accounted backend sized)
    (hs : inbox.Served backend sized (.fetch now handler)) :
    (inbox.step backend sized (.fetch now handler)).Accounted backend sized := by
  by_cases hp : inbox.incoming.packed.messages = []
  · have hf := inbox.fetch_idle backend sized now handler hp
    simpa [Accounted, step, offers, hf, held] using h
  · obtain ⟨hall,hheld⟩ := inbox.fetch_offers backend sized now handler hp
    have hfilter : (inbox.offers backend sized now handler).filter
          (fun o => !o.2 && !o.1.2.tooManyHops) =
        (inbox.offers backend sized now handler).filter fun o => !o.2 := by
      apply List.filter_congr
      intro o ho
      cases hb : o.2 with
      | true => rfl
      | false => simp [hs.2 o ho hb]
    unfold Accounted at h ⊢
    rw [hheld, hfilter]
    simp only [step]
    rw [h, ← hall, add_assoc, Multiset.coe_add, ← List.map_append]
    congr 1
    exact Multiset.coe_eq_coe.mpr ((List.filter_append_perm Prod.snd _).symm.map Prod.fst)

theorem step_accounted (e : Event σ) (h : inbox.Accounted backend sized)
    (hs : inbox.Served backend sized e) : (inbox.step backend sized e).Accounted backend sized := by
  cases e with
  | push now data => exact inbox.push_accounted backend sized now data h
  | fetch now handler => exact inbox.fetch_accounted backend sized now handler h hs

/-- A served fetch offers just the waiting messages; its result is right
exactly if its handler refuses them all. -/
theorem served_right (e : Event σ) (h : inbox.Accounted backend sized)
    (hs : inbox.Served backend sized e) :
    inbox.Right backend sized e ↔ inbox.Refusing backend sized e := by
  cases e with
  | push now data => exact Iff.rfl
  | fetch now handler =>
    have hall : inbox.waiting = ↑((inbox.offers backend sized now handler).map Prod.fst) := by
      rw [inbox.waiting_held backend sized h]
      by_cases hp : inbox.incoming.packed.messages = []
      · have hf := inbox.fetch_idle backend sized now handler hp
        have hu : inbox.incoming.unpacked.messages = [] :=
          hs.1.resolve_left fun hne => hne hp
        simp [held, offers, hf, hu, ConnectionIncomingMessages.arrived, hp]
      · rw [(inbox.fetch_offers backend sized now handler hp).1]
    simp only [Right, Refusing, hall, le_refl, true_and, fetch_returns]
    rw [eq_comm, List.any_eq_false]
    simp only [Bool.not_eq_true]

end Inbox

theorem start_accounted (st : σ) : Inbox.Accounted backend sized ⟨{},st,0,0⟩ := rfl

/-- In a run whose fetches are all served, each fetch offers every waiting
message and returns the right result exactly if its handler accepts none. -/
theorem served_fetches_right (st : σ) (events : List (Event σ))
    (h : Steps (Inbox.step backend sized) (Inbox.Served backend sized) ⟨{},st,0,0⟩ events) :
    Steps (Inbox.step backend sized)
      (fun inbox e => inbox.Right backend sized e ↔ inbox.Refusing backend sized e)
      ⟨{},st,0,0⟩ events :=
  steps_of_invariant (fun inbox e => inbox.step_accounted backend sized e)
    (fun inbox e => inbox.served_right backend sized e) (start_accounted backend sized st) h

def refuseAll : FetchHandler Unit := fun st _ _ _ => (false,st)

def takeAll : FetchHandler Unit := fun st _ _ _ => (true,st)

/-- One sized block with a message of the bus. -/
def pingBlock : Block := [0,17,0,0,0,11,0,0,0,0,0,0,0,0,0,0,2,0,7]

def pingMessage : Received := (msgbusId .ping,{ data := [7] })

/-- Two pings are refused in the rounds in which they arrive. -/
theorem refused_pings_right :
    Steps (Inbox.step sampleBackend sampleSized)
      (fun inbox e => inbox.Right sampleBackend sampleSized e ↔
        inbox.Refusing sampleBackend sampleSized e)
      ⟨{},(),0,0⟩ [.push 0 pingBlock,.fetch 1 refuseAll,.push 2 pingBlock,.fetch 3 refuseAll] := by
  apply served_fetches_right
  refine ⟨trivial,⟨Or.inl ?_,?_⟩,trivial,⟨Or.inl ?_,?_⟩,trivial⟩ <;> decide

/-- The ping is refused by a first handler; without a new block the second
one is not even asked. -/
theorem refused_ping_stranded :
    ¬ Steps (Inbox.step sampleBackend sampleSized) (Inbox.Right sampleBackend sampleSized)
      ⟨{},(),0,0⟩ [.push 0 pingBlock,.fetch 1 refuseAll,.fetch 2 takeAll] := by
  intro h
  have hwaiting : ({pingMessage} : Multiset Received) ≤ 0 := h.2.2.1.1
  exact absurd hwaiting (by decide)

end MsgBus.IncomingFetch
