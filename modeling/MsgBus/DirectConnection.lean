import Mathlib.Data.List.Induction
import Mathlib.Tactic.Abel
import MsgBus.IncomingFetch

/-!
# Direct connections

Each direction is a pair of message storages. A send goes to the next one; a
fetch swaps the two under the lock and hands the current one to its handler
without it, so the other side may go on sending meanwhile.
-/

set_option autoImplicit false

namespace MsgBus

structure DirectConnectionState where
  serverToClient : DoubleBuffer MessageStorage := ⟨{},{}⟩
  clientToServer : DoubleBuffer MessageStorage := ⟨{},{}⟩
  clientConnected : Bool := false
  deriving DecidableEq, Repr

namespace DirectConnectionState

def clientConnect (s : DirectConnectionState) : DirectConnectionState :=
  { s with clientConnected := true }

def sendToServer (entry : StoredMessage) (s : DirectConnectionState) : DirectConnectionState :=
  { s with clientToServer := { s.clientToServer with
      next := s.clientToServer.next.pushIf (some entry) } }

def sendToClient (entry : StoredMessage) (s : DirectConnectionState) :
    Bool × DirectConnectionState :=
  if s.clientConnected then
    (true,{ s with serverToClient := { s.serverToClient with
      next := s.serverToClient.next.pushIf (some entry) } })
  else (false,s)

variable {σ : Type}

/-- The client may send while the handler of the server is busy. -/
def fetchFromClient (now : ℕ) (handler : FetchHandler σ) (meanwhile : List StoredMessage)
    (s : DirectConnectionState) (st : σ) : (Bool × Bool) × DirectConnectionState × σ :=
  let s := { s with clientToServer := s.clientToServer.swap }
  let s := meanwhile.foldl (fun s entry => s.sendToServer entry) s
  let (fetchedSome,current,st) := s.clientToServer.current.fetchAll now handler st
  ((fetchedSome,s.clientConnected),
    { s with clientToServer := { s.clientToServer with current } },st)

/-- The server may send while the handler of the client is busy. -/
def fetchFromServer (now : ℕ) (handler : FetchHandler σ) (meanwhile : List StoredMessage)
    (s : DirectConnectionState) (st : σ) : Bool × DirectConnectionState × σ :=
  let s := { s with serverToClient := s.serverToClient.swap }
  let s := meanwhile.foldl (fun s entry => (s.sendToClient entry).2) s
  let (fetchedSome,current,st) := s.serverToClient.current.fetchAll now handler st
  (fetchedSome,{ s with serverToClient := { s.serverToClient with current } },st)

end DirectConnectionState

namespace DirectConnection

open StepRun
open IncomingFetch (Received recorded onEntry toReceived handled_recorded)

/-- The side that reads, with what it was sent and what it has accepted. -/
structure Reader (σ : Type) where
  state : σ
  sent : List Received := []
  accepted : List Received := []

structure Run (σ : Type) where
  connection : DirectConnectionState
  server : Reader σ
  client : Reader σ

inductive Event (σ : Type) where
  | sendToServer (entry : StoredMessage)
  | sendToClient (entry : StoredMessage)
  | fetchFromClient (now : ℕ) (handler : FetchHandler σ) (meanwhile : List StoredMessage)
  | fetchFromServer (now : ℕ) (handler : FetchHandler σ) (meanwhile : List StoredMessage)

variable {σ : Type}

def Reader.send (entries : List StoredMessage) (r : Reader σ) : Reader σ :=
  { r with sent := r.sent++entries.map toReceived }

/-- The handler is done and has answered these offers. -/
def Reader.fetched (st : σ × List (Received × Bool)) (r : Reader σ) : Reader σ :=
  { r with
    state := st.1
    accepted := r.accepted++(st.2.filter Prod.snd).map Prod.fst }

def step (s : Run σ) : Event σ → Run σ
  | .sendToServer entry => { s with
      connection := s.connection.sendToServer entry
      server := s.server.send [entry] }
  | .sendToClient entry =>
    let sent := s.connection.sendToClient entry
    if sent.1 then { s with
      connection := sent.2
      client := s.client.send [entry] }
    else { s with connection := sent.2 }
  | .fetchFromClient now handler meanwhile =>
    let fetched := s.connection.fetchFromClient now (recorded handler) meanwhile (s.server.state,[])
    { s with
      connection := fetched.2.1
      server := (s.server.send meanwhile).fetched fetched.2.2 }
  | .fetchFromServer now handler meanwhile =>
    let fetched := s.connection.fetchFromServer now (recorded handler) meanwhile (s.client.state,[])
    { s with
      connection := fetched.2.1
      client := (s.client.send (if s.connection.clientConnected then meanwhile else [])).fetched
        fetched.2.2 }

inductive Side where
  | server
  | client
  deriving DecidableEq, Repr

/-- What the event makes the connection hand to the handler of the side, each
with the answer of the handler. -/
def Run.offered (s : Run σ) : Side → Event σ → List (Received × Bool)
  | .server, .fetchFromClient now handler meanwhile =>
    (s.connection.fetchFromClient now (recorded handler) meanwhile (s.server.state,[])).2.2.2
  | .client, .fetchFromServer now handler meanwhile =>
    (s.connection.fetchFromServer now (recorded handler) meanwhile (s.client.state,[])).2.2.2
  | _, _ => []

/-! ## One direction -/

/-- The storages that one side reads from. -/
structure Lane (σ : Type) where
  buffers : DoubleBuffer MessageStorage
  reader : Reader σ

inductive LaneEvent (σ : Type) where
  | send (entry : StoredMessage)
  | fetch (now : ℕ) (handler : FetchHandler σ) (meanwhile : List StoredMessage)
  | other

def Run.lane (s : Run σ) : Side → Lane σ
  | .server => ⟨s.connection.clientToServer,s.server⟩
  | .client => ⟨s.connection.serverToClient,s.client⟩

def Event.lane : Event σ → Side → LaneEvent σ
  | .sendToServer entry, .server => .send entry
  | .sendToClient entry, .client => .send entry
  | .fetchFromClient now handler meanwhile, .server => .fetch now handler meanwhile
  | .fetchFromServer now handler meanwhile, .client => .fetch now handler meanwhile
  | _, _ => .other

namespace LaneEvent

/-- What the other side sends with the event. -/
def sends : LaneEvent σ → List StoredMessage
  | .send entry => [entry]
  | .fetch _ _ meanwhile => meanwhile
  | .other => []

def isFetch : LaneEvent σ → Bool
  | .fetch _ _ _ => true
  | _ => false

theorem isFetch_iff {e : LaneEvent σ} : e.isFetch = true ↔
    ∃ now handler meanwhile, e = .fetch now handler meanwhile := by
  cases e <;> simp [isFetch]

/-- No message has made too many hops. -/
def Fresh (e : LaneEvent σ) : Prop := ∀ entry ∈ e.sends, entry.message.tooManyHops = false

instance (e : LaneEvent σ) : Decidable e.Fresh :=
  inferInstanceAs (Decidable (∀ entry ∈ e.sends, entry.message.tooManyHops = false))

end LaneEvent

namespace Lane

def fetch (now : ℕ) (handler : FetchHandler σ) (l : Lane σ) :
    Bool × MessageStorage × σ × List (Received × Bool) :=
  l.buffers.next.fetchAll now (recorded handler) (l.reader.state,[])

/-- The messages that the event offers, each with the answer of the handler. -/
def offers (l : Lane σ) : LaneEvent σ → List (Received × Bool)
  | .fetch now handler _ => (l.fetch now handler).2.2.2
  | _ => []

def step (l : Lane σ) : LaneEvent σ → Lane σ
  | .send entry => ⟨{ l.buffers with next := ⟨l.buffers.next.messages++[entry]⟩ },
      l.reader.send [entry]⟩
  | .fetch now handler meanwhile =>
    ⟨⟨(l.fetch now handler).2.1,⟨l.buffers.current.messages++meanwhile⟩⟩,
      (l.reader.send meanwhile).fetched (l.fetch now handler).2.2⟩
  | .other => l

/-- What both storages hold, the older one first. -/
def held (l : Lane σ) : List Received :=
  (l.buffers.current.messages++l.buffers.next.messages).map toReceived

end Lane

section Connection

variable (s : DirectConnectionState) (entries : List StoredMessage)

theorem sendToServer_foldl :
    entries.foldl (fun s entry => s.sendToServer entry) s =
      { s with clientToServer := ⟨s.clientToServer.current,
        ⟨s.clientToServer.next.messages++entries⟩⟩ } := by
  induction entries generalizing s with
  | nil => simp
  | cons entry entries ih =>
    rw [List.foldl_cons, ih]
    simp [DirectConnectionState.sendToServer, MessageStorage.pushIf]

theorem sendToClient_foldl (h : s.clientConnected = true) :
    entries.foldl (fun s entry => (s.sendToClient entry).2) s =
      { s with serverToClient := ⟨s.serverToClient.current,
        ⟨s.serverToClient.next.messages++entries⟩⟩ } := by
  induction entries generalizing s with
  | nil => simp
  | cons entry entries ih =>
    have hs : (s.sendToClient entry).2 = { s with serverToClient := ⟨s.serverToClient.current,
        ⟨s.serverToClient.next.messages++[entry]⟩⟩ } := by
      simp [DirectConnectionState.sendToClient, MessageStorage.pushIf, h]
    rw [List.foldl_cons, hs, ih]
    · simp
    · exact h

section Fetch

variable (now : ℕ) (handler : FetchHandler σ) (meanwhile : List StoredMessage) (st : σ)

/-- The handler is given what was next; what is sent meanwhile waits behind. -/
theorem fetchFromClient_eq : s.fetchFromClient now handler meanwhile st =
    let fetched := s.clientToServer.next.fetchAll now handler st
    ((fetched.1,s.clientConnected),
      { s with clientToServer :=
        ⟨fetched.2.1,⟨s.clientToServer.current.messages++meanwhile⟩⟩ },fetched.2.2) := by
  simp only [DirectConnectionState.fetchFromClient, sendToServer_foldl]
  rfl

theorem fetchFromServer_eq (h : s.clientConnected = true) :
    s.fetchFromServer now handler meanwhile st =
    let fetched := s.serverToClient.next.fetchAll now handler st
    (fetched.1,{ s with serverToClient :=
      ⟨fetched.2.1,⟨s.serverToClient.current.messages++meanwhile⟩⟩ },fetched.2.2) := by
  have hs := sendToClient_foldl { s with serverToClient := s.serverToClient.swap } meanwhile h
  simp only [DirectConnectionState.fetchFromServer, hs]
  rfl

end Fetch

/-- While the client is connected each event does on either direction what it
does on the storages of that direction. -/
theorem step_lane (s : Run σ) (e : Event σ) (h : s.connection.clientConnected = true)
    (side : Side) : (step s e).lane side = (s.lane side).step (e.lane side) ∧
      (step s e).connection.clientConnected = true := by
  cases e with
  | sendToServer entry => cases side <;> exact ⟨rfl,h⟩
  | sendToClient entry =>
    cases side <;>
      simp [step, DirectConnectionState.sendToClient, h, Run.lane, Event.lane, Lane.step,
        MessageStorage.pushIf]
  | fetchFromClient now handler meanwhile =>
    rw [step, fetchFromClient_eq]
    cases side <;> exact ⟨rfl,h⟩
  | fetchFromServer now handler meanwhile =>
    rw [step, fetchFromServer_eq _ _ _ _ _ h, if_pos h]
    cases side <;> exact ⟨rfl,h⟩

/-- The log of a fetch is what its direction offers. -/
theorem offered_lane (s : Run σ) (e : Event σ) (h : s.connection.clientConnected = true)
    (side : Side) : s.offered side e = (s.lane side).offers (e.lane side) := by
  cases e with
  | sendToServer entry => cases side <;> rfl
  | sendToClient entry => cases side <;> rfl
  | fetchFromClient now handler meanwhile =>
    cases side with
    | server =>
      rw [Run.offered, fetchFromClient_eq]
      rfl
    | client => rfl
  | fetchFromServer now handler meanwhile =>
    cases side with
    | server => rfl
    | client =>
      rw [Run.offered, fetchFromServer_eq _ _ _ _ _ h]
      rfl

end Connection

theorem handled_refused_subset {ε τ : Type} (handler : τ → ε → Bool × τ) (es : List ε) (st : τ) :
    (handled handler es st).2.1 ⊆ es := by
  induction es generalizing st with
  | nil => exact fun _ h => h
  | cons e es ih =>
    simp only [handled]
    split_ifs
    · exact List.subset_cons_of_subset _ (ih _)
    · exact List.cons_subset_cons _ (ih _)

namespace Lane

variable (l : Lane σ)

/-- No message held has made too many hops. -/
def Fresh : Prop := ∀ entry ∈ l.buffers.current.messages++l.buffers.next.messages,
  entry.message.tooManyHops = false

/-- What was sent was accepted or is held. -/
def Accounted : Prop := (↑l.reader.sent : Multiset Received) = ↑l.reader.accepted+↑l.held

/-- A fetch offers what was sent since the last one, behind what was refused at
the one before that. -/
theorem fetch_log (now : ℕ) (handler : FetchHandler σ) (meanwhile : List StoredMessage) :
    (l.offers (.fetch now handler meanwhile)).map Prod.fst =
      l.buffers.next.messages.map toReceived ∧
    ((l.offers (.fetch now handler meanwhile)).filter (fun o => !o.2)).map Prod.fst =
      (handled (onEntry now handler) l.buffers.next.messages (l.reader.state,[])).2.1.map
        toReceived := by
  obtain ⟨log,hlog,hall,-,hrefused⟩ := handled_recorded now handler l.buffers.next.messages
    (l.reader.state,[])
  have hoffers : l.offers (.fetch now handler meanwhile) = log := by
    show (fetchAllEntries StoredMessage.release (onEntry now handler)
      (fun entry => entry.message.tooManyHops) l.buffers.next.messages (l.reader.state,[])).2.2.2 =
        log
    rw [fetchAllEntries_eq StoredMessage.release (onEntry now handler)
      (fun entry => entry.message.tooManyHops) StoredMessage.release_tooManyHops]
    exact hlog
  rw [hoffers]
  exact ⟨hall,hrefused⟩

/-- What is refused stays in the storage it was in. -/
theorem fetch_current (now : ℕ) (handler : FetchHandler σ) (meanwhile : List StoredMessage)
    (h : l.Fresh) : (l.step (.fetch now handler meanwhile)).buffers.current.messages =
      (handled (onEntry now handler) l.buffers.next.messages (l.reader.state,[])).2.1 := by
  have hcurrent : (l.step (.fetch now handler meanwhile)).buffers.current.messages =
      (handled (onEntry now handler) l.buffers.next.messages (l.reader.state,[])).2.1.filter
        (fun entry => !entry.message.tooManyHops) :=
    congrArg Prod.fst (fetchAllEntries_eq StoredMessage.release (onEntry now handler)
      (fun entry => entry.message.tooManyHops) StoredMessage.release_tooManyHops _ _)
  rw [hcurrent]
  apply List.filter_eq_self.mpr
  intro entry he
  simp [h entry (List.mem_append_right _ (handled_refused_subset _ _ _ he))]

theorem fetch_refused (now : ℕ) (handler : FetchHandler σ) (meanwhile : List StoredMessage)
    (h : l.Fresh) :
    (l.step (.fetch now handler meanwhile)).buffers.current.messages.map toReceived =
      ((l.offers (.fetch now handler meanwhile)).filter (fun o => !o.2)).map Prod.fst := by
  rw [l.fetch_current now handler meanwhile h, (l.fetch_log now handler meanwhile).2]

section Steps

variable {l : Lane σ} {e : LaneEvent σ}

theorem step_sent : (l.step e).reader.sent = l.reader.sent++e.sends.map toReceived := by
  cases e with
  | send entry => rfl
  | fetch now handler meanwhile => rfl
  | other => exact (List.append_nil _).symm

theorem step_accepted : (l.step e).reader.accepted =
    l.reader.accepted++((l.offers e).filter Prod.snd).map Prod.fst := by
  cases e with
  | fetch now handler meanwhile => rfl
  | send entry => exact (List.append_nil _).symm
  | other => exact (List.append_nil _).symm

theorem step_next : (l.step e).buffers.next.messages =
    (if e.isFetch then l.buffers.current.messages else l.buffers.next.messages)++e.sends := by
  cases e with
  | send entry => rfl
  | fetch now handler meanwhile => rfl
  | other => exact (List.append_nil _).symm

theorem step_current (h : e.isFetch = false) :
    (l.step e).buffers.current = l.buffers.current := by
  cases e with
  | send entry => rfl
  | fetch now handler meanwhile => cases h
  | other => rfl

theorem offers_of_not_fetch (h : e.isFetch = false) : l.offers e = [] := by
  cases e with
  | fetch now handler meanwhile => cases h
  | _ => rfl

theorem step_fresh (h : l.Fresh) (he : e.Fresh) : (l.step e).Fresh := by
  intro entry hentry
  rcases List.mem_append.mp hentry with hc | hn
  · cases e with
    | fetch now handler meanwhile =>
      rw [l.fetch_current now handler meanwhile h] at hc
      exact h entry (List.mem_append_right _ (handled_refused_subset _ _ _ hc))
    | _ => exact h entry (List.mem_append_left _ hc)
  · rw [step_next] at hn
    rcases List.mem_append.mp hn with hn | hn
    · split_ifs at hn
      · exact h entry (List.mem_append_left _ hn)
      · exact h entry (List.mem_append_right _ hn)
    · exact he entry hn

theorem taken_refused (os : List (Received × Bool)) :
    ((os.map Prod.fst : List Received) : Multiset Received) =
      ↑((os.filter Prod.snd).map Prod.fst)+↑((os.filter fun o => !o.2).map Prod.fst) := by
  rw [Multiset.coe_add, ← List.map_append]
  exact Multiset.coe_eq_coe.mpr ((List.filter_append_perm Prod.snd os).symm.map Prod.fst)

theorem step_accounted (hf : l.Fresh) (h : l.Accounted) : (l.step e).Accounted := by
  unfold Accounted held at h ⊢
  rw [step_sent, step_accepted, List.map_append, step_next]
  cases hfetch : e.isFetch with
  | true =>
    obtain ⟨now,handler,meanwhile,rfl⟩ := LaneEvent.isFetch_iff.mp hfetch
    have hsplit := taken_refused (l.offers (.fetch now handler meanwhile))
    rw [(l.fetch_log now handler meanwhile).1] at hsplit
    rw [l.fetch_refused now handler meanwhile hf]
    simp only [if_true, List.map_append, ← Multiset.coe_add] at h hsplit ⊢
    rw [h, hsplit]
    abel
  | false =>
    rw [step_current hfetch, offers_of_not_fetch hfetch]
    simp only [Bool.false_eq_true, if_false, List.map_append, List.filter_nil, List.map_nil,
      List.append_nil, ← Multiset.coe_add] at h ⊢
    rw [h, add_assoc, add_assoc]

end Steps

/-- The event offers only what is held; what is refused stays as it is. -/
def Offers (e : LaneEvent σ) : Prop :=
  (((l.offers e).map Prod.fst : List Received) : Multiset Received) ≤ ↑l.held ∧
  ((((l.offers e).filter fun o => !o.2).map Prod.fst : List Received) : Multiset Received) ≤
    ↑(l.step e).held

theorem step_offers {e : LaneEvent σ} (h : l.Fresh) : l.Offers e := by
  cases e with
  | fetch now handler meanwhile =>
    rw [Offers, (l.fetch_log now handler meanwhile).1, ← l.fetch_refused now handler meanwhile h,
      held, held, List.map_append, List.map_append, ← Multiset.coe_add, ← Multiset.coe_add]
    exact ⟨Multiset.le_add_left _ _,Multiset.le_add_right _ _⟩
  | _ => exact ⟨Multiset.zero_le _,Multiset.zero_le _⟩

theorem run_between (es : List (LaneEvent σ)) (h : ∀ e ∈ es, e.isFetch = false) :
    ∃ more, (run step l es).buffers.next.messages = l.buffers.next.messages++more := by
  induction es generalizing l with
  | nil => exact ⟨[],(List.append_nil _).symm⟩
  | cons e es ih =>
    obtain ⟨more,hmore⟩ := ih (l.step e) (fun d hd => h d (List.mem_cons_of_mem _ hd))
    refine ⟨e.sends++more,?_⟩
    rw [run, hmore, step_next, h e (by simp), if_neg Bool.false_ne_true, List.append_assoc]

theorem offers_next {f : LaneEvent σ} (h : f.isFetch = true) :
    (l.offers f).map Prod.fst = l.buffers.next.messages.map toReceived := by
  cases f with
  | fetch now handler meanwhile => exact (l.fetch_log now handler meanwhile).1
  | _ => cases h

/-- What is held before a fetch is offered by it or by the next one. -/
theorem held_offered {f f' : LaneEvent σ} {es : List (LaneEvent σ)} (hf : f.isFetch = true)
    (hes : ∀ e ∈ es, e.isFetch = false) (hf' : f'.isFetch = true) :
    (↑l.held : Multiset Received) ≤ ↑((l.offers f).map Prod.fst)+
      ↑(((run step l (f::es)).offers f').map Prod.fst) := by
  obtain ⟨more,hmore⟩ := (l.step f).run_between es hes
  rw [offers_next l hf, offers_next _ hf', run, hmore, step_next, hf, if_pos rfl, held,
    List.map_append, List.map_append, List.map_append, ← Multiset.coe_add, ← Multiset.coe_add,
    ← Multiset.coe_add, add_comm, add_assoc]
  exact add_le_add_right (Multiset.le_add_right _ _) _

/-- In sending order: what was accepted, and then what is held. -/
def InOrder : Prop := l.buffers.current.messages = [] ∧
  l.reader.sent = l.reader.accepted++l.buffers.next.messages.map toReceived

theorem step_inOrder {e : LaneEvent σ} (hf : l.Fresh) (h : l.InOrder)
    (ha : ∀ o ∈ l.offers e, o.2 = true) : (l.step e).InOrder := by
  have hall : (l.offers e).filter Prod.snd = l.offers e := List.filter_eq_self.mpr ha
  have hnone : (l.offers e).filter (fun o => !o.2) = [] := by
    apply List.filter_eq_nil_iff.mpr
    intro o ho
    simp [ha o ho]
  rw [InOrder, step_sent, step_accepted, step_next, hall, h.2]
  cases hfetch : e.isFetch with
  | true =>
    obtain ⟨now,handler,meanwhile,rfl⟩ := LaneEvent.isFetch_iff.mp hfetch
    have hr := l.fetch_refused now handler meanwhile hf
    rw [hnone] at hr
    rw [(l.fetch_log now handler meanwhile).1, if_pos rfl, h.1, List.nil_append]
    exact ⟨List.map_eq_nil_iff.mp hr,rfl⟩
  | false =>
    rw [step_current hfetch, offers_of_not_fetch hfetch]
    exact ⟨h.1,by simp⟩

end Lane

/-! ## Runs -/

/-- The client has connected, nothing was sent yet. -/
def start (st st' : σ) : Run σ :=
  ⟨({} : DirectConnectionState).clientConnect,{ state := st },{ state := st' }⟩

def after (st st' : σ) (es : List (Event σ)) : Run σ := run step (start st st') es

def AcceptsAll (side : Side) (s : Run σ) (e : Event σ) : Prop :=
  ∀ o ∈ (s.lane side).offers (e.lane side), o.2 = true

theorem run_lane (s : Run σ) (es : List (Event σ)) (h : s.connection.clientConnected = true)
    (side : Side) : (run step s es).lane side =
      run Lane.step (s.lane side) (es.map (fun e => e.lane side)) := by
  induction es generalizing s with
  | nil => rfl
  | cons e es ih =>
    obtain ⟨hl,hc⟩ := step_lane s e h side
    rw [run, ih _ hc, hl]
    rfl

theorem run_connected (s : Run σ) (es : List (Event σ))
    (h : s.connection.clientConnected = true) :
    (run step s es).connection.clientConnected = true := by
  induction es generalizing s with
  | nil => exact h
  | cons e es ih => exact ih _ (step_lane s e h .server).2

theorem after_lane (st st' : σ) (es : List (Event σ)) (side : Side) :
    (after st st' es).lane side =
      run Lane.step ((start st st').lane side) (es.map (fun e => e.lane side)) :=
  run_lane _ es rfl side

theorem start_lane (st st' : σ) (side : Side) : ((start st st').lane side).Fresh ∧
    ((start st st').lane side).Accounted ∧ ((start st st').lane side).InOrder := by
  cases side
  · exact ⟨fun _ h => (nomatch h),rfl,rfl,rfl⟩
  · exact ⟨fun _ h => (nomatch h),rfl,rfl,rfl⟩

section Runs

variable {st st' : σ} {es : List (Event σ)} {side : Side}

variable (st st') in
theorem after_kept (hes : ∀ e ∈ es, (e.lane side).Fresh) :
    ((after st st' es).lane side).Fresh ∧ ((after st st' es).lane side).Accounted := by
  induction es using List.reverseRecOn with
  | nil => exact ⟨(start_lane st st' side).1,(start_lane st st' side).2.1⟩
  | append_singleton es e ih =>
    obtain ⟨hf,ha⟩ := ih (fun d hd => hes d (List.mem_append_left _ hd))
    have he := hes e (List.mem_append_right _ (List.mem_singleton_self e))
    rw [after_lane, List.map_append, run_append, ← after_lane]
    exact ⟨Lane.step_fresh hf he,Lane.step_accounted hf ha⟩

theorem after_inOrder (hes : ∀ e ∈ es, (e.lane side).Fresh)
    (ha : Steps step (AcceptsAll side) (start st st') es) :
    ((after st st' es).lane side).InOrder := by
  induction es using List.reverseRecOn with
  | nil => exact (start_lane st st' side).2.2
  | append_singleton es e ih =>
    have hes' (d) (hd : d ∈ es) : (d.lane side).Fresh := hes d (List.mem_append_left _ hd)
    obtain ⟨ha,hlast⟩ := steps_snoc.mp ha
    have hstep := Lane.step_inOrder _ (after_kept st st' hes').1 (ih hes' ha) hlast
    rw [after_lane, List.map_append, run_append, ← after_lane]
    exact hstep

end Runs

/-- Either side gets what the other side sends: nothing is lost or accepted
twice, a fetch offers only what is held and keeps what is refused, two fetches
in a row offer all that was held, and if all is accepted it is in order. What a
direction offers is what the fetch of the connection hands to the handler. -/
theorem direct_connection_reliable (st st' : σ) (es : List (Event σ)) (side : Side)
    (hes : ∀ e ∈ es, (e.lane side).Fresh) :
    ((after st st' es).lane side).Accounted ∧
    (∀ e : Event σ, ((after st st' es).lane side).Offers (e.lane side)) ∧
    (∀ (f f' : Event σ) (mid : List (Event σ)), (f.lane side).isFetch = true →
      (∀ e ∈ mid, (e.lane side).isFetch = false) → (f'.lane side).isFetch = true →
      (↑((after st st' es).lane side).held : Multiset Received) ≤
        ↑((((after st st' es).lane side).offers (f.lane side)).map Prod.fst)+
        ↑((((after st st' (es++f::mid)).lane side).offers (f'.lane side)).map Prod.fst)) ∧
    (Steps step (AcceptsAll side) (start st st') es →
      ((after st st' es).lane side).reader.sent =
        ((after st st' es).lane side).reader.accepted++((after st st' es).lane side).held) ∧
    (∀ e : Event σ, (after st st' es).offered side e =
      ((after st st' es).lane side).offers (e.lane side)) := by
  obtain ⟨hf,ha⟩ := after_kept st st' hes
  refine ⟨ha,fun e => Lane.step_offers _ hf,fun f f' mid hfetch hmid hfetch' => ?_,fun hall => ?_,
    fun e => offered_lane _ e (run_connected _ es rfl) side⟩
  · have hrun : (after st st' (es++f::mid)).lane side = run Lane.step
        ((after st st' es).lane side) (f.lane side::mid.map (fun e => e.lane side)) := by
      rw [after_lane, List.map_append, run_append, ← after_lane]
      rfl
    rw [hrun]
    apply Lane.held_offered _ hfetch _ hfetch'
    intro e he
    obtain ⟨d,hd,rfl⟩ := List.mem_map.mp he
    exact hmid d hd
  · obtain ⟨hempty,hsent⟩ := after_inOrder hes hall
    rw [hsent, Lane.held, hempty, List.nil_append]

def ping (n : Byte) : StoredMessage := ⟨msgbusId .ping,{ data := [n] },0⟩

def takesEven : FetchHandler Unit := fun st _ _ message =>
  (message.data.all (fun b => b%2 = 0),st)

/-- The client sends while the server refuses one message and takes another. -/
def samplePings : List (Event Unit) := [
  .sendToServer (ping 1), .sendToServer (ping 2),
  .fetchFromClient 5 takesEven [ping 4], .sendToClient (ping 3), .fetchFromClient 6 takesEven []]

theorem samplePings_reliable : ((after () () samplePings).lane .server).Accounted ∧
    ((after () () samplePings).lane .server).reader.accepted.map (fun r => r.2.data) =
      [[2],[4]] ∧
    ((after () () samplePings).lane .server).held.map (fun r => r.2.data) = [[1]] := by
  have h := direct_connection_reliable () () samplePings .server (by decide)
  exact ⟨h.1,by decide,by decide⟩

end DirectConnection

end MsgBus
