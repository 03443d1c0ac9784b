import Mathlib.Data.UInt
import MsgBus.Context
import MsgBus.Lib.StepRun
import MsgBus.Lib.TicketLedger

/-!
# Pings and pongs

A pinger numbers its pings with the sequence its context keeps for the ping
message, and keeps the id of the target, the number and a timeout of each ping
until a pong with that source and number comes or an update finds the timeout
expired. What verifying a pong gives comes with the call. The handlers of the
signals do not call the pinger.
-/

set_option autoImplicit false

namespace MsgBus

/-- What a bus node does for a pinger: it numbers messages and posts them. -/
structure BusNode where
  msgIdSeq : MessageId → Option UInt32 := fun _ => none
  posted : List (MessageId × MessageView) := []

namespace BusNode

def nextSequenceNo (node : BusNode) (msgId : MessageId) : MessageSequence × BusNode :=
  let pos := (node.msgIdSeq msgId).getD 0
  (pos.toNat,{ node with
    msgIdSeq := fun id => if id = msgId then some (pos+1) else node.msgIdSeq id })

def setNextSequenceId (node : BusNode) (msgId : MessageId) (message : MessageView) :
    MessageView × BusNode :=
  let (sequenceNo,node) := node.nextSequenceNo msgId
  ({ message with sequenceNo },node)

def post (node : BusNode) (msgId : MessageId) (message : MessageView) : BusNode :=
  { node with posted := node.posted ++ [(msgId,message)] }

def respondTo (node : BusNode) (info : MessageInfo) (msgId : MessageId) (message : MessageView) :
    BusNode :=
  node.post msgId { message with toMessageInfo := message.toMessageInfo.setupResponse info }

/-- The number that the next message with the id is given. -/
def counter (node : BusNode) (msgId : MessageId) : UInt32 := (node.msgIdSeq msgId).getD 0

@[simp] theorem counter_post (node : BusNode) (msgId msgId' : MessageId) (message : MessageView) :
    (node.post msgId message).counter msgId' = node.counter msgId' := rfl

@[simp] theorem counter_setNextSequenceId (node : BusNode) (msgId msgId' : MessageId)
    (message : MessageView) :
    (node.setNextSequenceId msgId message).2.counter msgId' =
      if msgId' = msgId then node.counter msgId + 1 else node.counter msgId' := by
  simp only [setNextSequenceId, nextSequenceNo, counter]
  split_ifs <;> rfl

end BusNode

/-- Times are in microseconds. -/
structure PingResponse where
  pingableId : EndpointId
  age : ℕ
  sequenceNo : MessageSequence
  verified : VerificationBits
  deriving DecidableEq, Repr

structure PingTimeout where
  pingableId : EndpointId
  age : ℕ
  sequenceNo : MessageSequence
  deriving DecidableEq, Repr

inductive PingSignal where
  | pingResponded (message : MessageView) (response : PingResponse)
  | pingTimeouted (timeout : PingTimeout)
  deriving DecidableEq, Repr

namespace PingSignal

/-- The target and the number of the ping that a signal is about. -/
def ping : PingSignal → EndpointId × MessageSequence
  | pingResponded _ response => (response.pingableId,response.sequenceNo)
  | pingTimeouted timeout => (timeout.pingableId,timeout.sequenceNo)

end PingSignal

structure PendingPing where
  pingableId : EndpointId
  sequenceNo : MessageSequence
  pingTime : Timeout
  deriving DecidableEq, Repr

namespace PendingPing

def ping (entry : PendingPing) : EndpointId × MessageSequence :=
  (entry.pingableId,entry.sequenceNo)

/-- The elapsed time in microseconds. -/
def age (entry : PendingPing) (now : ℕ) : ℕ := (now-entry.pingTime.start)*1000

def isResponse (message : MessageView) (entry : PendingPing) : Bool :=
  message.sourceId = entry.pingableId && message.sequenceNo = entry.sequenceNo

def response (now : ℕ) (verified : VerificationBits) (message : MessageView)
    (entry : PendingPing) : PingResponse where
  pingableId := message.sourceId
  age := entry.age now
  sequenceNo := message.sequenceNo
  verified

def timeouted (now : ℕ) (entry : PendingPing) : PingTimeout where
  pingableId := entry.pingableId
  age := entry.age now
  sequenceNo := entry.sequenceNo

theorem isResponse_iff {message : MessageView} {entry : PendingPing} :
    entry.isResponse message = true ↔ (message.sourceId,message.sequenceNo) = entry.ping := by
  simp [isResponse, ping]

end PendingPing

structure Pinger where
  pending : List PendingPing := []
  deriving DecidableEq, Repr

namespace Pinger

def handlePong (pinger : Pinger) (now : ℕ) (verified : VerificationBits)
    (message : MessageView) : Bool × List PingSignal × Pinger :=
  (true,
    (pinger.pending.filter (PendingPing.isResponse message)).map
      (fun entry => .pingResponded message (entry.response now verified message)),
    ⟨pinger.pending.filter fun entry => !entry.isResponse message⟩)

def ping (pinger : Pinger) (node : BusNode) (now : ℕ) (pingableId : EndpointId) (maxTime : ℕ) :
    BusNode × Pinger :=
  let msgId := msgbusId .ping
  let message : MessageView := { targetId := pingableId, priority := .low }
  let (message,node) := node.setNextSequenceId msgId message
  (node.post msgId message,
    ⟨pinger.pending ++ [⟨message.targetId,message.sequenceNo,⟨now,maxTime⟩⟩]⟩)

def decodePingResponse (pinger : Pinger) (now : ℕ) (verified : VerificationBits)
    (msgId : MessageId) (message : MessageView) : Option PingResponse :=
  if msgId = msgbusId .pong then
    (pinger.pending.find? (PendingPing.isResponse message)).map
      fun entry => entry.response now verified message
  else none

def update (pinger : Pinger) (now : ℕ) : Bool × List PingSignal × Pinger :=
  let expired := pinger.pending.filter fun entry => entry.pingTime.isExpired now
  (decide (0 < expired.length),
    expired.map fun entry => .pingTimeouted (entry.timeouted now),
    ⟨pinger.pending.filter fun entry => !entry.pingTime.isExpired now⟩)

def hasPendingPings (pinger : Pinger) : Bool := !pinger.pending.isEmpty

/-- What is decoded from a pong is what the handler of the pong signals first. -/
theorem decodePingResponse_pong (pinger : Pinger) (now : ℕ) (verified : VerificationBits)
    (message : MessageView) :
    ((pinger.handlePong now verified message).2.1).head? =
      (pinger.decodePingResponse now verified (msgbusId .pong) message).map
        (PingSignal.pingResponded message) := by
  rw [handlePong, decodePingResponse, if_pos rfl, List.head?_map, List.head?_filter,
    Option.map_map]
  rfl

end Pinger

namespace Pingable

def handlePing (respondToPing : EndpointId → MessageSequence → VerificationBits → Bool)
    (node : BusNode) (verified : VerificationBits) (message : MessageView) : Bool × BusNode :=
  (true,
    if respondToPing message.sourceId message.sequenceNo verified then
      node.respondTo message.toMessageInfo (msgbusId .pong) {}
    else node)

/-- The pong a target posts for a ping is, sent under the id of the target, a
response to that ping. -/
theorem handlePing_isResponse
    {respondToPing : EndpointId → MessageSequence → VerificationBits → Bool}
    (node : BusNode) {verified : VerificationBits} (request : MessageView) (entry : PendingPing)
    (hno : request.sequenceNo = entry.sequenceNo)
    (hrespond : respondToPing request.sourceId request.sequenceNo verified = true) :
    ∃ pong, (handlePing respondToPing node verified request).2.posted =
        node.posted ++ [(msgbusId .pong,pong)] ∧
      pong.targetId = request.sourceId ∧
      entry.isResponse { pong with sourceId := entry.pingableId } = true := by
  refine ⟨_,by rw [handlePing, if_pos hrespond]; rfl,rfl,?_⟩
  rw [PendingPing.isResponse_iff]
  exact congrArg (Prod.mk entry.pingableId) hno

end Pingable

open StepRun

inductive PingerEvent where
  | ping (now : ℕ) (pingableId : EndpointId) (maxTime : ℕ)
  | pong (now : ℕ) (verified : VerificationBits) (message : MessageView)
  | update (now : ℕ)
  /-- Something else on the node numbers a message. -/
  | setNextSequenceId (msgId : MessageId)

namespace PingerEvent

/-- The event takes a number of the sequence of pings. -/
def numbersPing : PingerEvent → Bool
  | ping _ _ _ => true
  | setNextSequenceId msgId => msgId = msgbusId .ping
  | _ => false

end PingerEvent

/-- A pinger on its node, with the pings it has sent, the signals it has given
and how many numbers were taken of the sequence of pings. -/
structure PingerRun where
  node : BusNode
  pinger : Pinger := {}
  sent : List PendingPing := []
  signalled : List PingSignal := []
  numbered : ℕ := 0

namespace PingerRun

/-- The entry that a ping adds to the pending ones. -/
def nextPing (s : PingerRun) (now : ℕ) (pingableId : EndpointId) (maxTime : ℕ) : PendingPing :=
  ⟨pingableId,(s.node.counter (msgbusId .ping)).toNat,⟨now,maxTime⟩⟩

/-- The signals given in a step. -/
def signals (s : PingerRun) : PingerEvent → List PingSignal
  | .pong now verified message => (s.pinger.handlePong now verified message).2.1
  | .update now => (s.pinger.update now).2.1
  | _ => []

def step (s : PingerRun) (e : PingerEvent) : PingerRun :=
  let numbered := s.numbered + if e.numbersPing then 1 else 0
  let signalled := s.signalled ++ s.signals e
  match e with
  | .ping now pingableId maxTime =>
    let (node,pinger) := s.pinger.ping s.node now pingableId maxTime
    ⟨node,pinger,s.sent ++ [s.nextPing now pingableId maxTime],signalled,numbered⟩
  | .pong now verified message =>
    ⟨s.node,(s.pinger.handlePong now verified message).2.2,s.sent,signalled,numbered⟩
  | .update now => ⟨s.node,(s.pinger.update now).2.2,s.sent,signalled,numbered⟩
  | .setNextSequenceId msgId =>
    ⟨(s.node.setNextSequenceId msgId {}).2,s.pinger,s.sent,signalled,numbered⟩

/-- The signals that are about a ping. -/
def signalsOf (s : PingerRun) (p : PendingPing) : List PingSignal :=
  s.signalled.filter fun signal => signal.ping = p.ping

/-- Each ping that was sent has exactly one signal once it is not pending, and
none before. -/
structure Resolved (s : PingerRun) : Prop where
  distinct : (s.sent.map PendingPing.ping).Nodup
  pending : ∀ p ∈ s.pinger.pending, p ∈ s.sent ∧ s.signalsOf p = []
  left : ∀ p ∈ s.sent, p ∉ s.pinger.pending → ∃ signal, s.signalsOf p = [signal]
  known : ∀ signal ∈ s.signalled, ∃ p ∈ s.sent, signal.ping = p.ping

/-- A step responds to a ping only for a pong with its source and number, and
reports its timeout only when it has expired, both while nothing was signalled
about it. -/
structure OwnSignals (s : PingerRun) (e : PingerEvent) : Prop where
  responded : ∀ p ∈ s.sent, ∀ message response,
    .pingResponded message response ∈ s.signals e →
    (response.pingableId,response.sequenceNo) = p.ping →
      (∃ now verified, e = .pong now verified message) ∧
      message.sourceId = p.pingableId ∧ message.sequenceNo = p.sequenceNo ∧
      p ∈ s.pinger.pending ∧ s.signalsOf p = []
  timeouted : ∀ p ∈ s.sent, ∀ timeout, .pingTimeouted timeout ∈ s.signals e →
    (timeout.pingableId,timeout.sequenceNo) = p.ping →
      (∃ now, e = .update now ∧ p.pingTime.isExpired now = true) ∧
      p ∈ s.pinger.pending ∧ s.signalsOf p = []

def ledger (s : PingerRun) : TicketLedger PendingPing PingSignal :=
  ⟨s.sent,s.pinger.pending,s.signalled⟩

/-- The numbers of the pings are those taken so far, none of them twice. -/
structure Inv (first : UInt32) (s : PingerRun) : Prop where
  balanced : s.ledger.Balanced PendingPing.ping PingSignal.ping
  counter : s.node.counter (msgbusId .ping) = first + UInt32.ofNat s.numbered
  taken : ∀ p ∈ s.sent, ∃ i < s.numbered, p.sequenceNo = (first + UInt32.ofNat i).toNat
  distinct : (s.sent.map PendingPing.sequenceNo).Nodup

/-- The step has a number left that was not taken. -/
def Room (s : PingerRun) (e : PingerEvent) : Prop :=
  e.numbersPing = true → s.numbered < UInt32.size

variable {s : PingerRun} {e : PingerEvent} {first : UInt32}

theorem step_numbered :
    (s.step e).numbered = s.numbered + if e.numbersPing then 1 else 0 := by
  cases e <;> rfl

/-- The ledger of the pings: a ping is issued, a pong and an update settle. -/
theorem step_ledger : (s.step e).ledger = match e with
    | .ping now pingableId maxTime => s.ledger.issue (s.nextPing now pingableId maxTime)
    | .pong now verified message => s.ledger.settle (PendingPing.isResponse message)
        fun entry => .pingResponded message (entry.response now verified message)
    | .update now => s.ledger.settle (fun entry => entry.pingTime.isExpired now)
        fun entry => .pingTimeouted (entry.timeouted now)
    | .setNextSequenceId _ => s.ledger := by
  cases e with
  | ping now pingableId maxTime =>
    simp [step, ledger, signals, TicketLedger.issue, Pinger.ping, nextPing,
      BusNode.setNextSequenceId, BusNode.nextSequenceNo, BusNode.counter]
  | pong now verified message => rfl
  | update now => rfl
  | setNextSequenceId msgId => simp [step, ledger, signals]

theorem step_balanced (h : s.ledger.Balanced PendingPing.ping PingSignal.ping) :
    (s.step e).ledger.Balanced PendingPing.ping PingSignal.ping := by
  rw [step_ledger]
  cases e with
  | ping now pingableId maxTime => exact h.issue _
  | pong now verified message =>
    exact h.settle fun entry hentry => PendingPing.isResponse_iff.mp hentry
  | update now => exact h.settle fun _ _ => rfl
  | setNextSequenceId msgId => exact h

theorem step_counter (h : s.node.counter (msgbusId .ping) = first + UInt32.ofNat s.numbered) :
    (s.step e).node.counter (msgbusId .ping) = first + UInt32.ofNat (s.step e).numbered := by
  have hnext : first + UInt32.ofNat (s.numbered+1) = first + UInt32.ofNat s.numbered + 1 := by
    rw [UInt32.ofNat_add, UInt32.add_assoc]
    rfl
  rw [step_numbered]
  cases e with
  | ping now pingableId maxTime =>
    simp only [step, Pinger.ping, PingerEvent.numbersPing, if_true, hnext, ← h]
    simp
  | pong now verified message => exact h
  | update now => exact h
  | setNextSequenceId msgId =>
    simp only [step, BusNode.counter_setNextSequenceId, PingerEvent.numbersPing]
    by_cases hmsg : msgId = msgbusId .ping
    · simp [hmsg, h, UInt32.add_assoc]
    · simp [hmsg, Ne.symm hmsg, h]

/-- Two numbers of the sequence differ while it has not come around. -/
theorem number_ne {i n : ℕ} (hi : i < n) (hn : n < UInt32.size) :
    (first + UInt32.ofNat n).toNat ≠ (first + UInt32.ofNat i).toNat := by
  intro h
  have heq := (UInt32.add_right_inj first).mp (UInt32.toNat_inj.mp h)
  have hnat := congrArg UInt32.toNat heq
  rw [UInt32.toNat_ofNat_of_lt' hn, UInt32.toNat_ofNat_of_lt' (hi.trans hn)] at hnat
  omega

theorem step_taken (h : s.Inv first) (hroom : s.Room e) :
    (∀ p ∈ (s.step e).sent,
      ∃ i < (s.step e).numbered, p.sequenceNo = (first + UInt32.ofNat i).toNat) ∧
    ((s.step e).sent.map PendingPing.sequenceNo).Nodup := by
  have hkept : ∀ p ∈ s.sent,
      ∃ i < (s.step e).numbered, p.sequenceNo = (first + UInt32.ofNat i).toNat := by
    intro p hp
    obtain ⟨i,hi,hno⟩ := h.taken p hp
    rw [step_numbered]
    exact ⟨i,by omega,hno⟩
  cases e with
  | ping now pingableId maxTime =>
    have hlt := hroom rfl
    have hno : (s.nextPing now pingableId maxTime).sequenceNo =
        (first + UInt32.ofNat s.numbered).toNat := by
      rw [nextPing, h.counter]
    constructor
    · intro p hp
      rcases List.mem_append.mp hp with hp | hp
      · exact hkept p hp
      · obtain rfl := List.mem_singleton.mp hp
        exact ⟨s.numbered,by simp [step_numbered, PingerEvent.numbersPing],hno⟩
    · have hnew : (s.nextPing now pingableId maxTime).sequenceNo ∉
          s.sent.map PendingPing.sequenceNo := by
        intro hmem
        obtain ⟨p,hp,heq⟩ := List.mem_map.mp hmem
        obtain ⟨i,hi,hi'⟩ := h.taken p hp
        exact number_ne hi hlt (hno.symm.trans (heq.symm.trans hi'))
      simp only [step, List.map_append, List.map_cons, List.map_nil]
      exact List.nodup_append.mpr ⟨h.distinct,List.nodup_singleton _,fun a ha b hb => by
        rintro rfl
        exact hnew (List.mem_singleton.mp hb ▸ ha)⟩
  | pong now verified message => exact ⟨hkept,h.distinct⟩
  | update now => exact ⟨hkept,h.distinct⟩
  | setNextSequenceId msgId => exact ⟨hkept,h.distinct⟩

theorem step_inv (h : s.Inv first) (hroom : s.Room e) : (s.step e).Inv first := by
  obtain ⟨htaken,hdistinct⟩ := step_taken h hroom
  exact ⟨step_balanced h.balanced,step_counter h.counter,htaken,hdistinct⟩

theorem Inv.ping_nodup (h : s.Inv first) : (s.sent.map PendingPing.ping).Nodup := by
  have hno : (s.sent.map PendingPing.ping).map Prod.snd = s.sent.map PendingPing.sequenceNo := by
    rw [List.map_map]
    rfl
  exact List.Nodup.of_map Prod.snd (hno ▸ h.distinct)

theorem Inv.resolved (h : s.Inv first) : s.Resolved where
  distinct := h.ping_nodup
  pending := fun _ hp =>
    ⟨h.balanced.pending_sub.subset hp,h.balanced.outcomesOf_pending h.ping_nodup hp⟩
  left := fun _ hp hleft => h.balanced.outcomesOf_settled h.ping_nodup hp hleft
  known := fun _ hsignal => h.balanced.known hsignal

/-- Of the pings that were sent one only has the target and number of a
pending one. -/
theorem Resolved.eq_of_ping (h : s.Resolved) {p q : PendingPing} (hp : p ∈ s.sent)
    (hq : q ∈ s.pinger.pending) (heq : q.ping = p.ping) : q = p :=
  List.inj_on_of_nodup_map h.distinct (h.pending q hq).1 hp heq

theorem Resolved.ownSignals (h : s.Resolved) : s.OwnSignals e where
  responded := by
    intro p hp message response hmem hping
    cases e with
    | ping now pingableId maxTime => cases hmem
    | pong now verified message' =>
      obtain ⟨q,hq,heq⟩ := List.mem_map.mp hmem
      obtain ⟨hpending,hresponse⟩ := List.mem_filter.mp hq
      injection heq with hm hr
      subst hm hr
      have hown := PendingPing.isResponse_iff.mp hresponse
      obtain rfl := h.eq_of_ping hp hpending (hown.symm.trans hping)
      exact ⟨⟨now,verified,rfl⟩,congrArg Prod.fst hown,congrArg Prod.snd hown,hpending,
        (h.pending q hpending).2⟩
    | update now =>
      obtain ⟨q,-,heq⟩ := List.mem_map.mp hmem
      cases heq
    | setNextSequenceId msgId => cases hmem
  timeouted := by
    intro p hp timeout hmem hping
    cases e with
    | ping now pingableId maxTime => cases hmem
    | pong now verified message' =>
      obtain ⟨q,-,heq⟩ := List.mem_map.mp hmem
      cases heq
    | update now =>
      obtain ⟨q,hq,heq⟩ := List.mem_map.mp hmem
      obtain ⟨hpending,hexpired⟩ := List.mem_filter.mp hq
      injection heq with ht
      subst ht
      obtain rfl := h.eq_of_ping hp hpending hping
      exact ⟨⟨now,rfl,hexpired⟩,hpending,(h.pending q hpending).2⟩
    | setNextSequenceId msgId => cases hmem

/-- While the run takes no more numbers than the sequence has, each step has one left. -/
theorem steps_room (es : List PingerEvent) (s : PingerRun)
    (h : s.numbered + es.countP PingerEvent.numbersPing ≤ UInt32.size) :
    Steps step Room s es := by
  induction es generalizing s with
  | nil => trivial
  | cons e es ih =>
    rw [List.countP_cons] at h
    refine ⟨fun he => ?_,ih (s.step e) ?_⟩
    · rw [he] at h
      simp only [if_true] at h
      omega
    · rw [step_numbered]
      omega

theorem start_inv (node : BusNode) :
    ({ node } : PingerRun).Inv (node.counter (msgbusId .ping)) where
  balanced := TicketLedger.balanced_empty
  counter := by simp
  taken := fun _ hp => by cases hp
  distinct := List.nodup_nil

/-- A pong with the source and number of a pending ping responds to it. -/
theorem pong_responds {p : PendingPing} {message : MessageView} (hp : p ∈ s.pinger.pending)
    (hr : p.isResponse message = true) (now : ℕ) (verified : VerificationBits) :
    .pingResponded message (p.response now verified message) ∈
        s.signals (.pong now verified message) ∧
      p ∉ (s.step (.pong now verified message)).pinger.pending := by
  refine ⟨List.mem_map.mpr ⟨p,List.mem_filter.mpr ⟨hp,hr⟩,rfl⟩,fun hkept => ?_⟩
  have hnot := (List.mem_filter.mp hkept).2
  rw [hr] at hnot
  cases hnot

/-- A ping that its target decides to answer is responded to by that answer,
whenever it comes back while the ping is pending. -/
theorem ping_answered (s : PingerRun) (now : ℕ) (pingableId ownId : EndpointId) (maxTime : ℕ)
    (node : BusNode) {verified : VerificationBits}
    {respondToPing : EndpointId → MessageSequence → VerificationBits → Bool}
    (hrespond : ∀ no, respondToPing ownId no verified = true) :
    let sent := s.step (.ping now pingableId maxTime)
    ∃ request pong, sent.node.posted = s.node.posted ++ [(msgbusId .ping,request)] ∧
      request.targetId = pingableId ∧
      (Pingable.handlePing respondToPing node verified
        { request with sourceId := ownId }).2.posted = node.posted ++ [(msgbusId .pong,pong)] ∧
      pong.targetId = ownId ∧
      ∀ (s' : PingerRun) now' verified',
        s.nextPing now pingableId maxTime ∈ s'.pinger.pending →
        ∃ response, .pingResponded { pong with sourceId := pingableId } response ∈
            s'.signals (.pong now' verified' { pong with sourceId := pingableId }) ∧
          (response.pingableId,response.sequenceNo) =
            (s.nextPing now pingableId maxTime).ping := by
  intro sent
  have hposted : sent.node.posted = s.node.posted ++ [(msgbusId .ping,
      { targetId := pingableId, priority := .low
        sequenceNo := (s.nextPing now pingableId maxTime).sequenceNo })] := rfl
  obtain ⟨pong,hpong,htarget,hresponse⟩ := Pingable.handlePing_isResponse node
    { sourceId := ownId, targetId := pingableId, priority := .low
      sequenceNo := (s.nextPing now pingableId maxTime).sequenceNo }
    (s.nextPing now pingableId maxTime) rfl (hrespond _)
  refine ⟨_,pong,hposted,rfl,hpong,htarget,fun s' now' verified' hp => ?_⟩
  exact ⟨_,(pong_responds hp hresponse now' verified').1,
    PendingPing.isResponse_iff.mp hresponse⟩

/-- An update reports each pending ping that has expired. -/
theorem update_reports {p : PendingPing} {now : ℕ} (hp : p ∈ s.pinger.pending)
    (hx : p.pingTime.isExpired now = true) :
    .pingTimeouted (p.timeouted now) ∈ s.signals (.update now) ∧
      p ∉ (s.step (.update now)).pinger.pending := by
  refine ⟨List.mem_map.mpr ⟨p,List.mem_filter.mpr ⟨hp,hx⟩,rfl⟩,fun hkept => ?_⟩
  have hnot := (List.mem_filter.mp hkept).2
  rw [hx] at hnot
  cases hnot

/-- In every run of a pinger that takes no more numbers than the sequence of
pings has, each ping gets one signal once it is not pending, and responded only
for a pong with its source and number that comes before its timeout was
reported. -/
theorem pings_resolved (node : BusNode) (es : List PingerEvent)
    (hroom : es.countP PingerEvent.numbersPing ≤ UInt32.size) :
    Always step Resolved { node } es ∧ Steps step OwnSignals { node } es := by
  have hsteps : Steps step Room { node } es := steps_room es _ (by simpa using hroom)
  have hkept := start_inv node
  constructor
  · exact always_mono (fun _ h => h.resolved)
      (always_of_invariant (fun _ _ h hok => step_inv h hok) hkept hsteps)
  · exact steps_of_invariant (fun _ _ h hok => step_inv h hok)
      (fun _ _ h _ => h.resolved.ownSignals) hkept hsteps

/-- Pings to two targets: one pong comes twice, one with a wrong number, one
from a source that was not pinged and one late. -/
def samplePings : List PingerEvent := [
  .ping 0 7 100,.ping 10 7 50,.setNextSequenceId (msgbusId .blobFrgmnt),.ping 20 8 500,
  .pong 30 {} { sourceId := 7, sequenceNo := 2 },
  .pong 40 {} { sourceId := 7, sequenceNo := 0 },
  .pong 41 {} { sourceId := 7, sequenceNo := 0 },
  .update 70,
  .pong 80 {} { sourceId := 7, sequenceNo := 1 },
  .pong 90 {} { sourceId := 9, sequenceNo := 2 }]

/-- One ping of the sample was answered, one reported and one is pending. -/
theorem pings_resolved_sample :
    (Always step Resolved { node := {} } samplePings ∧
      Steps step OwnSignals { node := {} } samplePings) ∧
    (run step { node := {} } samplePings).signalled =
      [.pingResponded { sourceId := 7, sequenceNo := 0 } ⟨7,40000,0,{}⟩,
        .pingTimeouted ⟨7,60000,1⟩] ∧
    (run step { node := {} } samplePings).pinger.pending = [⟨8,2,⟨20,500⟩⟩] :=
  ⟨pings_resolved {} samplePings (by decide),by decide,by decide⟩

end PingerRun

end MsgBus
