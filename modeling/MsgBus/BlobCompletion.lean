import Mathlib.Order.Interval.Set.Nat
import MsgBus.BlobDelivery
import MsgBus.OutgoingDrain
import MsgBus.ResendRange

/-!
# Resends complete a blob

The receiver asks for the front of the first gap of a blob, the sender marks
it as to do again and sends it. The channel may lose, copy and delay what it
likes; each time that a request and the fragments sent after it get through,
the gap gets smaller, so that the blob is whole after a bounded number of such
exchanges.
-/

set_option autoImplicit false

namespace MsgBus.BlobCompletion

open IntervalList BlobManipulator ManipulatorRules BlobTransfer BlobIntegrity BlobDelivery
open ResendRequests (Sound request requestEnd InRange placeOf Contained)
open ResendRange (requestedRange FirstGap)

def keyFor (sourceId : EndpointId) (r : Pushed) : BlobKey := (sourceId,r.sourceBlobId)

/-- Neither side gives the block up. -/
def Kept (sourceId : EndpointId) (r : Pushed) (t : Transfer) : Event → Prop
  | .updateSender clk _ _ => ∀ p ∈ t.sender.outgoing, p.sourceBlobId = r.sourceBlobId →
    p.maxTime.isExpired clk.now = false ∧
      (p.sentEverything = true → p.lingerTime.isExpired clk.now = false)
  | .updateReceiver clk _ _ => ∀ p ∈ t.receiver.incoming, keyOf p = keyFor sourceId r →
    p.maxTime.isExpired clk.now = false
  | _ => True

def Sending (r : Pushed) (t : Transfer) : Prop :=
  ∃ p ∈ t.sender.outgoing, p.sourceBlobId = r.sourceBlobId

/-- All of the block was handed over, as it was pushed. -/
def Delivered (sourceId : EndpointId) (r : Pushed) (t : Transfer) : Prop :=
  ∃ c, .handedOver c ∈ t.history ∧ keyOf c.pending = keyFor sourceId r ∧
    handedOver c = r.content

/-- The receiver was given these bytes of the block and still has them, unless
it has handed over all of it. -/
def Holds (sourceId : EndpointId) (r : Pushed) (places : Set ℕ) (t : Transfer) : Prop :=
  Delivered sourceId r t ∨
    ∃ p ∈ t.receiver.incoming, keyOf p = keyFor sourceId r ∧ places ⊆ covered p.doneParts

/-- An update of the receiver that asks for the block, the processing of a
request and what else goes on around them. -/
structure Exchange where
  before : List Event := []
  clk : Clock
  doSend : SendHandler
  maxMessageSize : ℕ
  between : List Event := []
  i : ℕ
  after : List Event

namespace Exchange

variable (ser : BlobSerializer) (sourceId : EndpointId) (x : Exchange)

def events : List Event :=
  x.before ++ .updateReceiver x.clk x.doSend x.maxMessageSize ::
    (x.between ++ .processResend x.i :: x.after)

def due (t : Transfer) : Transfer := StepRun.run (step ser sourceId) t x.before

def asked (t : Transfer) : Transfer :=
  step ser sourceId (x.due ser sourceId t) (.updateReceiver x.clk x.doSend x.maxMessageSize)

def heard (t : Transfer) : Transfer :=
  StepRun.run (step ser sourceId) (x.asked ser sourceId t) x.between

def resumed (t : Transfer) : Transfer :=
  step ser sourceId (x.heard ser sourceId t) (.processResend x.i)

def finished (t : Transfer) : Transfer :=
  StepRun.run (step ser sourceId) (x.resumed ser sourceId t) x.after

theorem run_events (t : Transfer) :
    StepRun.run (step ser sourceId) t x.events = x.finished ser sourceId t := by
  rw [events, StepRun.run_append, StepRun.run, StepRun.run_append]
  rfl

end Exchange

/-- The fragment in this place of the channel is received. -/
def ReceivesAt (n : ℕ) (t : Transfer) : Event → Prop
  | .processIncoming _ i => i = n ∧ n < t.fragments.length
  | _ => False

/-- The message is a fragment of the block. -/
def FragmentOf (ser : BlobSerializer) (r : Pushed) (message : MessageView) : Prop :=
  (readFragment ser message).map (fun f => f.sourceBlobId) = some r.sourceBlobId

/-- The request of the update for the block is the one that is processed, the
sender then sends all that is to do of the block, and each fragment of it that
is sent after the request is received. -/
structure Serves (ser : BlobSerializer) (sourceId : EndpointId) (r : Pushed) (t : Transfer)
    (x : Exchange) : Prop where
  steps : StepRun.Steps (step ser sourceId) (fun t e => Admitted t e ∧ Kept sourceId r t e) t
    x.events
  size : 2 ≤ x.maxMessageSize
  due : ∀ p ∈ (x.due ser sourceId t).receiver.incoming, keyOf p = keyFor sourceId r →
    shouldRequestResend p x.clk.now = true
  heard : ∀ message ∈ (x.asked ser sourceId t).resends.drop (x.due ser sourceId t).resends.length,
    Requests ser (keyFor sourceId r) message →
      (x.heard ser sourceId t).resends[x.i]? = some message
  sent : ∀ p ∈ (x.finished ser sourceId t).sender.outgoing, p.sourceBlobId = r.sourceBlobId →
    p.todoParts = []
  received : ∀ n (h : n < (x.finished ser sourceId t).fragments.length),
    (x.resumed ser sourceId t).fragments.length ≤ n →
      FragmentOf ser r (x.finished ser sourceId t).fragments[n] →
        StepRun.Sometime (step ser sourceId) (ReceivesAt n) (x.resumed ser sourceId t) x.after

/-! ## What every run keeps -/

/-- What the sender is to do stays inside its blobs, which it has once; so do
the requests, and what the receiver has are no empty parts. -/
structure Ready (ser : BlobSerializer) (sourceId : EndpointId) (t : Transfer) : Prop where
  inv : Inv ser sourceId t
  tracked : Tracked ser t
  sound : ∀ p ∈ t.sender.outgoing, Sound p
  ids : (t.sender.outgoing.map fun p => p.sourceBlobId).Nodup
  asked : ∀ message ∈ t.resends, ∃ r ∈ t.pushed, ∃ bgn fin,
    request ser message = some (r.sourceBlobId,bgn,fin) ∧ fin ≤ r.content.length
  proper : ∀ p ∈ t.receiver.incoming, ∀ part ∈ p.doneParts, part.1 < part.2

section Ready

variable {ser : BlobSerializer} {sourceId : EndpointId} {t : Transfer}

theorem ready_start (fragmentMsgId resendMsgId prepareMsgId : MessageId) (maxBlobSize : ℕ) :
    Ready ser sourceId (start fragmentMsgId resendMsgId prepareMsgId maxBlobSize) :=
  ⟨inv_start _ _ _ _,tracked_start _ _ _ _,by simp [start],by simp [start],by simp [start],
    by simp [start]⟩

theorem request_of_range {p : PendingBlob Received} (maxMessageSize : ℕ) :
    request ser (resendRequest ser p maxMessageSize) =
      some (p.sourceBlobId,requestedRange p maxMessageSize) := by
  have hr := ser.resend.decode_encode (p.sourceBlobId,requestedRange p maxMessageSize) []
  rw [List.append_nil] at hr
  exact congrArg (Option.map Prod.fst) hr

/-- What is asked for of a blob that is not complete is missing. -/
theorem gap_of_incomplete {r : Pushed} {p : PendingBlob Received} (h : Receives sourceId r p)
    (hproper : ∀ part ∈ p.doneParts, part.1 < part.2) (hinc : p.receivedEverything = false)
    {maxMessageSize : ℕ} (hsize : 2 ≤ maxMessageSize) :
    FirstGap p.doneParts p.info.totalSize maxMessageSize (requestedRange p maxMessageSize) := by
  obtain ⟨part,hpart⟩ := List.exists_mem_of_ne_nil _ h.started
  have hfirst : part.1 < r.content.length :=
    (h.within ⟨part,hpart,le_rfl,hproper part hpart⟩).2
  have hsized : p.info.totalSize ≠ 0 := by
    rw [h.totalSize]
    exact Nat.ne_zero_of_lt hfirst
  exact ResendRange.requestedRange_firstGap ⟨h.canonical,h.started,hsized⟩ hinc hsize

/-- No request of the receiver reaches beyond the end of the block. -/
theorem requestedRange_inside {r : Pushed} {p : PendingBlob Received}
    (h : Receives sourceId r p) (hproper : ∀ part ∈ p.doneParts, part.1 < part.2)
    (maxMessageSize : ℕ) : (requestedRange p maxMessageSize).2 ≤ r.content.length := by
  have hin : ∀ part ∈ p.doneParts, part.2 ≤ r.content.length :=
    (ResendRequests.inside_iff hproper).mpr fun x hx => (h.within hx).2
  rw [requestedRange, h.totalSize]
  cases hd : p.doneParts with
  | nil => exact absurd hd h.started
  | cons part rest =>
    obtain ⟨bgn,fin⟩ := part
    rw [hd] at hin hproper
    have hfirst := hin (bgn,fin) (by simp)
    have hlt := hproper (bgn,fin) (by simp)
    simp only [doneBeginEnd]
    split_ifs with hbgn
    · dsimp only at hfirst hlt ⊢
      omega
    · cases rest with
      | nil =>
        dsimp only at hfirst ⊢
        omega
      | cons part _ =>
        obtain ⟨next,fin'⟩ := part
        have hnext := hin (next,fin') (by simp)
        have hlt' := hproper (next,fin') (by simp)
        dsimp only at hfirst hnext hlt' ⊢
        have hsep : fin < next := by
          have hc := h.canonical
          rw [hd] at hc
          exact (canonical_cons.mp hc).2.1 (next,fin') (by simp)
        omega

variable (ser) in
/-- A turn of the sending loop keeps the id of its blob. -/
theorem processOne_id (m : BlobManipulator BufferBlobIo BufferBlobIo) (clk : Clock)
    (doSend : SendHandler) (maxMessageSize : ℕ) (p : PendingBlob BufferBlobIo)
    (log : List SendAttempt) :
    (m.processOne ser clk doSend maxMessageSize p log).1.sourceBlobId = p.sourceBlobId := by
  rcases processOne_cases m ser clk doSend maxMessageSize p log with
    ⟨q,he,hq⟩ | ⟨front,bgn,fin,q,-,-,he,hq⟩
  · rw [he, hq]
  · rw [he, hq]
    rfl

theorem processOutgoingLoop_ids (clk : Clock) (doSend : SendHandler) (maxMessageSize n : ℕ)
    (m : BlobManipulator BufferBlobIo BufferBlobIo) (log : List SendAttempt) :
    ((processOutgoingLoop ser clk doSend maxMessageSize n m log).1.outgoing.map
      fun p => p.sourceBlobId) = m.outgoing.map fun p => p.sourceBlobId := by
  induction n generalizing m log with
  | zero => rfl
  | succ n ih =>
    simp only [processOutgoingLoop]
    split
    · exact ih _ log
    · rename_i pending hget
      obtain ⟨hlt,rfl⟩ := List.getElem?_eq_some_iff.mp hget
      refine (ih _ _).trans ?_
      have hid := processOne_id ser { m with outgoingIndex := m.outgoingIndex+1 } clk
        doSend maxMessageSize m.outgoing[m.outgoingIndex%m.outgoing.length] log
      rw [List.map_set, hid, ← List.getElem_map fun p : PendingBlob BufferBlobIo =>
        p.sourceBlobId, List.set_getElem_self]
      simpa using hlt

theorem processResend_ids (m : BlobManipulator BufferBlobIo BufferBlobIo)
    (message : MessageView) :
    ((m.processResend ser message).outgoing.map fun p => p.sourceBlobId) =
      m.outgoing.map fun p => p.sourceBlobId := by
  rw [processResend]
  split
  · rfl
  · split
    · rfl
    · refine map_modify _ _ _ _ fun p _ => ?_
      obtain ⟨parts,he⟩ := mergeResendRequest_parts p _ _
      rw [he]

/-- A push adds a block with an id of its own to the sender, or none. -/
theorem push_cases (h : Inv ser sourceId t) (clk : Clock) (msgId : MessageId)
    (targetId : EndpointId) (targetBlobId : BlobId) (src : Block) (maxTime : ℕ)
    (options : BlobOptions) (priority : MessagePriority) (hroom : t.pushed.length < blobIdMax) :
    let r := t.sender.pushOutgoing clk msgId sourceId targetId targetBlobId src maxTime options
      priority
    r.2.outgoing = t.sender.outgoing ∨ ∃ p, p.sourceBlobId = t.pushed.length+1 ∧
      r.2.outgoing = t.sender.outgoing ++ [p] := by
  have hid : t.sender.nextBlobId = t.pushed.length+1 := by
    rw [nextBlobId, if_neg (by rw [h.sequence]; exact hroom.ne), h.sequence]
  simp only [pushOutgoing, pushOutgoingIo]
  split_ifs with hsize
  · exact Or.inr ⟨_,hid,rfl⟩
  · exact Or.inl rfl

theorem sending_numbered (h : Inv ser sourceId t) {p : PendingBlob BufferBlobIo}
    (hp : p ∈ t.sender.outgoing) : p.sourceBlobId ≤ t.pushed.length := by
  obtain ⟨r,hr,hcar⟩ := h.sending p hp
  obtain ⟨i,hi⟩ := List.mem_iff_getElem?.mp hr
  have hlt := (List.getElem?_eq_some_iff.mp hi).1
  rw [hcar.sourceBlobId, h.numbered i r hi]
  exact hlt

/-- The requests in the channel stay inside the blobs they are for. -/
theorem asked_contained (h : Ready ser sourceId t) {message : MessageView}
    (hm : message ∈ t.resends) : Contained ser t.sender message := by
  intro id bgn fin hreq pos p hplace hp
  obtain ⟨r,hr,bgn',fin',hreq',hle⟩ := h.asked message hm
  obtain ⟨rfl,rfl,rfl⟩ : id = r.sourceBlobId ∧ bgn = bgn' ∧ fin = fin' := by
    simpa using hreq.symm.trans hreq'
  obtain ⟨r',hr',hcar⟩ := h.inv.sending p (List.mem_of_getElem? hp)
  obtain ⟨p',hp',hid⟩ := findIdx_some hplace
  obtain rfl := Option.some.inj (hp.symm.trans hp')
  obtain rfl := unique_block h.inv r' hr' r hr
    (hcar.sourceBlobId.symm.trans (of_decide_eq_true hid))
  right
  rw [requestEnd, hcar.totalSize]
  split_ifs
  · exact le_rfl
  · exact hle

theorem ready_push (h : Ready ser sourceId t) (clk : Clock) (msgId : MessageId)
    (targetId : EndpointId) (targetBlobId : BlobId) (src : Block) (maxTime : ℕ)
    (options : BlobOptions) (priority : MessagePriority)
    (ha : Admitted t (.pushOutgoing clk msgId targetId targetBlobId src maxTime options priority)) :
    Ready ser sourceId (step ser sourceId t
      (.pushOutgoing clk msgId targetId targetBlobId src maxTime options priority)) := by
  have hsound := ResendRequests.sound_push h.sound clk msgId sourceId targetId targetBlobId
    (.ofBlock src) maxTime options priority
  have hids : ((t.sender.pushOutgoing clk msgId sourceId targetId targetBlobId src maxTime options
      priority).2.outgoing.map fun p => p.sourceBlobId).Nodup := by
    rcases push_cases h.inv clk msgId targetId targetBlobId src maxTime options priority ha.1 with
      he | ⟨p,hp,he⟩
    · rw [he]
      exact h.ids
    · rw [he, List.map_append, List.map_singleton, hp]
      refine List.nodup_append.mpr ⟨h.ids,List.nodup_singleton _,?_⟩
      rintro _ hid _ hid' rfl
      obtain ⟨q,hq,heq⟩ := List.mem_map.mp hid
      have hle := sending_numbered h.inv hq
      rw [heq, List.mem_singleton.mp hid'] at hle
      exact absurd hle (Nat.not_succ_le_self _)
  have hasked : ∀ message ∈ t.resends, ∃ r ∈ (step ser sourceId t (.pushOutgoing clk msgId targetId
      targetBlobId src maxTime options priority)).pushed, ∃ bgn fin,
      request ser message = some (r.sourceBlobId,bgn,fin) ∧ fin ≤ r.content.length := by
    intro message hm
    obtain ⟨r,hr,hreq⟩ := h.asked message hm
    refine ⟨r,?_,hreq⟩
    simp only [step, push]
    split_ifs
    · exact hr
    · exact List.mem_append_left _ hr
  have hinv := inv_step h.inv _ ha
  have htracked := tracked_step h.inv h.tracked
    (.pushOutgoing clk msgId targetId targetBlobId src maxTime options priority)
  simp only [step, push] at hasked hinv htracked ⊢
  split_ifs at hasked hinv htracked ⊢
  all_goals exact ⟨hinv,htracked,hsound,hids,hasked,h.proper⟩

theorem proper_arrival (h : Ready ser sourceId t) (clk : Clock) {message : MessageView}
    (hm : message ∈ t.fragments) :
    ∀ q ∈ (t.receiver.processIncoming ser clk (getIo t.receiver) message).2.incoming,
      ∀ part ∈ q.doneParts, part.1 < part.2 := by
  intro q hq
  obtain ⟨r,-,f,-,hcut,⟨pos,p,hp,-,hrec,he⟩ | ⟨-,he⟩ | he⟩ := arrival_cases h.inv clk hm
  all_goals rw [he] at hq
  · have hpos := List.length_pos_of_ne_nil hcut.nonempty
    rcases mem_modify hq with hq | ⟨a,ha,rfl⟩
    · exact h.proper q hq
    · obtain rfl := Option.some.inj (hp.symm.trans ha)
      rw [mergeInto, if_pos (receives_accepts hrec hcut), mergeAccepted_done clk f p hrec.canonical]
      exact insert_proper _ _ (by omega) _ (h.proper p (List.mem_of_getElem? hp))
  · have hpos := List.length_pos_of_ne_nil hcut.nonempty
    rcases List.mem_append.mp hq with hq | hq
    · exact h.proper q hq
    · obtain rfl := List.mem_singleton.mp hq
      rw [newIncoming_done]
      simpa using hpos
  · exact h.proper q hq

theorem asked_update (h : Ready ser sourceId t) (clk : Clock) (doSend : SendHandler)
    (maxMessageSize : ℕ) :
    ∀ message ∈ t.resends ++ offered (t.receiver.update ser clk doSend maxMessageSize).sends,
      ∃ r ∈ t.pushed, ∃ bgn fin,
        request ser message = some (r.sourceBlobId,bgn,fin) ∧ fin ≤ r.content.length := by
  intro message hm
  rcases List.mem_append.mp hm with hm | hm
  · exact h.asked message hm
  · obtain ⟨a,ha,rfl⟩ := List.mem_map.mp hm
    obtain ⟨p,hp,-,-,he⟩ := (update_cases t.receiver ser clk doSend maxMessageSize).2.1 a ha
    obtain ⟨r,hr,hrec⟩ := h.inv.receiving p hp
    refine ⟨r,hr,(requestedRange p maxMessageSize).1,(requestedRange p maxMessageSize).2,?_,
      requestedRange_inside hrec (h.proper p hp) maxMessageSize⟩
    rw [he, request_of_range, hrec.sourceBlobId]

theorem ready_step (h : Ready ser sourceId t) (e : Event) (ha : Admitted t e) :
    Ready ser sourceId (step ser sourceId t e) := by
  have hinv := inv_step h.inv e ha
  have htracked := tracked_step h.inv h.tracked e
  cases e with
  | pushOutgoing clk msgId targetId targetBlobId src maxTime options priority =>
    exact ready_push h clk msgId targetId targetBlobId src maxTime options priority ha
  | processOutgoing clk doSend maxMessageSize maxMessages =>
    refine ⟨hinv,htracked,ResendRequests.sound_call OutgoingDrain.buffer_ready.toSteadySource
      h.sound clk doSend maxMessageSize maxMessages,?_,h.asked,h.proper⟩
    exact (processOutgoingLoop_ids clk doSend maxMessageSize _ t.sender []).symm ▸ h.ids
  | updateSender clk doSend maxMessageSize =>
    have hout := (update_cases t.sender ser clk doSend maxMessageSize).2.2
    exact ⟨hinv,htracked,fun p hp => h.sound p (hout p hp),
      h.ids.sublist (List.filter_sublist.map _),h.asked,h.proper⟩
  | updateReceiver clk doSend maxMessageSize =>
    refine ⟨hinv,htracked,h.sound,h.ids,asked_update h clk doSend maxMessageSize,?_⟩
    intro q hq
    rcases (update_cases t.receiver ser clk doSend maxMessageSize).1 q hq with hq | ⟨p,hp,rfl⟩
    · exact h.proper q hq
    · exact h.proper p hp
  | processResend i =>
    cases hget : t.resends[i]? with
    | none => simpa only [step, hget] using h
    | some message =>
      simp only [step, hget] at hinv htracked ⊢
      exact ⟨hinv,htracked,ResendRequests.sound_resend h.sound
        (asked_contained h (List.mem_of_getElem? hget)),
        (processResend_ids t.sender message).symm ▸ h.ids,h.asked,h.proper⟩
  | processIncoming clk i =>
    cases hget : t.fragments[i]? with
    | none => simpa only [step, hget] using h
    | some message =>
      simp only [step, hget] at hinv htracked ⊢
      exact ⟨hinv,htracked,h.sound,h.ids,h.asked,
        proper_arrival h clk (List.mem_of_getElem? hget)⟩
  | fetchAll clk =>
    exact ⟨hinv,htracked,h.sound,h.ids,h.asked,
      fun q hq => h.proper q (List.mem_filter.mp hq).1⟩
  | handleComplete clk =>
    exact ⟨hinv,htracked,h.sound,h.ids,h.asked,
      fun q hq => h.proper q (List.mem_filter.mp hq).1⟩

end Ready

/-! ## What the receiver has -/

theorem mem_modify_or {α : Type} {l : List α} {i : ℕ} {f : α → α} {x : α} (hx : x ∈ l) :
    x ∈ l.modify i f ∨ l[i]? = some x := by
  obtain ⟨j,hj⟩ := List.mem_iff_getElem?.mp hx
  by_cases hij : i = j
  · exact Or.inr (hij ▸ hj)
  · exact Or.inl (List.mem_iff_getElem?.mpr ⟨j,by rw [List.getElem?_modify_ne _ _ hij, hj]⟩)

section Receiver

variable {ser : BlobSerializer} {sourceId : EndpointId} {r : Pushed} {t : Transfer}
  {places : Set ℕ}

theorem key_of_receives {p : PendingBlob Received} (h : Receives sourceId r p) :
    keyOf p = keyFor sourceId r := Prod.ext h.source h.sourceBlobId

/-- The blob that a block is pending as is the one that carries its id. -/
theorem receives_of_key (h : Ready ser sourceId t) (hr : r ∈ t.pushed)
    {p : PendingBlob Received} (hp : p ∈ t.receiver.incoming)
    (hkey : keyOf p = keyFor sourceId r) : Receives sourceId r p := by
  obtain ⟨r',hr',hrec⟩ := h.inv.receiving p hp
  obtain rfl := unique_block h.inv r' hr' r hr
    (congrArg Prod.snd ((key_of_receives hrec).symm.trans hkey))
  exact hrec

theorem eq_of_key (h : Ready ser sourceId t) {p q : PendingBlob Received}
    (hp : p ∈ t.receiver.incoming) (hq : q ∈ t.receiver.incoming) (hkey : keyOf p = keyOf q) :
    p = q := List.inj_on_of_nodup_map h.tracked.nodup hp hq hkey

/-- A fragment goes to the blob that it is of, and the others stay as they
are. -/
theorem held_arrival (h : Ready ser sourceId t) (clk : Clock) {message : MessageView}
    {f : IncomingFragment} (hm : message ∈ t.fragments)
    (hf : readFragment ser message = some f) {p : PendingBlob Received}
    (hp : p ∈ t.receiver.incoming) :
    let m := (t.receiver.processIncoming ser clk (getIo t.receiver) message).2
    (keyOf p = fragmentKey f → mergeInto clk f p ∈ m.incoming) ∧
      (keyOf p ≠ fragmentKey f → p ∈ m.incoming) := by
  have hown (q : PendingBlob Received) : keyOf q = fragmentKey f ↔ Owns f q := Prod.ext_iff
  refine ⟨fun hkey => ?_,fun hkey => ?_⟩
  · simp only [processIncoming, hf]
    rcases pushIncomingFragment_cases t.receiver clk (getIo t.receiver) f with
      ⟨pos,q,-,hq,ho,he⟩ | ⟨_,_,hn,-⟩ | ⟨_,hn,-⟩ | ⟨hn,-⟩
    · obtain rfl := eq_of_key h hp (List.mem_of_getElem? hq) (hkey.trans ((hown q).mpr ho).symm)
      rw [he]
      exact List.mem_iff_getElem?.mpr ⟨pos,by simp [hq]⟩
    all_goals exact absurd ((hown p).mp hkey) (findBySource_none hn p hp)
  · obtain ⟨r,-,f',hf',-,⟨pos,q,hq,ho,-,he⟩ | ⟨-,he⟩ | he⟩ := arrival_cases h.inv clk hm
    all_goals obtain rfl := Option.some.inj (hf.symm.trans hf')
    all_goals rw [he]
    · refine (mem_modify_or hp).resolve_right fun hget => hkey ?_
      obtain rfl := Option.some.inj (hq.symm.trans hget)
      exact (hown q).mpr ho
    · exact List.mem_append_left _ hp
    · exact hp

theorem mergeInto_covered (clk : Clock) {f : IncomingFragment}
    {p : PendingBlob Received} (hrec : Receives sourceId r p) (hcut : CutFrom sourceId r f) :
    covered (mergeInto clk f p).doneParts =
      Set.Ico f.offset (f.offset+f.fragment.length) ∪ covered p.doneParts := by
  rw [mergeInto, if_pos (receives_accepts hrec hcut), mergeAccepted_done clk f p hrec.canonical,
    covered_insert _ _ (Nat.le_add_right _ _) _ hrec.canonical.1]

/-- A fragment from the channel with the id of a block was cut from it. -/
theorem cut_of_id (h : Ready ser sourceId t) (hr : r ∈ t.pushed) {message : MessageView}
    {f : IncomingFragment} (hm : message ∈ t.fragments)
    (hf : readFragment ser message = some f) (hid : f.sourceBlobId = r.sourceBlobId) :
    CutFrom sourceId r f := by
  obtain ⟨r',hr',f',hf',hcut⟩ := h.inv.channel message hm
  obtain rfl := Option.some.inj (hf.symm.trans hf')
  obtain rfl := unique_block h.inv r' hr' r hr (hcut.sourceBlobId.symm.trans hid)
  exact hcut

theorem key_mergeInto (clk : Clock) (f : IncomingFragment) (p : PendingBlob Received) :
    keyOf (mergeInto clk f p) = keyOf p := by
  rw [mergeInto]
  split <;> rfl

variable (ser) in
theorem requestResends_keeps (m : BlobManipulator BufferBlobIo Received) (clk : Clock)
    (doSend : SendHandler) (maxMessageSize : ℕ) (ps : List (PendingBlob Received))
    (log : List SendAttempt) :
    let r := m.requestResends ser clk doSend maxMessageSize ps log
    (∀ a ∈ log, a ∈ r.2) ∧ ∀ p ∈ ps,
      (∃ q ∈ r.1, keyOf q = keyOf p ∧ q.doneParts = p.doneParts) ∧
      (shouldRequestResend p clk.now = true →
        ∃ a ∈ r.2, a.message = resendRequest ser p maxMessageSize) := by
  induction ps generalizing log with
  | nil => exact ⟨fun a ha => ha,fun p hp => by cases hp⟩
  | cons p ps ih =>
    simp only [requestResends]
    split_ifs with hdue
    · obtain ⟨hlog,hps⟩ := ih (offer doSend log m.resendMsgId (resendRequest ser p maxMessageSize))
      refine ⟨fun a ha => hlog a (List.mem_append_left _ ha),fun q hq => ?_⟩
      rcases List.mem_cons.mp hq with rfl | hq
      · exact ⟨⟨_,List.mem_cons_self,rfl,rfl⟩,
          fun _ => ⟨_,hlog _ (List.mem_append_right _ (List.mem_singleton_self _)),rfl⟩⟩
      · obtain ⟨⟨q',hq',heq⟩,hask⟩ := hps q hq
        exact ⟨⟨q',List.mem_cons_of_mem _ hq',heq⟩,hask⟩
    · obtain ⟨hlog,hps⟩ := ih log
      refine ⟨hlog,fun q hq => ?_⟩
      rcases List.mem_cons.mp hq with rfl | hq
      · exact ⟨⟨_,List.mem_cons_self,rfl,rfl⟩,fun hask => absurd hask hdue⟩
      · obtain ⟨⟨q',hq',heq⟩,hask⟩ := hps q hq
        exact ⟨⟨q',List.mem_cons_of_mem _ hq',heq⟩,hask⟩

variable (ser) in
/-- An update keeps a blob that is not too old, and asks for it when it is
due. -/
theorem held_update (clk : Clock) (doSend : SendHandler) (maxMessageSize : ℕ)
    {p : PendingBlob Received} (hp : p ∈ t.receiver.incoming)
    (hfresh : p.maxTime.isExpired clk.now = false) :
    let r := t.receiver.update ser clk doSend maxMessageSize
    (∃ q ∈ r.manipulator.incoming, keyOf q = keyOf p ∧ q.doneParts = p.doneParts) ∧
      (shouldRequestResend p clk.now = true →
        resendRequest ser p maxMessageSize ∈ offered r.sends) := by
  have hin : p ∈ ((t.receiver.cleanupOutgoing clk).cleanupIncoming clk).1.incoming :=
    List.mem_filter.mpr ⟨hp,by rw [hfresh]; rfl⟩
  obtain ⟨hkeep,hask⟩ := (requestResends_keeps ser
    (((t.receiver.cleanupOutgoing clk).cleanupIncoming clk).1) clk doSend maxMessageSize _ []).2 p
    hin
  refine ⟨hkeep,fun hdue => ?_⟩
  obtain ⟨a,ha,he⟩ := hask hdue
  exact List.mem_map.mpr ⟨a,ha,he⟩

theorem pushed_grows (e : Event) (h : r ∈ t.pushed) : r ∈ (step ser sourceId t e).pushed := by
  cases e with
  | pushOutgoing clk msgId targetId targetBlobId src maxTime options priority =>
    simp only [step, push]
    split_ifs
    · exact h
    · exact List.mem_append_left _ h
  | processResend i =>
    simp only [step]
    split <;> exact h
  | processIncoming clk i =>
    simp only [step]
    split <;> exact h
  | _ => exact h

theorem delivered_step (e : Event) (h : Delivered sourceId r t) :
    Delivered sourceId r (step ser sourceId t e) := by
  obtain ⟨c,hc,hkey⟩ := h
  refine ⟨c,?_,hkey⟩
  cases e with
  | pushOutgoing clk msgId targetId targetBlobId src maxTime options priority =>
    simp only [step, push]
    split_ifs <;> exact hc
  | processResend i =>
    simp only [step]
    split <;> exact hc
  | processIncoming clk i =>
    simp only [step]
    split
    · exact hc
    · exact List.mem_cons_of_mem _ hc
  | updateReceiver clk doSend maxMessageSize => exact List.mem_append_right _ hc
  | fetchAll clk => exact List.mem_append_right _ hc
  | handleComplete clk => exact List.mem_append_right _ hc
  | _ => exact hc

/-- A hand over gives all of a complete blob and keeps the others. -/
theorem held_handOver {rr : BlobManipulator BufferBlobIo Received × List (Completion Received)}
    (hinv : Inv ser sourceId (handOver t rr)) (hr : r ∈ t.pushed)
    (hkeep : rr.1.incoming = t.receiver.incoming.filter fun p => !p.receivedEverything)
    (hdone : rr.2.map (fun c => c.pending) =
      t.receiver.incoming.filter fun p => p.receivedEverything)
    {p : PendingBlob Received} (hp : p ∈ t.receiver.incoming)
    (hkey : keyOf p = keyFor sourceId r) :
    if p.receivedEverything then Delivered sourceId r (handOver t rr) else p ∈ rr.1.incoming := by
  split_ifs with hall
  · have hmem : p ∈ rr.2.map fun c => c.pending := hdone ▸ List.mem_filter.mpr ⟨hp,hall⟩
    obtain ⟨c,hc,rfl⟩ := List.mem_map.mp hmem
    have hhist : .handedOver c ∈ (handOver t rr).history :=
      List.mem_append_left _ (List.mem_reverse.mpr (List.mem_map_of_mem hc))
    obtain ⟨-,r',hr',hid,-,-,hcontent,-⟩ := hinv.reported c hhist
    obtain rfl := unique_block hinv r' hr' r hr (hid.trans (congrArg Prod.snd hkey))
    exact ⟨c,hhist,hkey,hcontent⟩
  · rw [hkeep]
    exact List.mem_filter.mpr ⟨hp,by simpa using hall⟩

theorem holds_handOver {rr : BlobManipulator BufferBlobIo Received × List (Completion Received)}
    (hinv : Inv ser sourceId (handOver t rr)) (hr : r ∈ t.pushed)
    (hkeep : rr.1.incoming = t.receiver.incoming.filter fun p => !p.receivedEverything)
    (hdone : rr.2.map (fun c => c.pending) =
      t.receiver.incoming.filter fun p => p.receivedEverything)
    {p : PendingBlob Received} (hp : p ∈ t.receiver.incoming)
    (hkey : keyOf p = keyFor sourceId r) (hsub : places ⊆ covered p.doneParts) :
    Holds sourceId r places (handOver t rr) := by
  have hheld := held_handOver hinv hr hkeep hdone hp hkey
  split_ifs at hheld
  · exact Or.inl hheld
  · exact Or.inr ⟨p,hheld,hkey,hsub⟩

/-- What the receiver has of a block it keeps. -/
theorem holds_step (h : Ready ser sourceId t) (hr : r ∈ t.pushed) (e : Event)
    (ha : Admitted t e) (hk : Kept sourceId r t e) (hh : Holds sourceId r places t) :
    Holds sourceId r places (step ser sourceId t e) := by
  rcases hh with hh | ⟨p,hp,hkey,hsub⟩
  · exact Or.inl (delivered_step e hh)
  have hinv := inv_step h.inv e ha
  have hstays {q : PendingBlob Received} (hq : q ∈ (step ser sourceId t e).receiver.incoming)
      (hqkey : keyOf q = keyOf p) (hqsub : places ⊆ covered q.doneParts) :
      Holds sourceId r places (step ser sourceId t e) :=
    Or.inr ⟨q,hq,hqkey.trans hkey,hqsub⟩
  cases e with
  | pushOutgoing clk msgId targetId targetBlobId src maxTime options priority =>
    refine hstays ?_ rfl hsub
    simp only [step, push]
    split_ifs <;> exact hp
  | processOutgoing clk doSend maxMessageSize maxMessages => exact hstays hp rfl hsub
  | updateSender clk doSend maxMessageSize => exact hstays hp rfl hsub
  | updateReceiver clk doSend maxMessageSize =>
    obtain ⟨⟨q,hq,hqkey,hdone⟩,-⟩ := held_update ser clk doSend maxMessageSize hp
      (hk p hp hkey)
    exact hstays hq hqkey (hdone ▸ hsub)
  | processResend i =>
    refine hstays ?_ rfl hsub
    simp only [step]
    split <;> exact hp
  | processIncoming clk i =>
    cases hget : t.fragments[i]? with
    | none =>
      refine hstays ?_ rfl hsub
      simpa only [step, hget] using hp
    | some message =>
      have hm := List.mem_of_getElem? hget
      obtain ⟨-,-,f,hf,-⟩ := h.inv.channel message hm
      obtain ⟨hown,hother⟩ := held_arrival h clk hm hf hp
      simp only [step, hget] at hstays ⊢
      by_cases hof : keyOf p = fragmentKey f
      · have hid : f.sourceBlobId = r.sourceBlobId := congrArg Prod.snd (hof.symm.trans hkey)
        refine hstays (hown hof) (key_mergeInto clk f p) ?_
        rw [mergeInto_covered clk (receives_of_key h hr hp hkey) (cut_of_id h hr hm hf hid)]
        exact hsub.trans Set.subset_union_right
      · exact hstays (hother hof) rfl hsub
  | fetchAll clk =>
    exact holds_handOver hinv hr rfl (completions_pending t.receiver clk).1 hp hkey hsub
  | handleComplete clk =>
    exact holds_handOver hinv hr rfl (completions_pending t.receiver clk).2 hp hkey hsub

/-- A fragment of the block that arrives adds its bytes. -/
theorem holds_arrival (h : Ready ser sourceId t) (hr : r ∈ t.pushed) (clk : Clock) {i : ℕ}
    {message : MessageView} {f : IncomingFragment} (hget : t.fragments[i]? = some message)
    (hf : readFragment ser message = some f) (hid : f.sourceBlobId = r.sourceBlobId)
    (hh : Holds sourceId r places t) :
    Holds sourceId r (places ∪ Set.Ico f.offset (f.offset+f.fragment.length))
      (step ser sourceId t (.processIncoming clk i)) := by
  rcases hh with hh | ⟨p,hp,hkey,hsub⟩
  · exact Or.inl (delivered_step _ hh)
  have hm := List.mem_of_getElem? hget
  have hcut := cut_of_id h hr hm hf hid
  have hof : keyOf p = fragmentKey f := hkey.trans (Prod.ext hcut.source hid).symm
  simp only [step, hget]
  refine Or.inr ⟨_,(held_arrival h clk hm hf hp).1 hof,(key_mergeInto clk f p).trans hkey,?_⟩
  rw [mergeInto_covered clk (receives_of_key h hr hp hkey) hcut]
  exact Set.union_subset (hsub.trans Set.subset_union_right) Set.subset_union_left

end Receiver

/-! ## What the sender owes -/

/-- The message is a fragment of the block with this byte. -/
def Brings (ser : BlobSerializer) (r : Pushed) (x : ℕ) (message : MessageView) : Prop :=
  ∃ f, readFragment ser message = some f ∧ f.sourceBlobId = r.sourceBlobId ∧
    x ∈ Set.Ico f.offset (f.offset+f.fragment.length)

/-- The byte is to do, or it was sent in a fragment after the first `n`. -/
def Owed (ser : BlobSerializer) (r : Pushed) (n x : ℕ) (t : Transfer) : Prop :=
  (∃ p ∈ t.sender.outgoing, p.sourceBlobId = r.sourceBlobId ∧ x ∈ covered p.todoParts) ∨
    ∃ i message, n ≤ i ∧ t.fragments[i]? = some message ∧ Brings ser r x message

section Sender

variable {ser : BlobSerializer} {sourceId : EndpointId} {r : Pushed} {t : Transfer} {n x : ℕ}

theorem eq_of_id (h : Ready ser sourceId t) {p q : PendingBlob BufferBlobIo}
    (hp : p ∈ t.sender.outgoing) (hq : q ∈ t.sender.outgoing)
    (hid : p.sourceBlobId = q.sourceBlobId) : p = q :=
  List.inj_on_of_nodup_map h.ids hp hq hid

/-- What is offered carries the bytes that were cut. -/
theorem brings_cut {p : PendingBlob BufferBlobIo} (h : Carries sourceId r p)
    (maxMessageSize bgn : ℕ) (hx : x ∈ Set.Ico bgn (bgn+(cut ser maxMessageSize p bgn).length)) :
    Brings ser r x (fragmentMessage ser p bgn (cut ser maxMessageSize p bgn)) := by
  have hw : cut ser maxMessageSize p bgn ≠ [] := by
    apply List.ne_nil_of_length_pos
    have hlt := hx.1.trans_lt hx.2
    omega
  have hs : ByteBlock.Slice r.content bgn (cut ser maxMessageSize p bgn) := by
    rw [← h.content]
    exact ByteBlock.slice_of_take _ _ _
  have hb := ByteBlock.slice_bound hs hw
  refine ⟨⟨p.msgId,p.info.sourceId,p.sourceBlobId,p.targetBlobId,bgn,p.info.totalSize,
    cut ser maxMessageSize p bgn,p.info.options,p.info.priority⟩,?_,h.sourceBlobId,hx⟩
  have hlt := hx.1.trans_lt hx.2
  simp only [readFragment, fragmentMessage, MessageView.content, MessageView.isSigned,
    Bool.or_false, Bool.false_eq_true, if_false, ser.header.decode_encode]
  rw [if_pos (by simp only [fragmentHeader, h.totalSize]; omega),
    if_pos (by simp only [fragmentHeader, h.totalSize]; omega)]
  rfl

/-- A turn of the sending loop leaves a byte to do or sends it. -/
theorem owed_turn (m : BlobManipulator BufferBlobIo BufferBlobIo) (clk : Clock)
    (doSend : SendHandler) (maxMessageSize : ℕ) {p : PendingBlob BufferBlobIo}
    (log : List SendAttempt) (h : Carries sourceId r p) (hx : x ∈ covered p.todoParts) :
    let s := m.processOne ser clk doSend maxMessageSize p log
    x ∈ covered s.1.todoParts ∨ ∃ a ∈ s.2, Brings ser r x a.message := by
  rcases processOne_cases m ser clk doSend maxMessageSize p log with
    ⟨q,he,hq⟩ | ⟨front,bgn,fin,q,hlast,-,he,hq⟩
  · rw [he, hq]
    exact Or.inl hx
  · rw [he, hq]
    by_cases hcut : x ∈ Set.Ico bgn (bgn+(cut ser maxMessageSize p bgn).length)
    · exact Or.inr ⟨_,List.mem_append_right _ (List.mem_singleton_self _),
        brings_cut h maxMessageSize bgn hcut⟩
    · left
      change x ∈ covered (advanceTodo p.todoParts _ fin)
      rw [hlast, covered_append, covered_cons, covered_nil, Set.union_empty] at hx
      rw [hlast, ResendRequests.advanceTodo_append, covered_append]
      refine hx.imp_right fun hx => ?_
      rw [Set.mem_Ico] at hx hcut
      rw [if_neg (by omega), covered_cons, covered_nil, Set.union_empty]
      exact ⟨by omega,hx.2⟩

theorem owed_call (h : Ready ser sourceId t) (hr : r ∈ t.pushed) (clk : Clock)
    (doSend : SendHandler) (maxMessageSize maxMessages : ℕ) {p : PendingBlob BufferBlobIo}
    (hp : p ∈ t.sender.outgoing) (hid : p.sourceBlobId = r.sourceBlobId)
    (hx : x ∈ covered p.todoParts) :
    let s := t.sender.processOutgoing ser clk doSend maxMessageSize maxMessages
    (∃ q ∈ s.1.outgoing, q.sourceBlobId = r.sourceBlobId ∧ x ∈ covered q.todoParts) ∨
      ∃ a ∈ s.2, Brings ser r x a.message := by
  have hrule := processOutgoingLoop_rule
    (fun q log => (∃ r' ∈ t.pushed, BlobIntegrity.Carries sourceId r' q) ∧
      (q.sourceBlobId = r.sourceBlobId →
        x ∈ covered q.todoParts ∨ ∃ a ∈ log, Brings ser r x a.message))
    (fun _ => True) ser clk doSend maxMessageSize t.sender ?_
    (min maxMessages t.sender.outgoing.length) t.sender [] rfl rfl trivial ?_
  · have hmem : p.sourceBlobId ∈ (t.sender.processOutgoing ser clk doSend maxMessageSize
        maxMessages).1.outgoing.map fun p => p.sourceBlobId := by
      rw [processOutgoing, processOutgoingLoop_ids]
      exact List.mem_map_of_mem hp
    obtain ⟨q,hq,hqid⟩ := List.mem_map.mp hmem
    exact ((hrule.1 q hq).2 (hqid.trans hid)).imp_left fun hx => ⟨q,hq,hqid.trans hid,hx⟩
  · rintro m q log - - - ⟨⟨r',hr',hcar⟩,howed⟩
    have hmono : ∀ a ∈ log, a ∈ (m.processOne ser clk doSend maxMessageSize q log).2 := by
      rcases processOne_cases m ser clk doSend maxMessageSize q log with
        ⟨_,he,-⟩ | ⟨_,_,_,_,-,-,he,-⟩
      · exact fun a ha => he ▸ ha
      · exact fun a ha => he ▸ List.mem_append_left _ ha
    have hlogged (hl : ∃ a ∈ log, Brings ser r x a.message) :
        ∃ a ∈ (m.processOne ser clk doSend maxMessageSize q log).2, Brings ser r x a.message := by
      obtain ⟨a,ha,hb⟩ := hl
      exact ⟨a,hmono a ha,hb⟩
    refine ⟨⟨⟨r',hr',(carries_turn m clk doSend maxMessageSize log hcar).1⟩,fun hqid => ?_⟩,trivial,
      fun q' hq' => ⟨hq'.1,fun hqid => (hq'.2 hqid).imp_right hlogged⟩⟩
    rw [processOne_id] at hqid
    rcases howed hqid with hx | hl
    · obtain rfl := unique_block h.inv r' hr' r hr (hcar.sourceBlobId.symm.trans hqid)
      exact owed_turn m clk doSend maxMessageSize log hcar hx
    · exact Or.inr (hlogged hl)
  · intro q hq
    refine ⟨h.inv.sending q hq,fun hqid => Or.inl ?_⟩
    rwa [eq_of_id h hq hp (hqid.trans hid.symm)]

/-- A request adds what it names to the blob that it is for, and takes
nothing from any. -/
theorem todo_resend (h : Ready ser sourceId t) {message : MessageView} (hm : message ∈ t.resends)
    {p : PendingBlob BufferBlobIo} (hp : p ∈ t.sender.outgoing) :
    ∃ q ∈ (t.sender.processResend ser message).outgoing, q.sourceBlobId = p.sourceBlobId ∧
      covered p.todoParts ⊆ covered q.todoParts ∧
      ∀ bgn fin, request ser message = some (p.sourceBlobId,bgn,fin) →
        Set.Ico bgn (min (requestEnd p fin) p.info.totalSize) ⊆ covered q.todoParts := by
  obtain ⟨r,-,bgn,fin,hreq,-⟩ := h.asked message hm
  have hin := asked_contained h hm r.sourceBlobId bgn fin hreq
  cases hplace : placeOf t.sender r.sourceBlobId with
  | none =>
    rw [ResendRequests.processResend_absent hreq hplace]
    refine ⟨p,hp,rfl,subset_rfl,fun bgn' fin' hreq' => ?_⟩
    obtain ⟨hid,-,-⟩ : r.sourceBlobId = p.sourceBlobId ∧ bgn = bgn' ∧ fin = fin' := by
      simpa using hreq.symm.trans hreq'
    have hnone := List.findIdx?_eq_none_iff.mp hplace p hp
    exact absurd hid.symm (of_decide_eq_false hnone)
  | some pos =>
    obtain ⟨q,hq,hid⟩ := findIdx_some hplace
    have hres := (ResendRequests.resent_iff (h.sound q (List.mem_of_getElem? hq)) bgn fin).mpr
      (hin pos q hplace hq)
    rw [ResendRequests.processResend_place hreq hplace hq]
    have hlt : pos < t.sender.outgoing.length := (List.getElem?_eq_some_iff.mp hq).1
    by_cases heq : p = q
    · subst heq
      refine ⟨_,List.mem_iff_getElem?.mpr ⟨pos,List.getElem?_set_self hlt⟩,hres.same.sourceBlobId,
        ?_,fun bgn' fin' hreq' => ?_⟩
      · rw [hres.todo]
        exact Set.subset_union_left
      · obtain ⟨-,rfl,rfl⟩ : r.sourceBlobId = p.sourceBlobId ∧ bgn = bgn' ∧ fin = fin' := by
          simpa using hreq.symm.trans hreq'
        rw [hres.todo]
        exact Set.subset_union_right
    · obtain ⟨j,hj⟩ := List.mem_iff_getElem?.mp hp
      have hne : pos ≠ j := by
        rintro rfl
        exact heq (Option.some.inj (hj.symm.trans hq))
      refine ⟨p,List.mem_iff_getElem?.mpr ⟨j,(List.getElem?_set_ne hne).trans hj⟩,rfl,subset_rfl,
        fun bgn' fin' hreq' => absurd (eq_of_id h hp (List.mem_of_getElem? hq) ?_) heq⟩
      obtain ⟨hpid,-,-⟩ : r.sourceBlobId = p.sourceBlobId ∧ bgn = bgn' ∧ fin = fin' := by
        simpa using hreq.symm.trans hreq'
      exact hpid.symm.trans (of_decide_eq_true hid).symm

/-- An update keeps a blob that is not given up. -/
theorem kept_update (clk : Clock) (doSend : SendHandler) (maxMessageSize : ℕ)
    (hk : Kept sourceId r t (.updateSender clk doSend maxMessageSize))
    {p : PendingBlob BufferBlobIo} (hp : p ∈ t.sender.outgoing)
    (hid : p.sourceBlobId = r.sourceBlobId) :
    p ∈ (t.sender.update ser clk doSend maxMessageSize).manipulator.outgoing := by
  obtain ⟨hmax,hlinger⟩ := hk p hp hid
  refine List.mem_filter.mpr ⟨hp,?_⟩
  cases hsent : p.sentEverything with
  | false => simp [hmax]
  | true => simp [hmax, hlinger hsent]

theorem fragments_grow (e : Event) : t.fragments <+: (step ser sourceId t e).fragments := by
  cases e with
  | pushOutgoing clk msgId targetId targetBlobId src maxTime options priority =>
    simp only [step, push]
    split_ifs <;> exact List.prefix_refl _
  | processOutgoing clk doSend maxMessageSize maxMessages => exact List.prefix_append _ _
  | processResend i =>
    simp only [step]
    split <;> exact List.prefix_refl _
  | processIncoming clk i =>
    simp only [step]
    split <;> exact List.prefix_refl _
  | _ => exact List.prefix_refl _

theorem kept_getElem? {α : Type} {l l' : List α} {i : ℕ} {a : α} (h : l <+: l')
    (ha : l[i]? = some a) : l'[i]? = some a := by
  obtain ⟨more,rfl⟩ := h
  exact (List.getElem?_append_left (List.getElem?_eq_some_iff.mp ha).1).trans ha

/-- A byte that is owed stays so, whatever else goes on. -/
theorem owed_step (h : Ready ser sourceId t) (hr : r ∈ t.pushed) (e : Event)
    (hk : Kept sourceId r t e) (hn : n ≤ t.fragments.length) (ho : Owed ser r n x t) :
    Owed ser r n x (step ser sourceId t e) := by
  rcases ho with ⟨p,hp,hid,hx⟩ | ⟨i,message,hi,hget,hb⟩
  · cases e with
    | pushOutgoing clk msgId targetId targetBlobId src maxTime options priority =>
      refine Or.inl ⟨p,?_,hid,hx⟩
      simp only [step, push, pushOutgoing, pushOutgoingIo]
      split_ifs
      all_goals simp [hp]
    | processOutgoing clk doSend maxMessageSize maxMessages =>
      refine (owed_call h hr clk doSend maxMessageSize maxMessages hp hid hx).imp_right ?_
      rintro ⟨a,ha,hb⟩
      obtain ⟨i,hi⟩ := List.mem_iff_getElem?.mp (List.mem_map_of_mem (f := fun a => a.message) ha)
      refine ⟨t.fragments.length+i,_,by omega,?_,hb⟩
      change (t.fragments ++ _)[t.fragments.length+i]? = _
      rw [List.getElem?_append_right (by omega), Nat.add_sub_cancel_left]
      exact hi
    | updateSender clk doSend maxMessageSize =>
      exact Or.inl ⟨p,kept_update clk doSend maxMessageSize hk hp hid,hid,hx⟩
    | processResend i =>
      refine Or.inl ?_
      cases hget : t.resends[i]? with
      | none => exact ⟨p,by simpa only [step, hget] using hp,hid,hx⟩
      | some message =>
        obtain ⟨q,hq,hqid,hsub,-⟩ := todo_resend h (List.mem_of_getElem? hget) hp
        exact ⟨q,by simpa only [step, hget] using hq,hqid.trans hid,hsub hx⟩
    | processIncoming clk i =>
      refine Or.inl ⟨p,?_,hid,hx⟩
      simp only [step]
      split <;> exact hp
    | _ => exact Or.inl ⟨p,hp,hid,hx⟩
  · exact Or.inr ⟨i,message,hi,kept_getElem? (fragments_grow e) hget,hb⟩

theorem resends_grow (e : Event) : t.resends <+: (step ser sourceId t e).resends := by
  cases e with
  | pushOutgoing clk msgId targetId targetBlobId src maxTime options priority =>
    simp only [step, push]
    split_ifs <;> exact List.prefix_refl _
  | updateReceiver clk doSend maxMessageSize => exact List.prefix_append _ _
  | processResend i =>
    simp only [step]
    split <;> exact List.prefix_refl _
  | processIncoming clk i =>
    simp only [step]
    split <;> exact List.prefix_refl _
  | _ => exact List.prefix_refl _

theorem sending_step (e : Event) (hk : Kept sourceId r t e) (hs : Sending r t) :
    Sending r (step ser sourceId t e) := by
  have hids {outgoing : List (PendingBlob BufferBlobIo)}
      (h : (outgoing.map fun p => p.sourceBlobId) =
        t.sender.outgoing.map fun p => p.sourceBlobId) :
      ∃ q ∈ outgoing, q.sourceBlobId = r.sourceBlobId := by
    obtain ⟨p,hp,hid⟩ := hs
    have hmem : p.sourceBlobId ∈ outgoing.map fun p => p.sourceBlobId :=
      h ▸ List.mem_map_of_mem hp
    obtain ⟨q,hq,hqid⟩ := List.mem_map.mp hmem
    exact ⟨q,hq,hqid.trans hid⟩
  cases e with
  | pushOutgoing clk msgId targetId targetBlobId src maxTime options priority =>
    obtain ⟨p,hp,hid⟩ := hs
    refine ⟨p,?_,hid⟩
    simp only [step, push, pushOutgoing, pushOutgoingIo]
    split_ifs
    all_goals simp [hp]
  | processOutgoing clk doSend maxMessageSize maxMessages =>
    exact hids (processOutgoingLoop_ids clk doSend maxMessageSize _ t.sender [])
  | updateSender clk doSend maxMessageSize =>
    obtain ⟨p,hp,hid⟩ := hs
    exact ⟨p,kept_update clk doSend maxMessageSize hk hp hid,hid⟩
  | processResend i =>
    simp only [step]
    split
    · exact hs
    · exact hids (processResend_ids t.sender _)
  | processIncoming clk i =>
    simp only [step]
    split <;> exact hs
  | _ => exact hs

end Sender

/-! ## Exchanges -/

/-- The block is on its way. -/
structure Course (ser : BlobSerializer) (sourceId : EndpointId) (r : Pushed) (places : Set ℕ)
    (t : Transfer) : Prop where
  ready : Ready ser sourceId t
  pushed : r ∈ t.pushed
  sending : Sending r t
  holds : Holds sourceId r places t

section Exchanges

variable {ser : BlobSerializer} {sourceId : EndpointId} {r : Pushed} {t : Transfer}
  {places : Set ℕ} {es : List Event}

theorem course_step {e : Event} (h : Course ser sourceId r places t)
    (hok : Admitted t e ∧ Kept sourceId r t e) :
    Course ser sourceId r places (step ser sourceId t e) :=
  ⟨ready_step h.ready e hok.1,pushed_grows e h.pushed,sending_step e hok.2 h.sending,
    holds_step h.ready h.pushed e hok.1 hok.2 h.holds⟩

theorem course_run (h : Course ser sourceId r places t)
    (hs : StepRun.Steps (step ser sourceId) (fun t e => Admitted t e ∧ Kept sourceId r t e) t es) :
    Course ser sourceId r places (StepRun.run (step ser sourceId) t es) :=
  StepRun.run_invariant (fun _ _ h hok => course_step h hok) h hs

variable (ser sourceId) in
theorem run_grows (t : Transfer) (es : List Event) :
    t.fragments <+: (StepRun.run (step ser sourceId) t es).fragments ∧
      t.resends <+: (StepRun.run (step ser sourceId) t es).resends := by
  induction es generalizing t with
  | nil => exact ⟨List.prefix_refl _,List.prefix_refl _⟩
  | cons e es ih =>
    obtain ⟨hf,hr⟩ := ih (step ser sourceId t e)
    exact ⟨(fragments_grow e).trans hf,(resends_grow e).trans hr⟩

/-- What is received in the course of a run is there at its end. -/
theorem course_received {n : ℕ} {message : MessageView} {f : IncomingFragment}
    (h : Course ser sourceId r places t)
    (hs : StepRun.Steps (step ser sourceId) (fun t e => Admitted t e ∧ Kept sourceId r t e) t es)
    (hget : (StepRun.run (step ser sourceId) t es).fragments[n]? = some message)
    (hf : readFragment ser message = some f) (hid : f.sourceBlobId = r.sourceBlobId)
    (hsome : StepRun.Sometime (step ser sourceId) (ReceivesAt n) t es) :
    Course ser sourceId r (places ∪ Set.Ico f.offset (f.offset+f.fragment.length))
      (StepRun.run (step ser sourceId) t es) := by
  induction es generalizing t with
  | nil => exact hsome.elim
  | cons e es ih =>
    rcases hsome with hnow | hlater
    · cases e with
      | processIncoming clk i =>
        obtain ⟨rfl,hlt⟩ := hnow
        have hhere : t.fragments[i]? = some message := by
          obtain ⟨more,hmore⟩ := (run_grows ser sourceId t
            (.processIncoming clk i::es)).1
          rw [← hmore, List.getElem?_append_left hlt] at hget
          exact hget
        obtain ⟨hready,hpushed,hsending,-⟩ := course_step h hs.1
        have hgot : Course ser sourceId r (places ∪ Set.Ico f.offset
            (f.offset+f.fragment.length)) (step ser sourceId t (.processIncoming clk i)) :=
          ⟨hready,hpushed,hsending,holds_arrival h.ready h.pushed clk hhere hf hid h.holds⟩
        have hend := course_run hgot hs.2
        exact hend
      | _ => exact hnow.elim
    · exact ih (course_step h hs.1) hs.2 hget hlater

theorem owed_run {n x : ℕ} (h : Course ser sourceId r places t)
    (hs : StepRun.Steps (step ser sourceId) (fun t e => Admitted t e ∧ Kept sourceId r t e) t es)
    (hn : n ≤ t.fragments.length) (ho : Owed ser r n x t) :
    Owed ser r n x (StepRun.run (step ser sourceId) t es) := by
  induction es generalizing t with
  | nil => exact ho
  | cons e es ih =>
    exact ih (course_step h hs.1) hs.2 (hn.trans (fragments_grow e).length_le)
      (owed_step h.ready h.pushed e hs.1.2 hn ho)

/-- The parts of an exchange go on as a run does. -/
structure Served (ser : BlobSerializer) (sourceId : EndpointId) (r : Pushed) (places : Set ℕ)
    (t : Transfer) (x : Exchange) : Prop where
  kept : Kept sourceId r (x.due ser sourceId t)
    (.updateReceiver x.clk x.doSend x.maxMessageSize)
  heard : Course ser sourceId r places (x.heard ser sourceId t)
  resumed : Course ser sourceId r places (x.resumed ser sourceId t)
  after : StepRun.Steps (step ser sourceId) (fun t e => Admitted t e ∧ Kept sourceId r t e)
    (x.resumed ser sourceId t) x.after

theorem course_due {x : Exchange} (h : Course ser sourceId r places t)
    (hx : Serves ser sourceId r t x) : Course ser sourceId r places (x.due ser sourceId t) :=
  course_run h (StepRun.steps_append.mp hx.steps).1

theorem served {x : Exchange} (hx : Serves ser sourceId r t x)
    (h : Course ser sourceId r places (x.due ser sourceId t)) :
    Served ser sourceId r places t x := by
  obtain ⟨-,hupdate,hrest⟩ := StepRun.steps_append.mp hx.steps
  obtain ⟨hbetween,hresend,hafter⟩ := StepRun.steps_append.mp hrest
  have hheard := course_run (course_step h hupdate) hbetween
  exact ⟨hupdate.2,hheard,course_step hheard hresend,hafter⟩

/-- The update of the exchange asks for a blob that is not complete, and the
sender is to do what is asked for. -/
theorem serves_owed {x : Exchange} (hx : Serves ser sourceId r t x)
    (h : Course ser sourceId r places (x.due ser sourceId t)) {p : PendingBlob Received}
    (hp : p ∈ (x.due ser sourceId t).receiver.incoming) (hkey : keyOf p = keyFor sourceId r)
    (hinc : p.receivedEverything = false) :
    ∀ y ∈ Set.Ico (requestedRange p x.maxMessageSize).1 (requestedRange p x.maxMessageSize).2,
      Owed ser r (x.resumed ser sourceId t).fragments.length y (x.resumed ser sourceId t) := by
  obtain ⟨hkept,hheard,-,-⟩ := served hx h
  have hrec := receives_of_key h.ready h.pushed hp hkey
  have hgap := gap_of_incomplete hrec (h.ready.proper p hp) hinc hx.size
  have hinside := requestedRange_inside hrec (h.ready.proper p hp) x.maxMessageSize
  -- the request is sent and processed
  have hoffered := (held_update ser x.clk x.doSend x.maxMessageSize hp
    (hkept p hp hkey)).2 (hx.due p hp hkey)
  have hat : (x.heard ser sourceId t).resends[x.i]? =
      some (resendRequest ser p x.maxMessageSize) := by
    refine hx.heard _ ?_ ⟨congrArg Prod.fst hkey,requestedRange p x.maxMessageSize,[],?_⟩
    · change _ ∈ ((x.due ser sourceId t).resends ++ offered _).drop _
      rw [List.drop_left]
      exact hoffered
    · have hdecode := ser.resend.decode_encode
        (p.sourceBlobId,requestedRange p x.maxMessageSize) []
      rw [List.append_nil] at hdecode
      rw [← congrArg Prod.snd hkey]
      exact hdecode
  -- the blob of the sender that it is for
  obtain ⟨s,hs,hid⟩ := hheard.sending
  obtain ⟨q,hq,hqid,-,htodo⟩ := todo_resend hheard.ready (List.mem_of_getElem? hat) hs
  have hsize : s.info.totalSize = r.content.length := by
    obtain ⟨r',hr',hcar⟩ := hheard.ready.inv.sending s hs
    obtain rfl := unique_block hheard.ready.inv r' hr' r hheard.pushed
      (hcar.sourceBlobId.symm.trans hid)
    exact hcar.totalSize
  have hnamed := htodo (requestedRange p x.maxMessageSize).1 (requestedRange p x.maxMessageSize).2
    ((request_of_range x.maxMessageSize).trans (by rw [hrec.sourceBlobId, hid]))
  rw [requestEnd, if_neg (Nat.ne_zero_of_lt hgap.nonempty), hsize, min_eq_left hinside] at hnamed
  refine fun y hy => Or.inl ⟨q,?_,hqid.trans hid,hnamed hy⟩
  simp only [Exchange.resumed, step, hat]
  exact hq

/-- A byte that the sender is to do after the request is received in the rest
of the exchange. -/
theorem serves_received {x : Exchange} (hx : Serves ser sourceId r t x)
    (h : Course ser sourceId r places (x.due ser sourceId t)) {y : ℕ}
    (ho : Owed ser r (x.resumed ser sourceId t).fragments.length y (x.resumed ser sourceId t)) :
    Course ser sourceId r (places ∪ {y}) (x.finished ser sourceId t) := by
  obtain ⟨-,-,hresumed,hafter⟩ := served hx h
  have hlater : Owed ser r (x.resumed ser sourceId t).fragments.length y
      (x.finished ser sourceId t) := owed_run hresumed hafter le_rfl ho
  rcases hlater with
    ⟨p,hp,hid,hy⟩ | ⟨n,message,hn,hget,f,hf,hid,hy⟩
  · rw [hx.sent p hp hid, covered_nil] at hy
    exact hy.elim
  · obtain ⟨hlt,rfl⟩ := List.getElem?_eq_some_iff.mp hget
    have hof : FragmentOf ser r (x.finished ser sourceId t).fragments[n] := by
      rw [FragmentOf, hf, Option.map_some, hid]
    have hgot := course_received hresumed hafter hget hf hid (hx.received n hlt hn hof)
    refine ⟨hgot.ready,hgot.pushed,hgot.sending,hgot.holds.imp_right ?_⟩
    rintro ⟨p,hp,hkey,hsub⟩
    refine ⟨p,hp,hkey,(Set.union_subset_union_right places ?_).trans hsub⟩
    exact Set.singleton_subset_iff.mpr hy

/-- How many bytes of the block are not among these. -/
noncomputable def unheld (r : Pushed) (places : Set ℕ) : ℕ :=
  (Set.Ico 0 r.content.length \ places).ncard

theorem unheld_mono {places' : Set ℕ} (h : places ⊆ places') :
    unheld r places' ≤ unheld r places :=
  Set.ncard_le_ncard (Set.sdiff_subset_sdiff_right h) ((Set.finite_Ico _ _).subset Set.sdiff_subset)

theorem unheld_add {y : ℕ} (hy : y < r.content.length) (hout : y ∉ places) :
    unheld r (places ∪ {y}) < unheld r places := by
  refine Set.ncard_lt_ncard ⟨Set.sdiff_subset_sdiff_right Set.subset_union_left,fun hback => ?_⟩
    ((Set.finite_Ico _ _).subset Set.sdiff_subset)
  exact (hback ⟨⟨Nat.zero_le y,hy⟩,hout⟩).2 (Or.inr rfl)

theorem unheld_eq_zero : unheld r places = 0 ↔ Set.Ico 0 r.content.length ⊆ places := by
  rw [unheld, Set.ncard_eq_zero ((Set.finite_Ico _ _).subset Set.sdiff_subset),
    Set.sdiff_eq_empty]

/-- A blob of which every byte is there is complete. -/
theorem complete_of_whole {p : PendingBlob Received} (h : Receives sourceId r p)
    (hproper : ∀ part ∈ p.doneParts, part.1 < part.2)
    (hall : Set.Ico 0 r.content.length ⊆ covered p.doneParts) : p.receivedEverything = true := by
  by_contra hinc
  have hgap := gap_of_incomplete h hproper (Bool.eq_false_of_not_eq_true hinc) (le_refl 2)
  have hinside := requestedRange_inside h hproper 2
  exact hgap.missing _ le_rfl hgap.nonempty
    (hall ⟨Nat.zero_le _,hgap.nonempty.trans_le hinside⟩)

/-- After an exchange there is less of the block that the receiver has not. -/
theorem serves_less {x : Exchange} {n : ℕ} (h : Course ser sourceId r places t)
    (hx : Serves ser sourceId r t x) (hn : unheld r places ≤ n+1) :
    ∃ places', Course ser sourceId r places' (x.finished ser sourceId t) ∧
      unheld r places' ≤ n := by
  have hdue := course_due h hx
  have hall {places' : Set ℕ} (hsub : Set.Ico 0 r.content.length ⊆ places')
      (hc : Course ser sourceId r places' (x.due ser sourceId t)) :
      ∃ places', Course ser sourceId r places' (x.finished ser sourceId t) ∧
        unheld r places' ≤ n := by
    obtain ⟨-,-,hresumed,hafter⟩ := served hx hc
    exact ⟨places',course_run hresumed hafter,(unheld_eq_zero.mpr hsub).le.trans (Nat.zero_le n)⟩
  rcases hdue.holds with hdone | ⟨p,hp,hkey,hsub⟩
  · exact hall (Set.subset_univ _) ⟨hdue.ready,hdue.pushed,hdue.sending,Or.inl hdone⟩
  have hhas : Course ser sourceId r (covered p.doneParts) (x.due ser sourceId t) :=
    ⟨hdue.ready,hdue.pushed,hdue.sending,Or.inr ⟨p,hp,hkey,subset_rfl⟩⟩
  have hrec := receives_of_key hdue.ready hdue.pushed hp hkey
  cases hinc : p.receivedEverything with
  | true =>
    refine hall ?_ hhas
    rw [receives_everything hrec hinc, covered_cons, covered_nil, Set.union_empty]
  | false =>
    have hproper := hdue.ready.proper p hp
    have hgap := gap_of_incomplete hrec hproper hinc hx.size
    have hinside := requestedRange_inside hrec hproper x.maxMessageSize
    have howed := serves_owed hx hhas hp hkey hinc _ ⟨le_rfl,hgap.nonempty⟩
    refine ⟨_,serves_received hx hhas howed,?_⟩
    have hless := unheld_add (r := r) (hgap.nonempty.trans_le hinside)
      (hgap.missing _ le_rfl hgap.nonempty)
    have hmono := unheld_mono (r := r) hsub
    omega

theorem exchanges_less {xs : List Exchange} (h : Course ser sourceId r places t)
    (hxs : StepRun.Steps (fun t x => x.finished ser sourceId t) (Serves ser sourceId r) t xs)
    (hn : unheld r places ≤ xs.length) :
    ∃ places', Course ser sourceId r places'
      (StepRun.run (fun t x => x.finished ser sourceId t) t xs) ∧ unheld r places' = 0 := by
  induction xs generalizing t places with
  | nil => exact ⟨places,h,Nat.le_zero.mp hn⟩
  | cons x xs ih =>
    obtain ⟨places',hcourse,hless⟩ := serves_less h hxs.1 hn
    exact ih hcourse hxs.2 hless

/-- In a run with distinct targets (`Admitted`), when a block is pending on both
sides and neither gives it up, as many exchanges (`Serves`) as it has bytes
complete it, however much of what else is sent is lost, copied or late; the next
fetch hands over the block as it was pushed. -/
theorem resends_complete (ser : BlobSerializer) (sourceId : EndpointId)
    (fragmentMsgId resendMsgId prepareMsgId : MessageId) (maxBlobSize : ℕ) (es : List Event)
    (hes : StepRun.Steps (step ser sourceId) Admitted
      (start fragmentMsgId resendMsgId prepareMsgId maxBlobSize) es)
    (r : Pushed) (xs : List Exchange) (clk : Clock) :
    let t := StepRun.run (step ser sourceId)
      (start fragmentMsgId resendMsgId prepareMsgId maxBlobSize) es
    r ∈ t.pushed → Sending r t →
    (∃ p ∈ t.receiver.incoming, keyOf p = keyFor sourceId r) →
    StepRun.Steps (fun t x => x.finished ser sourceId t) (Serves ser sourceId r) t xs →
    r.content.length ≤ xs.length →
    Delivered sourceId r (step ser sourceId
      (StepRun.run (fun t x => x.finished ser sourceId t) t xs) (.fetchAll clk)) := by
  intro t hr hsending hpending hxs hlen
  have hstep (t : Transfer) (e : Event) (h : Ready ser sourceId t) (ha : Admitted t e) :
      Ready ser sourceId (step ser sourceId t e) := ready_step h e ha
  have hready : Ready ser sourceId t := StepRun.run_invariant hstep (ready_start _ _ _ _) hes
  obtain ⟨p,hp,hkey⟩ := hpending
  have hcourse : Course ser sourceId r ∅ t :=
    ⟨hready,hr,hsending,Or.inr ⟨p,hp,hkey,Set.empty_subset _⟩⟩
  have hall : unheld r ∅ ≤ xs.length := by
    rw [unheld, Set.sdiff_empty, Set.ncard_Ico_nat]
    omega
  obtain ⟨places,hend,hzero⟩ := exchanges_less hcourse hxs hall
  rcases hend.holds with hdone | ⟨q,hq,hqkey,hsub⟩
  · exact delivered_step _ hdone
  · have hwhole := (unheld_eq_zero.mp hzero).trans hsub
    have hdone := complete_of_whole (receives_of_key hend.ready hend.pushed hq hqkey)
      (hend.ready.proper q hq) hwhole
    have hheld := held_handOver (inv_step hend.ready.inv (.fetchAll clk) trivial) hend.pushed rfl
      (completions_pending _ clk).1 hq hqkey
    rwa [if_pos hdone] at hheld

end Exchanges

/-! ## A lost fragment -/

section Lost

variable (ser : BlobSerializer) (sourceId : EndpointId) (r : Pushed) (t : Transfer)

instance (e : Event) : Decidable (Kept sourceId r t e) :=
  match e with
  | .updateSender _ _ _ => List.decidableBAll _ _
  | .updateReceiver _ _ _ => List.decidableBAll _ _
  | .pushOutgoing .. => .isTrue trivial
  | .processOutgoing .. => .isTrue trivial
  | .processResend _ => .isTrue trivial
  | .processIncoming .. => .isTrue trivial
  | .fetchAll _ => .isTrue trivial
  | .handleComplete _ => .isTrue trivial

instance (n : ℕ) (e : Event) : Decidable (ReceivesAt n t e) :=
  match e with
  | .processIncoming _ _ => instDecidableAnd
  | .pushOutgoing .. => .isFalse id
  | .processOutgoing .. => .isFalse id
  | .updateSender .. => .isFalse id
  | .processResend _ => .isFalse id
  | .updateReceiver .. => .isFalse id
  | .fetchAll _ => .isFalse id
  | .handleComplete _ => .isFalse id

instance (message : MessageView) : Decidable (FragmentOf ser r message) :=
  inferInstanceAs (Decidable (_ = _))

instance (key : BlobKey) (message : MessageView) : Decidable (Requests ser key message) :=
  match h : ser.resend.decode message.data with
  | some ((id,part),rest) =>
    decidable_of_iff (message.targetId = key.1 ∧ id = key.2) (by
      simp only [Requests, h, Option.some.injEq, Prod.mk.injEq]
      constructor
      · rintro ⟨htarget,hid⟩
        exact ⟨htarget,part,rest,⟨hid,rfl⟩,rfl⟩
      · rintro ⟨htarget,_,_,⟨hid,-⟩,-⟩
        exact ⟨htarget,hid⟩)
  | none => .isFalse (by simp [Requests, h])

instance (x : Exchange) : Decidable (Serves ser sourceId r t x) :=
  decidable_of_iff (_ ∧ _ ∧ _ ∧ _ ∧ _ ∧ _)
    ⟨fun ⟨h1,h2,h3,h4,h5,h6⟩ => ⟨h1,h2,h3,h4,h5,h6⟩,
      fun ⟨h1,h2,h3,h4,h5,h6⟩ => ⟨h1,h2,h3,h4,h5,h6⟩⟩

instance : Decidable (Sending r t) := inferInstanceAs (Decidable (∃ p ∈ _, _ = _))

end Lost

/-- Of a block of two bytes that leaves in two fragments only the second one
arrives. -/
def firstLost : List Event := [
  .pushOutgoing sampleClock ⟨.other 1,.other 2⟩ 7 3 [10,20] 60000 0 .normal,
  .processOutgoing sampleClock acceptAll 26 5,.processOutgoing sampleClock acceptAll 26 5,
  .processIncoming sampleClock 1]

/-- The first byte is asked for and sent again; a later request names nothing. -/
def askedAgain : List Exchange := [
  { clk := ⟨300,id⟩, doSend := acceptAll, maxMessageSize := 26, i := 0
    after := [.processOutgoing sampleClock acceptAll 26 5,.processIncoming ⟨300,id⟩ 2] },
  { clk := ⟨600,id⟩, doSend := acceptAll, maxMessageSize := 26, i := 1, after := [] }]

theorem resends_complete_lost :
    Delivered 5 ⟨⟨.other 1,.other 2⟩,1,3,[10,20]⟩ (step sampleSerializer 5
      (StepRun.run (fun t x => x.finished sampleSerializer 5 t)
        (StepRun.run (step sampleSerializer 5) sampleStart firstLost) askedAgain)
      (.fetchAll sampleClock)) :=
  resends_complete sampleSerializer 5 (msgbusId .blobFrgmnt) (msgbusId .blobResend)
    (msgbusId .blobPrpare) 100 firstLost (by decide) _ askedAgain sampleClock (by decide)
    (by decide) (by decide) (by decide) (by decide)

end MsgBus.BlobCompletion
