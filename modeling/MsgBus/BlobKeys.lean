import MsgBus.BlobBus
import MsgBus.BlobIntegrity

/-!
# Blob keys across the bus

A fragment carries the id of its source and the number of its blob. As long
as no router answers a certificate query with a certificate under the id of
another party, each pair of them belongs to one pushed block, and requests
for a part of it go to the party that pushed it.
-/

set_option autoImplicit false

namespace MsgBus.BlobKeys

open BlobManipulator ManipulatorRules BlobBus
open BlobTransfer (Pushed)
open BlobIntegrity (CutFrom Carries carries_turn carries_new carries_resend numbered_snoc
  numbered_unique)

/-- The message carries a fragment of one of the blocks. -/
def Cuts (ser : BlobSerializer) (pushed : List Pushed) (message : MessageView) : Prop :=
  ∃ r ∈ pushed, ∃ f, readFragment ser message = some f ∧ CutFrom message.sourceId r f

/-- The message requests a part of the blob of a received fragment from the
source of that fragment. -/
def Requests (ser : BlobSerializer) (received : List Packet) (message : MessageView) : Prop :=
  ∃ x ∈ received, ∃ f, readFragment ser x.message = some f ∧ f.sourceId ≠ 0 ∧
    message.targetId = f.sourceId ∧
    ∃ part, ser.resend.decode (message.content ser.getDataWithSize) =
      some ((f.sourceBlobId,part),[])

/-- What a party may offer, if it sends under such ids. -/
structure Offers (ser : BlobSerializer) (source : EndpointId → Prop) (pushed : List Pushed)
    (received : List Packet) (msgId : MessageId) (message : MessageView) : Prop where
  fragment : msgId = msgbusId .blobFrgmnt → source message.sourceId ∧ Cuts ser pushed message
  request : msgId = msgbusId .blobResend → Requests ser received message

/-- The pending blob has the ids of a received fragment. -/
structure Keyed (ser : BlobSerializer) (received : List Packet) (p : PendingBlob BufferBlobIo) :
    Prop where
  target : p.info.targetId = 0
  source : p.info.sourceId ≠ 0
  key : ∃ x ∈ received, ∃ f, readFragment ser x.message = some f ∧ keyOf p = fragmentKey f

/-- The blobs of a manipulator are those that were pushed into it, numbered
in turn, and those of which fragments were received. -/
structure Keeps (ser : BlobSerializer) (source : EndpointId → Prop) (pushed : List Pushed)
    (received : List Packet) (m : Manipulator) : Prop where
  fragmentMsgId : m.fragmentMsgId = msgbusId .blobFrgmnt
  resendMsgId : m.resendMsgId = msgbusId .blobResend
  sequence : m.blobIdSequence = pushed.length
  short : pushed.length ≤ blobIdMax
  numbered : ∀ i r, pushed[i]? = some r → r.sourceBlobId = i+1
  sending : ∀ o ∈ m.outgoing, ∃ r ∈ pushed, ∃ s, source s ∧ Carries s r o
  receiving : ∀ p ∈ m.incoming, Keyed ser received p

section Messages

variable {ser : BlobSerializer} {source : EndpointId → Prop} {pushed pushed' : List Pushed}
  {received received' : List Packet} {msgId : MessageId} {message : MessageView}

theorem Offers.mono {source' : EndpointId → Prop}
    (h : Offers ser source pushed received msgId message)
    (hs : ∀ s, source s → source' s) (hp : pushed ⊆ pushed') (hr : received ⊆ received') :
    Offers ser source' pushed' received' msgId message := by
  constructor
  · intro hm
    obtain ⟨hsrc,r,hmem,hf⟩ := h.fragment hm
    exact ⟨hs _ hsrc,r,hp hmem,hf⟩
  · intro hm
    obtain ⟨x,hx,hf⟩ := h.request hm
    exact ⟨x,hr hx,hf⟩

/-- Sent under another id, a fragment comes from there. -/
theorem readFragment_signed (id : EndpointId) :
    readFragment ser { message with sourceId := id } =
      (readFragment ser message).map (fun f => { f with sourceId := id }) := by
  have hcontent : MessageView.content ser.getDataWithSize { message with sourceId := id } =
      message.content ser.getDataWithSize := rfl
  unfold readFragment
  rw [hcontent]
  cases ser.header.decode (message.content ser.getDataWithSize) with
  | none => rfl
  | some p =>
    obtain ⟨header,fragment⟩ := p
    dsimp only
    split_ifs <;> rfl

theorem Offers.signed (h : Offers ser (fun _ => True) pushed received msgId message)
    (source : EndpointId → Prop) (id : EndpointId) (hs : source id) :
    Offers ser source pushed received msgId { message with sourceId := id } := by
  refine ⟨fun hm => ⟨hs,?_⟩,h.request⟩
  obtain ⟨-,r,hmem,f,hf,hc⟩ := h.fragment hm
  refine ⟨r,hmem,{ f with sourceId := id },?_,hc.msgId,rfl,hc.sourceBlobId,hc.targetBlobId,
    hc.totalSize,hc.nonempty,hc.slice⟩
  rw [readFragment_signed, hf]
  rfl

theorem Offers.travelled (hopCount age : Int8)
    (h : Offers ser source pushed received msgId message) :
    Offers ser source pushed received msgId (travelled hopCount age message) :=
  ⟨h.fragment,h.request⟩

theorem Keyed.mono {p : PendingBlob BufferBlobIo} (h : Keyed ser received p)
    (hr : received ⊆ received') : Keyed ser received' p := by
  obtain ⟨x,hx,hf⟩ := h.key
  exact ⟨h.target,h.source,x,hr hx,hf⟩

/-- A request is offered for a pending blob with ids. -/
theorem offers_request {p : PendingBlob BufferBlobIo} (h : Keyed ser received p)
    (maxMessageSize : ℕ) :
    Offers ser source pushed received (msgbusId .blobResend)
      (resendRequest ser p maxMessageSize) := by
  refine ⟨nofun,fun _ => ?_⟩
  obtain ⟨x,hx,f,hf,hk⟩ := h.key
  obtain ⟨hsrc,hid⟩ := Prod.mk.inj hk
  have hd := ser.resend.decode_encode
    (p.sourceBlobId,doneBeginEnd p.doneParts p.info.totalSize maxMessageSize) []
  rw [List.append_nil, hid] at hd
  exact ⟨x,hx,f,hf,hsrc ▸ h.source,hsrc,_,by
    simpa only [resendRequest, MessageView.content, MessageView.isSigned, Bool.or_false,
      Bool.false_eq_true, if_false, hid] using hd⟩

end Messages

section Manipulator

variable {ser : BlobSerializer} {source : EndpointId → Prop} {pushed : List Pushed}
  {received : List Packet} {m : Manipulator}

theorem Keeps.sub {m' : Manipulator} (h : Keeps ser source pushed received m)
    (hf : m'.fragmentMsgId = m.fragmentMsgId) (hr : m'.resendMsgId = m.resendMsgId)
    (hs : m'.blobIdSequence = m.blobIdSequence)
    (ho : ∀ o ∈ m'.outgoing, ∃ r ∈ pushed, ∃ s, source s ∧ Carries s r o)
    (hi : ∀ p ∈ m'.incoming, Keyed ser received p) : Keeps ser source pushed received m' :=
  ⟨hf.trans h.fragmentMsgId,hr.trans h.resendMsgId,hs.trans h.sequence,h.short,h.numbered,ho,hi⟩

theorem keeps_new (source : EndpointId → Prop) :
    Keeps ser source [] [] { fragmentMsgId := msgbusId .blobFrgmnt
                             resendMsgId := msgbusId .blobResend
                             prepareMsgId := msgbusId .blobPrpare } := by
  constructor <;> simp

/-- A push adds the block under the next number. -/
theorem keeps_push (h : Keeps ser source pushed received m) (hroom : pushed.length < blobIdMax)
    (clk : Clock) (msgId : MessageId) {sourceId : EndpointId} (hsrc : source sourceId)
    (targetId : EndpointId) (targetBlobId : BlobId) (src : Block) (maxTime : ℕ)
    (options : BlobOptions) (priority : MessagePriority) :
    Keeps ser source (pushed ++ Party.newlyPushed m (m.pushOutgoing clk msgId sourceId targetId
        targetBlobId src maxTime options priority).2) received
      (m.pushOutgoing clk msgId sourceId targetId targetBlobId src maxTime options priority).2 := by
  by_cases hsz : 0 < src.length
  · have hid : m.nextBlobId = pushed.length+1 := by
      rw [nextBlobId, h.sequence, if_neg hroom.ne]
    have hm : (m.pushOutgoing clk msgId sourceId targetId targetBlobId src maxTime options
        priority).2 = { m with
          blobIdSequence := m.nextBlobId
          outgoing := m.outgoing ++ [newOutgoing clk msgId sourceId targetId m.nextBlobId
            targetBlobId (.ofBlock src) maxTime options priority] } :=
      congrArg Prod.snd (if_pos hsz)
    have hnew : Party.newlyPushed m (m.pushOutgoing clk msgId sourceId targetId targetBlobId src
        maxTime options priority).2 = [⟨msgId,m.nextBlobId,targetBlobId,src⟩] := by
      rw [hm, Party.newlyPushed, List.drop_left]
      rfl
    rw [hnew, hm]
    have hlen (r : Pushed) : (pushed++[r]).length = pushed.length+1 := by simp
    refine ⟨h.fragmentMsgId,h.resendMsgId,hid.trans (hlen _).symm,(hlen _).trans_le hroom,
      numbered_snoc h.numbered hid,?_,h.receiving⟩
    intro o ho
    rcases List.mem_append.mp ho with ho | ho
    · obtain ⟨r,hr,hc⟩ := h.sending o ho
      exact ⟨r,List.mem_append_left _ hr,hc⟩
    · obtain rfl := List.mem_singleton.mp ho
      exact ⟨_,List.mem_append_right _ (List.mem_singleton_self _),sourceId,hsrc,
        carries_new clk msgId targetId _ targetBlobId src maxTime options priority⟩
  · have hm : (m.pushOutgoing clk msgId sourceId targetId targetBlobId src maxTime options
        priority).2 = m := congrArg Prod.snd (if_neg hsz)
    have hnew : Party.newlyPushed m m = [] := by simp [Party.newlyPushed]
    rw [hm, hnew, List.append_nil]
    exact h

theorem keeps_outgoing (h : Keeps ser source pushed received m) (clk : Clock)
    (doSend : SendHandler) (maxMessageSize maxMessages : ℕ) :
    Keeps ser source pushed received
      (m.processOutgoing ser clk doSend maxMessageSize maxMessages).1 ∧
    ∀ a ∈ (m.processOutgoing ser clk doSend maxMessageSize maxMessages).2,
      Offers ser source pushed received a.msgId a.message := by
  have hrule := processOutgoingLoop_rule
    (fun o _ => ∃ r ∈ pushed, ∃ s, source s ∧ Carries s r o)
    (fun log => ∀ a ∈ log, Offers ser source pushed received a.msgId a.message)
    ser clk doSend maxMessageSize m ?_ (min maxMessages m.outgoing.length) m [] rfl rfl
    (by simp) h.sending
  · obtain ⟨hi,hs,hf,-,hr,-⟩ := processOutgoingLoop_frame ser clk doSend maxMessageSize
      (min maxMessages m.outgoing.length) m []
    exact ⟨h.sub hf hr hs hrule.1 (hi ▸ h.receiving),hrule.2⟩
  · rintro m' o log hid - hlog ⟨r,hr,s,hs,hc⟩
    obtain ⟨hcar,hcut⟩ := carries_turn m' clk doSend maxMessageSize log hc
    refine ⟨⟨r,hr,s,hs,hcar⟩,?_,fun _ hk => hk⟩
    intro a ha
    rcases hcut a ha with ha | ⟨hmsg,hsrc,f,hf,hfc⟩
    · exact hlog a ha
    · rw [hmsg, hid, h.fragmentMsgId]
      exact ⟨fun _ => ⟨hsrc.symm ▸ hs,r,hr,f,hf,hsrc.symm ▸ hfc⟩,nofun⟩

theorem keeps_update (h : Keeps ser source pushed received m) (clk : Clock)
    (doSend : SendHandler) (maxMessageSize : ℕ) :
    Keeps ser source pushed received (m.update ser clk doSend maxMessageSize).manipulator ∧
    ∀ a ∈ (m.update ser clk doSend maxMessageSize).sends,
      Offers ser source pushed received a.msgId a.message := by
  obtain ⟨hin,hask,hout⟩ := update_cases m ser clk doSend maxMessageSize
  refine ⟨h.sub rfl rfl rfl (fun o ho => h.sending o (hout o ho)) ?_,?_⟩
  · intro q hq
    rcases hin q hq with hq | ⟨p,hp,rfl⟩
    · exact h.receiving q hq
    · obtain ⟨ht,hs,hk⟩ := h.receiving p hp
      exact ⟨ht,hs,hk⟩
  · intro a ha
    obtain ⟨p,hp,-,hid,hmsg⟩ := hask a ha
    rw [hid, hmsg, h.resendMsgId]
    exact offers_request (h.receiving p hp) maxMessageSize

theorem keeps_resend (h : Keeps ser source pushed received m) (message : MessageView) :
    Keeps ser source pushed received (m.processResend ser message) := by
  have hout : ∀ o ∈ (m.processResend ser message).outgoing,
      ∃ r ∈ pushed, ∃ s, source s ∧ Carries s r o := by
    intro o ho
    rcases mem_processResend ho with ho | ⟨p,hp,bgn,fin,rfl⟩
    · exact h.sending o ho
    · obtain ⟨r,hr,s,hs,hc⟩ := h.sending p hp
      exact ⟨r,hr,s,hs,carries_resend bgn fin hc⟩
  obtain ⟨outgoing,he⟩ := processResend_frame m ser message
  rw [he] at hout ⊢
  exact h.sub rfl rfl rfl hout h.receiving

theorem keyed_prepared {p : PendingBlob BufferBlobIo} (h : Keyed ser received p) (now : ℕ)
    (progress : ℚ) : Keyed ser received (p.handleTargetPreparing now progress) := by
  unfold PendingBlob.handleTargetPreparing
  dsimp only
  split_ifs <;> exact ⟨h.target,h.source,h.key⟩

theorem keeps_prepare (h : Keeps ser source pushed received m) (clk : Clock)
    (message : MessageView) :
    Keeps ser source pushed received (m.processPrepare ser clk message) := by
  unfold processPrepare
  split
  · exact h
  · split
    · exact h
    · refine h.sub rfl rfl rfl h.sending ?_
      intro q hq
      rcases mem_modify hq with hq | ⟨p,hp,rfl⟩
      · exact h.receiving q hq
      · exact keyed_prepared (h.receiving p (List.mem_of_getElem? hp)) clk.now _

/-- A merged blob keeps its ids or takes those of the fragment. -/
theorem keyed_merge {p : PendingBlob BufferBlobIo} (h : Keyed ser received p) (clk : Clock)
    (f : IncomingFragment) : Keyed ser received (mergeInto clk f p) := by
  unfold mergeInto
  split_ifs
  · exact ⟨h.target,h.source,h.key⟩
  · exact h

/-- A received fragment is merged into a pending blob with ids. -/
theorem keeps_incoming (h : Keeps ser source pushed received m) (clk : Clock)
    (getIo : TargetIoGetter BufferBlobIo) (x : Packet) :
    Keeps ser source pushed (received++[x]) (m.processIncoming ser clk getIo x.message).2 := by
  have hmono : ∀ p ∈ m.incoming, Keyed ser (received++[x]) p :=
    fun p hp => (h.receiving p hp).mono (List.subset_append_left _ _)
  cases hf : readFragment ser x.message with
  | none =>
    rw [processIncoming, hf]
    exact ⟨h.fragmentMsgId,h.resendMsgId,h.sequence,h.short,h.numbered,h.sending,hmono⟩
  | some f =>
    have hx : ∃ y ∈ received++[x], ∃ g, readFragment ser y.message = some g ∧
        fragmentKey f = fragmentKey g := ⟨x,by simp,f,hf,rfl⟩
    have hin : ∀ q ∈ (m.pushIncomingFragment clk getIo f).incoming,
        Keyed ser (received++[x]) q := by
      intro q hq
      rcases mem_pushIncomingFragment hq with hq | ⟨p,hp,-,rfl⟩ | ⟨p,hp,-,ha,rfl⟩ | ⟨io,-,hb,rfl⟩
      · exact hmono q hq
      · exact keyed_merge (hmono p hp) clk f
      · have hne := (h.receiving p hp).source
        have hsrc : p.info.sourceId = f.sourceId := ha.2.2.resolve_right hne
        have hkeep : (updateExpected f p).info.sourceId = f.sourceId :=
          (if_neg hne).trans hsrc
        have hk : Keyed ser (received++[x]) (updateExpected f p) := by
          refine ⟨(h.receiving p hp).target,?_,?_⟩
          · rw [hkeep, ← hsrc]
            exact hne
          · rw [show keyOf (updateExpected f p) = fragmentKey f from Prod.ext hkeep rfl]
            exact hx
        exact keyed_merge hk clk f
      · exact ⟨rfl,hb,hx⟩
    rw [processIncoming, hf]
    change Keeps ser source pushed (received++[x]) (m.pushIncomingFragment clk getIo f)
    obtain ⟨incoming,he⟩ := pushIncomingFragment_frame m clk getIo f
    rw [he] at hin ⊢
    exact ⟨h.fragmentMsgId,h.resendMsgId,h.sequence,h.short,h.numbered,h.sending,hin⟩

theorem keeps_fetchAll (h : Keeps ser source pushed received m) (clk : Clock) :
    Keeps ser source pushed received (m.fetchAll clk).1 :=
  h.sub rfl rfl rfl h.sending (fun q hq => h.receiving q (mem_fetchAll hq).1)

theorem keeps_handleComplete (h : Keeps ser source pushed received m) (clk : Clock) :
    Keeps ser source pushed received (m.handleComplete clk).1 :=
  h.sub rfl rfl rfl h.sending (fun q hq => h.receiving q (mem_handleComplete hq).1)

end Manipulator

section Parties

variable {ser : BlobSerializer} {p : Party}

/-- The ids under which messages of the member go out. -/
def Signs (m : Member) (s : EndpointId) : Prop :=
  if m.isRouter then s = 0 else s = m.id ∧ s ≠ 0

/-- The ids under which the member pushes blobs; those of an endpoint are
overwritten when it sends. -/
def PushesAs (m : Member) (s : EndpointId) : Prop := m.isRouter = true → s = 0

structure Sound (ser : BlobSerializer) (p : Party) : Prop where
  blobs : Keeps ser (PushesAs p.member) p.pushed p.received p.member.blobs
  outbox : ∀ o ∈ p.member.outbox, Offers ser (fun _ => True) p.pushed p.received o.1 o.2

def Sends (ser : BlobSerializer) (p : Party) (o : Outbound) : Prop :=
  Offers ser (Signs p.member) p.pushed p.received o.1 o.2

theorem signs_router (r : Router) (s : EndpointId) (h : PushesAs (.router r) s) :
    Signs (.router r) s := h rfl

section Endpoint

variable {e : Endpoint}

theorem sends_signed (hid : e.hasId = true) {o : Outbound}
    (h : Offers ser (fun _ => True) p.pushed p.received o.1 o.2) :
    Sends ser { p with member := .endpoint e } (o.1,e.signed o.2) := by
  have hs : Signs (.endpoint e) e.endpointId := ⟨rfl,by simpa [Endpoint.hasId, isValidId] using hid⟩
  exact h.signed (Signs (.endpoint e)) e.endpointId hs

theorem posted_id (e : Endpoint) (log : List SendAttempt) :
    (e.posted log).1.endpointId = e.endpointId := by
  unfold Endpoint.posted
  split_ifs <;> rfl

/-- What is posted goes out under the id of the endpoint or to its outbox. -/
theorem sound_posted {log : List SendAttempt}
    (hb : Keeps ser (PushesAs (.endpoint e)) p.pushed p.received e.blobs)
    (ho : ∀ o ∈ e.outgoing, Offers ser (fun _ => True) p.pushed p.received o.1 o.2)
    (hlog : ∀ a ∈ log, Offers ser (fun _ => True) p.pushed p.received a.msgId a.message) :
    Sound ser { p with member := .endpoint (e.posted log).1 } ∧
    ∀ o ∈ (e.posted log).2, Sends ser { p with member := .endpoint (e.posted log).1 } o := by
  unfold Endpoint.posted
  by_cases hid : e.hasId = true
  · rw [if_pos hid]
    refine ⟨⟨hb,ho⟩,fun o hm => ?_⟩
    obtain ⟨a,ha,rfl⟩ := List.mem_map.mp hm
    have hoff : Offers ser (fun _ => True) p.pushed p.received (a.msgId,a.message).1
        (a.msgId,a.message).2 := hlog a (List.mem_filter.mp ha).1
    exact sends_signed hid hoff
  · rw [if_neg hid]
    refine ⟨⟨hb,fun o hm => ?_⟩,by simp⟩
    rcases List.mem_append.mp hm with hm | hm
    · exact ho o hm
    · obtain ⟨a,ha,rfl⟩ := List.mem_map.mp hm
      exact hlog a ha

theorem sound_processBlobs (h : Sound ser { p with member := .endpoint e }) (clk : Clock)
    (connection : SendHandler) (maxDataSize : Option ℕ) :
    Sound ser { p with member := .endpoint (e.processBlobs ser clk connection maxDataSize).1 } ∧
    ∀ o ∈ (e.processBlobs ser clk connection maxDataSize).2,
      Sends ser { p with
        member := .endpoint (e.processBlobs ser clk connection maxDataSize).1 } o := by
  have hc := keeps_handleComplete h.blobs clk
  cases maxDataSize with
  | none => exact ⟨⟨hc,h.outbox⟩,by simp [Endpoint.processBlobs]⟩
  | some maxSize =>
    obtain ⟨hu,hsends⟩ := keeps_update hc clk (e.post connection) maxSize
    obtain ⟨ho,hlog⟩ := keeps_outgoing hu clk (fun log => e.post connection
      (((e.blobs.handleComplete clk).1.update ser clk (e.post connection) maxSize).sends ++ log))
      maxSize 2
    refine sound_posted ho h.outbox (fun a ha => ?_)
    rcases List.mem_append.mp ha with ha | ha
    · exact (hsends a ha).mono (fun _ _ => trivial) (List.Subset.refl _) (List.Subset.refl _)
    · exact (hlog a ha).mono (fun _ _ => trivial) (List.Subset.refl _) (List.Subset.refl _)

theorem mem_sendOutbox (e : Endpoint) (connection : SendHandler) (os : List Outbound)
    (log : List SendAttempt) :
    (∀ o ∈ (e.sendOutbox connection os log).1, o ∈ os) ∧
    ∀ o ∈ (e.sendOutbox connection os log).2, ∃ q ∈ os, o = (q.1,e.signed q.2) := by
  induction os generalizing log with
  | nil => simp [Endpoint.sendOutbox]
  | cons q os ih =>
    obtain ⟨hkept,hsent⟩ := ih (offer connection log q.1 (e.signed q.2))
    have hsent' : ∀ o ∈ (e.sendOutbox connection os
        (offer connection log q.1 (e.signed q.2))).2, ∃ q' ∈ q::os, o = (q'.1,e.signed q'.2) := by
      intro o ho
      obtain ⟨q',hq',heq⟩ := hsent o ho
      exact ⟨q',List.mem_cons_of_mem q hq',heq⟩
    rw [Endpoint.sendOutbox]
    dsimp only
    split_ifs
    · refine ⟨fun o ho => List.mem_cons_of_mem q (hkept o ho),fun o ho => ?_⟩
      rcases List.mem_cons.mp ho with rfl | ho
      · exact ⟨q,List.mem_cons_self,rfl⟩
      · exact hsent' o ho
    · refine ⟨fun o ho => ?_,hsent'⟩
      rcases List.mem_cons.mp ho with rfl | ho
      · exact List.mem_cons_self
      · exact List.mem_cons_of_mem q (hkept o ho)

theorem sound_flushOutbox (h : Sound ser { p with member := .endpoint e })
    (connection : SendHandler) :
    Sound ser { p with member := .endpoint (e.flushOutbox connection).1 } ∧
    ∀ o ∈ (e.flushOutbox connection).2,
      Sends ser { p with member := .endpoint (e.flushOutbox connection).1 } o := by
  unfold Endpoint.flushOutbox
  by_cases hid : e.hasId = true
  · rw [if_pos hid]
    obtain ⟨hkept,hsent⟩ := mem_sendOutbox e connection e.outgoing []
    refine ⟨⟨h.blobs,fun o ho => h.outbox o (hkept o ho)⟩,fun o ho => ?_⟩
    obtain ⟨q,hq,rfl⟩ := hsent o ho
    exact sends_signed hid (h.outbox q hq)
  · rw [if_neg hid]
    exact ⟨h,by simp⟩

end Endpoint

section Router

variable {env : RouterEnv} {clk : Clock} {r : Router}

/-- What is behind what had been sent satisfies the predicate. -/
def Adds (good : Sent → Prop) (before after : List Sent) : Prop :=
  ∃ new, after = before++new ∧ ∀ x ∈ new, good x

theorem Adds.refl (good : Sent → Prop) (sent : List Sent) : Adds good sent sent :=
  ⟨[],by simp,by simp⟩

theorem Adds.trans {good : Sent → Prop} {s₁ s₂ s₃ : List Sent} (h : Adds good s₁ s₂)
    (h' : Adds good s₂ s₃) : Adds good s₁ s₃ := by
  obtain ⟨new,rfl,hnew⟩ := h
  obtain ⟨new',rfl,hnew'⟩ := h'
  exact ⟨new++new',List.append_assoc _ _ _,List.forall_mem_append.mpr ⟨hnew,hnew'⟩⟩

theorem adds_resendSends {good : Sent → Prop} (parentId : EndpointId) (sent : List Sent)
    (log : List SendAttempt)
    (h : ∀ a ∈ log, ∀ x : Sent, x.msgId = a.msgId → x.message = Router.hopped a.message → good x) :
    Adds good sent (r.resendSends env clk parentId sent log) := by
  induction log generalizing sent with
  | nil => exact .refl good sent
  | cons a log ih =>
    have hone : Adds good sent
        (r.routeMessage env.transport clk.now sent a.msgId parentId a.message).2 := by
      rw [Router.routeMessage_sent]
      obtain ⟨new,heq,-,hall⟩ := sendAll_parts env.transport a.msgId (Router.hopped a.message)
        sent (r.routeHops env.transport clk.now sent a.msgId parentId a.message)
      exact ⟨new,heq,fun x hx => h a List.mem_cons_self x (hall x hx).1 (hall x hx).2⟩
    exact hone.trans (ih _ (fun b hb => h b (List.mem_cons_of_mem a hb)))

theorem adds_blobSends {good : Sent → Prop} (tr : Transport) (id : EndpointId)
    (sent : List Sent) (log : List SendAttempt)
    (h : ∀ a ∈ log, ∀ x : Sent, x.msgId = a.msgId → x.message = a.message → good x) :
    Adds good sent (AdjacentNode.blobSends tr id sent log) := by
  induction log generalizing sent with
  | nil => exact .refl good sent
  | cons a log ih =>
    have hone : Adds good sent (if id = a.message.targetId
        then (tr.send sent (.node id) a.msgId a.message).2 else sent) := by
      split_ifs
      · exact ⟨[_],rfl,by simpa using h a List.mem_cons_self _ rfl rfl⟩
      · exact .refl good sent
    exact hone.trans (ih _ (fun b hb => h b (List.mem_cons_of_mem a hb)))

/-- A turn of `process_outgoing` keeps the property of the manipulator, and what
it sends is good. -/
def TurnKeeps (ser : BlobSerializer) (clk : Clock) (keeps : Manipulator → Prop)
    (good : Sent → Prop) : Prop :=
  ∀ m doSend maxMessageSize maxMessages, keeps m →
    keeps (m.processOutgoing ser clk doSend maxMessageSize maxMessages).1 ∧
    ∀ a ∈ (m.processOutgoing ser clk doSend maxMessageSize maxMessages).2,
      ∀ x : Sent, x.msgId = a.msgId → x.message = a.message → good x

section Turn

variable {keeps : Manipulator → Prop} {good : Sent → Prop} {ser : BlobSerializer} {m : Manipulator}

theorem node_rule (hturn : TurnKeeps ser clk keeps good) (h : keeps m) (node : AdjacentNode)
    (tr : Transport) (id : EndpointId) (sent : List Sent) :
    keeps (node.processBlobs tr ser clk id m sent).1 ∧
      Adds good sent (node.processBlobs tr ser clk id m sent).2 := by
  unfold AdjacentNode.processBlobs
  split
  · exact ⟨h,.refl good sent⟩
  · split_ifs
    · split
      · exact ⟨h,.refl good sent⟩
      · obtain ⟨hk,hlog⟩ := hturn m (AdjacentNode.blobHandler tr id sent) _ 4 h
        exact ⟨hk,adds_blobSends tr id sent _ hlog⟩
    · exact ⟨h,.refl good sent⟩

/-- What each turn keeps, the loop over the nodes keeps. -/
theorem blobsLoop_rule (hturn : TurnKeeps env.serializer clk keeps good) (h : keeps m)
    (es : List (EndpointId × AdjacentNode)) (sent : List Sent) :
    keeps (Router.processBlobsLoop env clk es m sent).1 ∧
      Adds good sent (Router.processBlobsLoop env clk es m sent).2 := by
  induction es generalizing m sent with
  | nil => exact ⟨h,.refl good sent⟩
  | cons e es ih =>
    obtain ⟨hk,hadd⟩ := node_rule hturn h e.2 env.transport e.1 sent
    obtain ⟨hk',hadd'⟩ := ih hk _
    exact ⟨hk',hadd.trans hadd'⟩

end Turn

/-- What the router sends under these ids is offered by its manipulator. -/
def Offered (ser : BlobSerializer) (source : EndpointId → Prop) (p : Party) (x : Sent) : Prop :=
  Offers ser source p.pushed p.received x.msgId x.message

variable {source : EndpointId → Prop}

theorem keeps_turn (clk : Clock) : TurnKeeps env.serializer clk
    (Keeps env.serializer source p.pushed p.received) (Offered env.serializer source p) := by
  intro m doSend maxMessageSize maxMessages h
  obtain ⟨hk,hlog⟩ := keeps_outgoing h clk doSend maxMessageSize maxMessages
  refine ⟨hk,fun a ha x hid hmsg => ?_⟩
  rw [Offered, hid, hmsg]
  exact hlog a ha

/-- The requests of a router go out with one more hop. -/
theorem keeps_updateBlobs (clk : Clock)
    (h : Keeps env.serializer source p.pushed p.received r.blobs)
    (parentId : EndpointId) :
    Keeps env.serializer source p.pushed p.received (r.updateBlobs env clk parentId).blobs ∧
    Adds (Offered env.serializer source p) r.sent (r.updateBlobs env clk parentId).sent := by
  obtain ⟨hk,hsends⟩ := keeps_update (keeps_handleComplete h clk) clk
    (r.resendHandler env clk parentId) minConnectionDataSize
  refine ⟨hk,adds_resendSends parentId r.sent _ (fun a ha x hid hmsg => ?_)⟩
  rw [Offered, hid, hmsg]
  exact (hsends a ha).travelled _ _

theorem keeps_routerBlobs (clk : Clock)
    (h : Keeps env.serializer source p.pushed p.received r.blobs) :
    Keeps env.serializer source p.pushed p.received (r.processBlobs env clk).blobs ∧
    Adds (Offered env.serializer source p) r.sent (r.processBlobs env clk).sent := by
  obtain ⟨hk,hadd⟩ := keeps_updateBlobs clk h r.getId
  unfold Router.processBlobs
  dsimp only
  split_ifs
  · obtain ⟨hk',hadd'⟩ := blobsLoop_rule (keeps_turn clk) hk
      (r.updateBlobs env clk r.getId).nodes.nodes.entries _
    exact ⟨hk',hadd.trans hadd'⟩
  · exact ⟨hk,hadd⟩

theorem sound_routerBlobs (clk : Clock) (h : Sound env.serializer { p with member := .router r }) :
    Sound env.serializer { p with member := .router (r.processBlobs env clk) } ∧
    ∀ o ∈ sentSince r (r.processBlobs env clk),
      Sends env.serializer { p with member := .router (r.processBlobs env clk) } o := by
  obtain ⟨hk,new,hnew,hall⟩ := keeps_routerBlobs clk h.blobs
  refine ⟨⟨hk,h.outbox⟩,fun o ho => ?_⟩
  rw [sentSince, hnew, List.drop_left] at ho
  obtain ⟨x,hx,rfl⟩ := List.mem_map.mp ho
  exact (hall x (List.mem_filter.mp hx).1).mono (signs_router (r.processBlobs env clk))
    (List.Subset.refl _) (List.Subset.refl _)

/-- The blobs a router receives have no target to be passed on to. -/
theorem blob_kept (c : Completion BufferBlobIo) (ht : c.pending.info.targetId = 0)
    (hc : ∃ p, c = fetchIncoming clk p) : (r.handleBlob env clk c).blobs = r.blobs := by
  obtain ⟨p,rfl⟩ := hc
  have hz : p.info.targetId = 0 := ht
  simp only [fetchIncoming, TargetBlobIo.targetBuffer, Router.handleBlob, completedInfo, hz]
  split_ifs <;> first | rfl | contradiction

theorem blobs_kept (cs : List (Completion BufferBlobIo)) (r : Router)
    (h : ∀ c ∈ cs, c.pending.info.targetId = 0 ∧ ∃ p, c = fetchIncoming clk p) :
    (cs.foldl (fun r c => r.handleBlob env clk c) r).blobs = r.blobs := by
  induction cs generalizing r with
  | nil => rfl
  | cons c cs ih =>
    obtain ⟨ht,hc⟩ := h c List.mem_cons_self
    exact (ih _ (fun d hd => h d (List.mem_cons_of_mem c hd))).trans (blob_kept c ht hc)

/-- A router keeps its blobs when it takes what is complete. -/
theorem fragment_blobs (message : MessageView) (hz : ∀ p ∈ (r.blobs.processIncoming env.serializer
      clk r.getBlobTargetIo message).2.incoming, p.info.targetId = 0) :
    (r.handleBlobFragment env clk message).2.blobs = (r.blobs.processIncoming env.serializer clk
        r.getBlobTargetIo message).2 ∨
    (r.handleBlobFragment env clk message).2.blobs = ((r.blobs.processIncoming env.serializer clk
        r.getBlobTargetIo message).2.fetchAll clk).1 := by
  unfold Router.handleBlobFragment
  dsimp only
  split_ifs
  · refine Or.inr (blobs_kept _ _ (fun c hc => ?_))
    obtain ⟨p,hp,rfl⟩ := List.mem_map.mp hc
    exact ⟨hz p (List.mem_filter.mp hp).1,p,rfl⟩
  · exact Or.inl rfl

end Router

theorem newlyPushed_nil {m m' : Manipulator} (h : m'.outgoing.length = m.outgoing.length) :
    Party.newlyPushed m m' = [] := by
  rw [Party.newlyPushed, ← h, List.drop_length, List.map_nil]

theorem processIncoming_outgoing (ser : BlobSerializer) (m : Manipulator) (clk : Clock)
    (getIo : TargetIoGetter BufferBlobIo) (message : MessageView) :
    (m.processIncoming ser clk getIo message).2.outgoing = m.outgoing := by
  unfold processIncoming
  split
  · rfl
  · rename_i f _
    obtain ⟨incoming,he⟩ := pushIncomingFragment_frame m clk getIo f
    dsimp only
    rw [he]

theorem processResend_length (m : Manipulator) (message : MessageView) :
    (m.processResend ser message).outgoing.length = m.outgoing.length := by
  unfold processResend
  split
  · rfl
  · split
    · rfl
    · exact List.length_modify _ _ _

theorem processPrepare_outgoing (m : Manipulator) (clk : Clock) (message : MessageView) :
    (m.processPrepare ser clk message).outgoing = m.outgoing := by
  unfold processPrepare
  split
  · rfl
  · split <;> rfl

/-- What a member does with a message that carries blobs: the blobs stay
sound and nothing is pushed. -/
structure Takes (ser : BlobSerializer) (p : Party) (received : List Packet) (m : Member) :
    Prop where
  kind : m.isRouter = p.member.isRouter
  id : m.id = p.member.id
  outbox : m.outbox = p.member.outbox
  outgoing : m.blobs.outgoing.length = p.member.blobs.outgoing.length
  blobs : Keeps ser (PushesAs p.member) p.pushed received m.blobs

theorem endpoint_takes {e : Endpoint} {env : RouterEnv}
    (h : Sound env.serializer { p with member := .endpoint e }) (clk : Clock) (x : Packet) :
    Takes env.serializer { p with member := .endpoint e }
      (if x.msgId = msgbusId .blobFrgmnt then p.received++[x] else p.received)
      (.endpoint (e.handleBlobMessage env.serializer clk x.msgId x.message)) := by
  unfold Endpoint.handleBlobMessage
  split_ifs
  · have hk := keeps_incoming h.blobs clk (fun _ totalSize => e.blobs.makeTargetIo totalSize) x
    have hl := congrArg List.length (processIncoming_outgoing env.serializer e.blobs clk
      (fun _ totalSize => e.blobs.makeTargetIo totalSize) x.message)
    unfold Endpoint.handleBlobFragment processIncomingBuffer
    dsimp only
    split_ifs
    · exact ⟨rfl,rfl,rfl,hl,keeps_fetchAll hk clk⟩
    · exact ⟨rfl,rfl,rfl,hl,hk⟩
  · exact ⟨rfl,rfl,rfl,processResend_length e.blobs x.message,keeps_resend h.blobs x.message⟩
  · exact ⟨rfl,rfl,rfl,congrArg List.length (processPrepare_outgoing e.blobs clk x.message),
      keeps_prepare h.blobs clk x.message⟩
  · exact ⟨rfl,rfl,rfl,rfl,h.blobs⟩

theorem router_takes {r : Router} {env : RouterEnv}
    (h : Sound env.serializer { p with member := .router r }) (clk : Clock) (x : Packet) :
    Takes env.serializer { p with member := .router r }
      (if x.msgId = msgbusId .blobFrgmnt then p.received++[x] else p.received)
      (.router (handleRouterMessage env clk x.msgId x.message r)) := by
  unfold handleRouterMessage
  split_ifs
  · have hk := keeps_incoming h.blobs clk r.getBlobTargetIo x
    have hl := congrArg List.length (processIncoming_outgoing env.serializer r.blobs clk
      r.getBlobTargetIo x.message)
    have hown : (r.handleBlobFragment env clk x.message).2.getId = r.getId :=
      RouterRun.blobFragment_frame.own
    have hblobs : (r.handleBlobFragment env clk x.message).2.blobs.outgoing.length =
        r.blobs.outgoing.length ∧ Keeps env.serializer (PushesAs (.router r)) p.pushed
          (p.received++[x]) (r.handleBlobFragment env clk x.message).2.blobs := by
      rcases fragment_blobs x.message (fun q hq => (hk.receiving q hq).target) with he | he
      all_goals rw [he]
      · exact ⟨hl,hk⟩
      · exact ⟨hl,keeps_fetchAll hk clk⟩
    exact ⟨rfl,hown,rfl,hblobs.1,hblobs.2⟩
  · unfold Router.handleBlobResend
    split
    · exact ⟨rfl,rfl,rfl,processResend_length r.blobs x.message,keeps_resend h.blobs x.message⟩
    · exact ⟨rfl,rfl,rfl,rfl,h.blobs⟩
  · unfold Router.handleBlobPrepare
    split
    · exact ⟨rfl,rfl,rfl,congrArg List.length (processPrepare_outgoing r.blobs clk x.message),
        keeps_prepare h.blobs clk x.message⟩
    · exact ⟨rfl,rfl,rfl,rfl,h.blobs⟩
  · exact ⟨rfl,rfl,rfl,rfl,h.blobs⟩

end Parties

section System

variable {env : RouterEnv} {b : Bus} {i : ℕ} {p p' : Party}

/-- A step of the party at this place: it stays what it is, and what it pushes
it pushes under ids of its own. -/
structure Moves (ser : BlobSerializer) (b : Bus) (i : ℕ) (p p' : Party) : Prop where
  sound : Sound ser p'
  kind : p'.member.isRouter = p.member.isRouter
  pushed : p.pushed ⊆ p'.pushed
  received : p.received ⊆ p'.received
  named : p.member.id ≠ 0 → p'.member.id = p.member.id
  own : p'.member.id = p.member.id ∨ ∀ q ∈ b.parties, q.member.id ≠ p'.member.id
  alone : p'.pushed = p.pushed ∨ p.member.isRouter = false ∨
    ∀ q ∈ b.parties.eraseIdx i, q.member.isRouter = true → q.pushed = []

theorem moves_member {m : Member} (hs : Sound env.serializer { p with member := m })
    (hk : m.isRouter = p.member.isRouter) (hid : m.id = p.member.id) :
    Moves env.serializer b i p { p with member := m } :=
  ⟨hs,hk,List.Subset.refl _,List.Subset.refl _,fun _ => hid,Or.inl hid,Or.inl rfl⟩

theorem moves_stay (hs : Sound env.serializer p) : Moves env.serializer b i p p :=
  moves_member hs rfl rfl

/-- A certificate is pushed by the only router that has pushed any, or is
empty and nothing is pushed. -/
theorem moves_push {m : Member} (hk : m.isRouter = p.member.isRouter)
    (hid : m.id = p.member.id) (hout : m.outbox = p.member.outbox) (hs : Sound env.serializer p)
    (hb : Keeps env.serializer (PushesAs p.member)
      (p.pushed ++ Party.newlyPushed p.member.blobs m.blobs) p.received m.blobs)
    (halone : m.blobs = p.member.blobs ∨ p.member.isRouter = false ∨
      ∀ q ∈ b.parties.eraseIdx i, q.member.isRouter = true → q.pushed = []) :
    Moves env.serializer b i p (p.become m) := by
  have hsub : p.pushed ⊆ p.pushed ++ Party.newlyPushed p.member.blobs m.blobs :=
    List.subset_append_left _ _
  refine ⟨⟨?_,?_⟩,hk,hsub,List.Subset.refl _,fun _ => hid,Or.inl hid,?_⟩
  · have hp : PushesAs (p.become m).member = PushesAs p.member :=
      funext (fun s => by simp only [PushesAs, Party.become, hk])
    rw [hp]
    exact hb
  · intro o ho
    exact (hs.outbox o (hout ▸ ho)).mono (fun _ hs => hs) hsub (List.Subset.refl _)
  · rcases halone with heq | hother
    · refine Or.inl ?_
      rw [Party.become, heq, newlyPushed_nil rfl, List.append_nil]
    · exact Or.inr hother

theorem moves_receive (env : RouterEnv) (hs : Sound env.serializer p) (clk : Clock) (x : Packet) :
    Moves env.serializer b i p (p.receive env clk x) ∧
      (p.receive env clk x).received =
        if x.msgId = msgbusId .blobFrgmnt then p.received++[x] else p.received := by
  have ht : Takes env.serializer p
      (if x.msgId = msgbusId .blobFrgmnt then p.received++[x] else p.received)
      (p.member.handleMessage env clk x.msgId x.message) := by
    obtain ⟨m,pushed,received⟩ := p
    cases m with
    | endpoint e => exact endpoint_takes (p := ⟨.endpoint e,pushed,received⟩) hs clk x
    | router r => exact router_takes (p := ⟨.router r,pushed,received⟩) hs clk x
  have hpushed : (p.receive env clk x).pushed = p.pushed := by
    rw [Party.receive, Party.become, newlyPushed_nil ht.outgoing, List.append_nil]
  have hsub : p.received ⊆ (p.receive env clk x).received := by
    change p.received ⊆ if x.msgId = msgbusId .blobFrgmnt then p.received++[x] else p.received
    split_ifs
    · exact List.subset_append_left _ _
    · exact List.Subset.refl _
  have hsrc : PushesAs (p.receive env clk x).member = PushesAs p.member :=
    funext (fun s => by simp only [PushesAs, Party.receive, Party.become, ht.kind])
  refine ⟨⟨⟨?_,?_⟩,ht.kind,hpushed ▸ List.Subset.refl _,hsub,fun _ => ht.id,Or.inl ht.id,
    Or.inl hpushed⟩,rfl⟩
  · rw [hsrc, hpushed]
    exact ht.blobs
  · intro o ho
    refine (hs.outbox o (ht.outbox ▸ ho)).mono (fun _ h => h) ?_ hsub
    rw [hpushed]
    exact List.Subset.refl _

/-- What an act of a party gives. -/
def ActsSoundly (env : RouterEnv) (b : Bus) (i : ℕ) (p : Party) (r : Party × List Outbound) :
    Prop :=
  Moves env.serializer b i p r.1 ∧ r.1.received = p.received ∧
    ∀ o ∈ r.2, Sends env.serializer r.1 o

theorem acts_endpoint {e : Endpoint} {pushed : List Pushed} {received : List Packet}
    (hs : Sound env.serializer ⟨.endpoint e,pushed,received⟩)
    (hi : b.parties[i]? = some ⟨.endpoint e,pushed,received⟩) (a : Act)
    (ha : Admitted b (.act i a)) :
    ActsSoundly env b i ⟨.endpoint e,pushed,received⟩
      (Party.actEndpoint env ⟨.endpoint e,pushed,received⟩ e a) := by
  cases a with
  | assignId id =>
    refine ⟨⟨⟨?_,?_⟩,rfl,List.Subset.refl _,List.Subset.refl _,?_,?_,Or.inl rfl⟩,rfl,by
      simp [Party.actEndpoint]⟩
    all_goals
      simp only [Party.actEndpoint, Endpoint.assignId]
      split_ifs with hid
    · exact hs.blobs
    · exact hs.blobs
    · exact hs.outbox
    · exact hs.outbox
    · exact fun _ => rfl
    · intro hne
      exact absurd (by simpa [Endpoint.hasId, isValidId, Member.id] using hne) hid
    · exact Or.inl rfl
    · exact Or.inr ha.2
  | postBlob clk msgId targetId targetBlobId blob maxTime priority =>
    have hroom : pushed.length < blobIdMax := ha.2 _ hi
    have hsrc : PushesAs (.endpoint e) e.endpointId := fun h => absurd h Bool.false_ne_true
    exact ⟨moves_push rfl rfl rfl hs (keeps_push hs.blobs hroom clk msgId hsrc targetId
      targetBlobId blob maxTime 0 priority) (Or.inr (Or.inl rfl)),rfl,by simp [Party.actEndpoint]⟩
  | processBlobs clk connection maxDataSize =>
    obtain ⟨hsound,hsent⟩ := sound_processBlobs (p := ⟨.endpoint e,pushed,received⟩) hs clk
      connection maxDataSize
    have hid : (e.processBlobs env.serializer clk connection maxDataSize).1.endpointId =
        e.endpointId := by
      cases maxDataSize with
      | none => rfl
      | some maxSize => exact posted_id _ _
    exact ⟨moves_member hsound rfl hid,rfl,hsent⟩
  | flushOutbox connection =>
    obtain ⟨hsound,hsent⟩ := sound_flushOutbox (p := ⟨.endpoint e,pushed,received⟩) hs connection
    have hid : (e.flushOutbox connection).1.endpointId = e.endpointId := by
      unfold Endpoint.flushOutbox
      split_ifs <;> rfl
    exact ⟨moves_member hsound rfl hid,rfl,hsent⟩
  | _ => exact ⟨moves_stay hs,rfl,by simp [Party.actEndpoint]⟩

theorem acts_router {r : Router} {pushed : List Pushed} {received : List Packet}
    (hs : Sound env.serializer ⟨.router r,pushed,received⟩)
    (hi : b.parties[i]? = some ⟨.router r,pushed,received⟩) (a : Act)
    (ha : Admitted b (.act i a)) (hq : Silent b (.act i a)) :
    ActsSoundly env b i ⟨.router r,pushed,received⟩
      (Party.actRouter env ⟨.router r,pushed,received⟩ r a) := by
  cases a with
  | routerCertificateQuery clk message =>
    have hroom : pushed.length < blobIdMax := ha _ hi
    have halone : (r.handleRouterCertificateQuery clk message).2.blobs = r.blobs ∨
        Member.isRouter (.router r) = false ∨
        ∀ q ∈ b.parties.eraseIdx i, q.member.isRouter = true → q.pushed = [] := by
      rcases hq _ hi r rfl with hempty | hother
      · refine Or.inl ?_
        unfold Router.handleRouterCertificateQuery Router.pushCertificate
        rw [hempty]
        rfl
      · exact Or.inr (Or.inr hother)
    have hsrc : PushesAs (.router r) 0 := fun _ => rfl
    exact ⟨moves_push rfl rfl rfl hs (keeps_push hs.blobs hroom clk _ hsrc _ _ _ _ _ _) halone,
      rfl,by simp [Party.actRouter]⟩
  | endpointCertificateQuery clk message =>
    have hsame : (r.handleEndpointCertificateQuery clk message).2 = r := by
      unfold Router.handleEndpointCertificateQuery
      rw [hq _ hi r rfl]
      rfl
    have hb : Keeps env.serializer (PushesAs (.router r))
        (pushed ++ Party.newlyPushed r.blobs r.blobs) received r.blobs := by
      rw [newlyPushed_nil rfl, List.append_nil]
      exact hs.blobs
    rw [Party.actRouter, hsame]
    exact ⟨moves_push rfl rfl rfl hs hb (Or.inl rfl),rfl,by simp⟩
  | processRouterBlobs clk =>
    obtain ⟨hsound,hsent⟩ := sound_routerBlobs (p := ⟨.router r,pushed,received⟩) clk hs
    have hid : (r.processBlobs env clk).getId = r.getId := by
      unfold Router.processBlobs
      dsimp only
      split_ifs <;> rfl
    exact ⟨moves_member hsound rfl hid,rfl,hsent⟩
  | changeTables nodes parentRouter =>
    exact ⟨moves_member ⟨hs.blobs,hs.outbox⟩ rfl rfl,rfl,by simp [Party.actRouter]⟩
  | _ => exact ⟨moves_stay hs,rfl,by simp [Party.actRouter]⟩

theorem acts_soundly (env : RouterEnv) (hs : Sound env.serializer p)
    (hi : b.parties[i]? = some p) (a : Act)
    (ha : Admitted b (.act i a)) (hq : Silent b (.act i a)) :
    ActsSoundly env b i p (p.act env a) := by
  obtain ⟨m,pushed,received⟩ := p
  cases m with
  | endpoint e => exact acts_endpoint hs hi a ha
  | router r => exact acts_router hs hi a ha hq

/-- The packet was sent by its sender. -/
def Genuine (ser : BlobSerializer) (ps : List Party) (x : Packet) : Prop :=
  ∃ q, ps[x.sender]? = some q ∧ Sends ser q (x.msgId,x.message)

/-- What holds in every state of a run. -/
structure Inv (ser : BlobSerializer) (b : Bus) : Prop where
  sound : ∀ p ∈ b.parties, Sound ser p
  distinct : ∀ (i j : ℕ) p q, b.parties[i]? = some p → b.parties[j]? = some q →
    p.member.isRouter = false → q.member.isRouter = false → p.member.id = q.member.id →
    p.member.id ≠ 0 → i = j
  alone : ∀ (i j : ℕ) p q, b.parties[i]? = some p → b.parties[j]? = some q →
    p.member.isRouter = true → q.member.isRouter = true → p.pushed ≠ [] → q.pushed ≠ [] → i = j
  arrived : ∀ p ∈ b.parties, ∀ x ∈ p.received,
    x.msgId = msgbusId .blobFrgmnt ∧ Genuine ser b.parties x
  flight : ∀ x ∈ b.packets, Genuine ser b.parties x

theorem signs_moved {ser : BlobSerializer} (h : Moves ser b i p p') (s : EndpointId)
    (hs : Signs p.member s) : Signs p'.member s := by
  unfold Signs at hs ⊢
  rw [h.kind]
  split_ifs at hs ⊢
  · exact hs
  · exact ⟨hs.1.trans (h.named (hs.1 ▸ hs.2)).symm,hs.2⟩

theorem genuine_moved {ser : BlobSerializer} (hi : b.parties[i]? = some p)
    (h : Moves ser b i p p') {x : Packet} (hx : Genuine ser b.parties x) :
    Genuine ser (b.parties.set i p') x := by
  obtain ⟨q,hq,hs⟩ := hx
  by_cases hxi : i = x.sender
  · subst hxi
    obtain rfl := Option.some.inj (hi.symm.trans hq)
    obtain ⟨hlt,-⟩ := List.getElem?_eq_some_iff.mp hi
    exact ⟨p',List.getElem?_set_self hlt,hs.mono (signs_moved h) h.pushed h.received⟩
  · exact ⟨q,(List.getElem?_set_ne hxi).trans hq,hs⟩

theorem set_cases {ps : List Party} {j : ℕ} {q : Party} (hq : (ps.set i p')[j]? = some q) :
    (j = i ∧ q = p') ∨ (j ≠ i ∧ ps[j]? = some q) := by
  by_cases hij : i = j
  · subst hij
    obtain ⟨hlt,heq⟩ := List.getElem?_eq_some_iff.mp hq
    exact Or.inl ⟨rfl,by simpa using heq.symm⟩
  · rw [List.getElem?_set_ne hij] at hq
    exact Or.inr ⟨Ne.symm hij,hq⟩

theorem distinct_moved {ser : BlobSerializer} (h : Inv ser b) (hi : b.parties[i]? = some p)
    (hm : Moves ser b i p p') {j : ℕ} {q : Party} (hj : b.parties[j]? = some q)
    (hp : p'.member.isRouter = false) (hq : q.member.isRouter = false)
    (hid : p'.member.id = q.member.id) (hne : p'.member.id ≠ 0) : i = j := by
  rcases hm.own with heq | hfresh
  · exact h.distinct i j p q hi hj (hm.kind.symm.trans hp) hq (heq.symm.trans hid) (heq ▸ hne)
  · exact absurd hid.symm (hfresh q (List.mem_of_getElem? hj))

theorem alone_moved {ser : BlobSerializer} (h : Inv ser b) (hi : b.parties[i]? = some p)
    (hm : Moves ser b i p p') {j : ℕ} {q : Party} (hj : b.parties[j]? = some q) (hij : j ≠ i)
    (hp : p'.member.isRouter = true) (hq : q.member.isRouter = true) (hne : p'.pushed ≠ [])
    (hne' : q.pushed ≠ []) : False := by
  rcases hm.alone with heq | hkind | hother
  · exact hij (h.alone i j p q hi hj (hm.kind.symm.trans hp) hq (heq ▸ hne) hne').symm
  · rw [← hm.kind, hp] at hkind
    cases hkind
  · exact hne' (hother q (List.mem_eraseIdx_iff_getElem?.mpr ⟨j,hij,hj⟩) hq)

/-- A party moves and sends, or has received what was sent. -/
theorem inv_moved {ser : BlobSerializer} (h : Inv ser b) (hi : b.parties[i]? = some p)
    (hm : Moves ser b i p p') (packets : List Packet)
    (harrived : ∀ x ∈ p'.received, x ∈ p.received ∨
      (x.msgId = msgbusId .blobFrgmnt ∧ Genuine ser b.parties x))
    (hflight : ∀ x ∈ packets, x ∈ b.packets ∨
      (x.sender = i ∧ Sends ser p' (x.msgId,x.message))) :
    Inv ser { parties := b.parties.set i p', packets } := by
  have hlt := (List.getElem?_eq_some_iff.mp hi).1
  constructor
  · intro q hq
    rcases List.mem_or_eq_of_mem_set hq with hq | rfl
    · exact h.sound q hq
    · exact hm.sound
  · intro j k q r hj hk hq hr hid hne
    rcases set_cases hj with ⟨rfl,rfl⟩ | ⟨-,hj'⟩ <;> rcases set_cases hk with ⟨rfl,rfl⟩ | ⟨-,hk'⟩
    · rfl
    · exact distinct_moved h hi hm hk' hq hr hid hne
    · exact (distinct_moved h hi hm hj' hr hq hid.symm (hid ▸ hne)).symm
    · exact h.distinct j k q r hj' hk' hq hr hid hne
  · intro j k q r hj hk hq hr hne hne'
    rcases set_cases hj with ⟨rfl,rfl⟩ | ⟨hji,hj'⟩ <;>
      rcases set_cases hk with ⟨rfl,rfl⟩ | ⟨hki,hk'⟩
    · rfl
    · exact (alone_moved h hi hm hk' hki hq hr hne hne').elim
    · exact (alone_moved h hi hm hj' hji hr hq hne' hne).elim
    · exact h.alone j k q r hj' hk' hq hr hne hne'
  · intro q hq x hx
    rcases List.mem_or_eq_of_mem_set hq with hq | rfl
    · exact ⟨(h.arrived q hq x hx).1,genuine_moved hi hm (h.arrived q hq x hx).2⟩
    · rcases harrived x hx with hx | ⟨hid,hgen⟩
      · have ha := h.arrived p (List.mem_of_getElem? hi) x hx
        exact ⟨ha.1,genuine_moved hi hm ha.2⟩
      · exact ⟨hid,genuine_moved hi hm hgen⟩
  · intro x hx
    rcases hflight x hx with hx | ⟨rfl,hs⟩
    · exact genuine_moved hi hm (h.flight x hx)
    · exact ⟨p',List.getElem?_set_self hlt,hs⟩

variable {transport : ℕ → Transport}

theorem inv_step (h : Inv env.serializer b) (e : Event) (hok : Admitted b e ∧ Silent b e) :
    Inv env.serializer (step env transport b e) := by
  cases e with
  | act i a =>
    simp only [step]
    split
    · exact h
    · rename_i p hi
      obtain ⟨hm,hrec,hsent⟩ := acts_soundly (environment env transport i)
        (h.sound p (List.mem_of_getElem? hi)) hi a hok.1 hok.2
      refine inv_moved h hi hm _ (fun x hx => Or.inl (hrec ▸ hx)) (fun x hx => ?_)
      rcases List.mem_append.mp hx with hx | hx
      · exact Or.inl hx
      · obtain ⟨o,ho,rfl⟩ := List.mem_map.mp hx
        exact Or.inr ⟨rfl,hsent o ho⟩
  | deliver i k clk hopCount ageQuarterSeconds =>
    simp only [step]
    split
    · rename_i p x hi hk
      obtain ⟨q,hq,hs⟩ := h.flight x (List.mem_of_getElem? hk)
      obtain ⟨hm,hrec⟩ := moves_receive (b := b) (i := i) (environment env transport i)
        (h.sound p (List.mem_of_getElem? hi)) clk
        { x with message := travelled hopCount ageQuarterSeconds x.message }
      refine inv_moved h hi hm _ (fun y hy => ?_) (fun y hy => Or.inl hy)
      rw [hrec] at hy
      split_ifs at hy with hid
      · rcases List.mem_append.mp hy with hy | hy
        · exact Or.inl hy
        · obtain rfl := List.mem_singleton.mp hy
          exact Or.inr ⟨hid,q,hq,hs.travelled hopCount ageQuarterSeconds⟩
      · exact Or.inl hy
    · exact h

theorem inv_start (ser : BlobSerializer) (kinds : List Kind) : Inv ser (start kinds) := by
  have hstart : ∀ p ∈ (start kinds).parties, ∃ k : Kind, p = { member := k.member } := by
    intro p hp
    obtain ⟨k,-,rfl⟩ := List.mem_map.mp hp
    exact ⟨k,rfl⟩
  constructor
  · intro p hp
    obtain ⟨k,rfl⟩ := hstart p hp
    cases k <;> exact ⟨keeps_new _,by simp [Kind.member, Member.outbox]⟩
  · intro i j p q hi hj hp _ _ hne
    obtain ⟨k,rfl⟩ := hstart p (List.mem_of_getElem? hi)
    cases k with
    | endpoint => exact absurd rfl hne
    | router setup => cases hp
  · intro i j p q hi _ _ _ hne
    obtain ⟨k,rfl⟩ := hstart p (List.mem_of_getElem? hi)
    exact absurd rfl hne
  · intro p hp x hx
    obtain ⟨k,rfl⟩ := hstart p hp
    simp at hx
  · simp [start]

/-- Fragments that one party has received under one key come from one block
of one sender, and a request goes to the party that pushed the block all
fragments under its key were cut from. -/
structure KeysIdentify (ser : BlobSerializer) (b : Bus) : Prop where
  same : ∀ p ∈ b.parties, ∀ x ∈ p.received, ∀ y ∈ p.received, ∀ f g,
    readFragment ser x.message = some f → readFragment ser y.message = some g →
    fragmentKey f = fragmentKey g → x.sender = y.sender ∧ ∃ q, b.parties[x.sender]? = some q ∧
      ∃ r ∈ q.pushed, CutFrom f.sourceId r f ∧ CutFrom f.sourceId r g
  holder : ∀ x ∈ b.packets, x.msgId = msgbusId .blobResend → ∀ blobId part rest,
    ser.resend.decode (x.message.content ser.getDataWithSize) = some ((blobId,part),rest) →
    ∃ p, b.parties[x.sender]? = some p ∧ ∃ j q, b.parties[j]? = some q ∧
      q.member.id = x.message.targetId ∧ ∃ r ∈ q.pushed, r.sourceBlobId = blobId ∧
      ∀ y ∈ p.received, ∀ f, readFragment ser y.message = some f →
        fragmentKey f = (x.message.targetId,blobId) →
        y.sender = j ∧ CutFrom x.message.targetId r f

section Identify

variable {ser : BlobSerializer} {q q' : Party} {j : ℕ} {s : EndpointId}

theorem one_sender (h : Inv ser b) (hi : b.parties[i]? = some q) (hj : b.parties[j]? = some q')
    (hs : Signs q.member s) (hs' : Signs q'.member s) (hne : q.pushed ≠ [])
    (hne' : q'.pushed ≠ []) : i = j := by
  unfold Signs at hs hs'
  split_ifs at hs hs' with hr hr' hr'
  · exact h.alone i j q q' hi hj hr hr' hne hne'
  · exact absurd hs hs'.2
  · exact absurd hs' hs.2
  · exact h.distinct i j q q' hi hj (by simpa using hr) (by simpa using hr')
      (hs.1.symm.trans hs'.1) (hs.1 ▸ hs.2)

/-- Where a received fragment comes from. -/
theorem arrived_cut (h : Inv ser b) (hp : p ∈ b.parties) {x : Packet} (hx : x ∈ p.received)
    {f : BlobManipulator.IncomingFragment} (hf : readFragment ser x.message = some f) :
    ∃ q, b.parties[x.sender]? = some q ∧ Signs q.member f.sourceId ∧
      ∃ r ∈ q.pushed, CutFrom f.sourceId r f := by
  obtain ⟨hid,q,hq,hs⟩ := h.arrived p hp x hx
  obtain ⟨hsig,r,hr,g,hg,hc⟩ := hs.fragment hid
  obtain rfl := Option.some.inj (hf.symm.trans hg)
  rw [← hc.source] at hsig hc
  exact ⟨q,hq,hsig,r,hr,hc⟩

theorem same_block (h : Inv ser b) (hp : p ∈ b.parties) {x y : Packet} (hx : x ∈ p.received)
    (hy : y ∈ p.received) {f g : BlobManipulator.IncomingFragment}
    (hf : readFragment ser x.message = some f) (hg : readFragment ser y.message = some g)
    (hk : fragmentKey f = fragmentKey g) : x.sender = y.sender ∧
      ∃ q, b.parties[x.sender]? = some q ∧ Signs q.member f.sourceId ∧
        ∃ r ∈ q.pushed, CutFrom f.sourceId r f ∧ CutFrom f.sourceId r g := by
  obtain ⟨q,hq,hsig,r,hr,hc⟩ := arrived_cut h hp hx hf
  obtain ⟨q',hq',hsig',r',hr',hc'⟩ := arrived_cut h hp hy hg
  obtain ⟨hsrc,hid⟩ := Prod.mk.inj hk
  rw [← hsrc] at hsig' hc'
  have hxy : x.sender = y.sender := one_sender h hq hq' hsig hsig' (List.ne_nil_of_mem hr)
    (List.ne_nil_of_mem hr')
  obtain rfl := Option.some.inj (hq.symm.trans (hxy ▸ hq'))
  have hrr : r = r' := numbered_unique (h.sound q (List.mem_of_getElem? hq)).blobs.numbered
    r hr r' hr' (hc.sourceBlobId.symm.trans (hid.trans hc'.sourceBlobId))
  subst hrr
  exact ⟨hxy,q,hq,hsig,r,hr,hc,hc'⟩

theorem inv_identify (h : Inv ser b) : KeysIdentify ser b := by
  constructor
  · intro p hp x hx y hy f g hf hg hk
    obtain ⟨hxy,q,hq,-,hblock⟩ := same_block h hp hx hy hf hg hk
    exact ⟨hxy,q,hq,hblock⟩
  · intro x hx hid blobId part rest hdec
    obtain ⟨p,hpx,hs⟩ := h.flight x hx
    have hp := List.mem_of_getElem? hpx
    obtain ⟨y,hy,f,hf,hne,htarget,part',hdec'⟩ := hs.request hid
    have hblob : blobId = f.sourceBlobId := by
      have heq := Option.some.inj (hdec.symm.trans hdec')
      exact congrArg (fun t => t.1.1) heq
    obtain ⟨q,hq,hsig,r,hr,hc⟩ := arrived_cut h hp hy hf
    have hqid : q.member.id = x.message.targetId := by
      unfold Signs at hsig
      split_ifs at hsig
      · exact absurd hsig hne
      · exact hsig.1.symm.trans htarget.symm
    refine ⟨p,hpx,y.sender,q,hq,hqid,r,hr,hc.sourceBlobId.symm.trans hblob.symm,?_⟩
    intro z hz g hg hk
    have hkey : fragmentKey f = fragmentKey g := by
      rw [hk, htarget, hblob]
      rfl
    obtain ⟨hyz,q',hq',-,r',hr',hcf,hcg⟩ := same_block h hp hy hz hf hg hkey
    obtain rfl := Option.some.inj (hq.symm.trans hq')
    have hrr : r = r' := numbered_unique (h.sound q (List.mem_of_getElem? hq)).blobs.numbered
      r hr r' hr' (hc.sourceBlobId.symm.trans hcf.sourceBlobId)
    subst hrr
    rw [htarget]
    exact ⟨hyz.symm,hcg⟩

end Identify

/-- In every run without certificates under the ids of others, keys identify
blobs across the bus. -/
theorem keys_identify (env : RouterEnv) (transport : ℕ → Transport) (kinds : List Kind)
    (es : List Event) (h : StepRun.Steps (step env transport)
      (fun b e => Admitted b e ∧ Silent b e) (start kinds) es) :
    StepRun.Always (step env transport) (KeysIdentify env.serializer) (start kinds) es :=
  StepRun.always_mono (fun _ => inv_identify)
    (StepRun.always_of_invariant (fun _ e hi hok => inv_step hi e hok)
      (inv_start env.serializer kinds) h)

end System

section Sample

def sampleKinds : List Kind := [.endpoint,.endpoint,.router RouterRun.sampleSetup]

def sampleStep : Bus → Event → Bus := step RouterRun.sampleEnv (fun _ _ _ _ _ => true)

/-- The nodes of a router to which both endpoints are connected. -/
def sampleNodes : RouterNodes :=
  (RouterRun.after RouterRun.sampleEnv RouterRun.sampleSetup
    (RouterRun.joinNode 1 4 ++ RouterRun.joinNode 2 5 ++
      [.nodeConnection 4 true (some 256),.nodeConnection 5 true (some 256)])).nodes

/-- One endpoint posts a blob to the other, which receives it, and then its
certificate. -/
def samplePosts : List Event := [
  .act 0 (.assignId 5),
  .act 1 (.assignId 4),
  .act 2 (.changeTables sampleNodes {}),
  .act 0 (.postBlob sampleClock ⟨.other 1,.other 2⟩ 4 3 [10,20] 60000 .normal),
  .act 0 (.postBlob sampleClock (msgbusId .eptCertPem) 0 0 [1,2,3] 60000 .normal),
  .act 0 (.processBlobs sampleClock acceptAll (some 256)),
  .deliver 1 0 sampleClock 1 0]

/-- The query of the other endpoint for the certificate of the first. -/
def sampleQuery : MessageView := { sourceId := 4, targetId := 5, sequenceNo := 9 }

/-- The keys under which the parties have received fragments, and from whom. -/
def receivedKeys (ser : BlobSerializer) (b : Bus) : List (List (ℕ × Option BlobKey)) :=
  b.parties.map (fun p =>
    p.received.map (fun x => (x.sender,(readFragment ser x.message).map fragmentKey)))

/-- The router does not have the certificate yet and leaves the query to the
endpoint. -/
theorem keys_identify_unanswered :
    StepRun.Always sampleStep (KeysIdentify sampleSerializer) (start sampleKinds)
      (samplePosts ++ [.act 2 (.endpointCertificateQuery sampleClock sampleQuery),
        .deliver 1 1 sampleClock 1 0]) ∧
    receivedKeys sampleSerializer (StepRun.run sampleStep (start sampleKinds)
      (samplePosts ++ [.act 2 (.endpointCertificateQuery sampleClock sampleQuery),
        .deliver 1 1 sampleClock 1 0])) = [[],[(0,some (5,1)),(0,some (5,2))],[]] :=
  ⟨keys_identify RouterRun.sampleEnv (fun _ _ _ _ _ => true) sampleKinds _ (by decide),by decide⟩

/-- The router has received the certificate and answers the query. -/
def certificateAnswered : List Event :=
  samplePosts ++ [.deliver 2 1 sampleClock 1 0,
    .act 2 (.endpointCertificateQuery sampleClock sampleQuery),
    .act 2 (.processRouterBlobs sampleClock),
    .deliver 1 2 sampleClock 2 0]

/-- The certificate comes under the key of the blob that was received first. -/
theorem certificate_collides :
    StepRun.Steps sampleStep Admitted (start sampleKinds) certificateAnswered ∧
    ¬ KeysIdentify sampleSerializer
      (StepRun.run sampleStep (start sampleKinds) certificateAnswered) := by
  refine ⟨by decide,fun h => ?_⟩
  have hkeys : receivedKeys sampleSerializer (StepRun.run sampleStep (start sampleKinds)
      certificateAnswered) = [[],[(0,some (5,1)),(2,some (5,1))],[(0,some (5,2))]] := by decide
  have hp : [(0,some (5,1)),(2,some (5,1))] ∈ receivedKeys sampleSerializer
      (StepRun.run sampleStep (start sampleKinds) certificateAnswered) := by simp [hkeys]
  obtain ⟨p,hp,hrec⟩ := List.mem_map.mp hp
  have hmem (a : ℕ × Option BlobKey) (ha : a ∈ [(0,some (5,1)),(2,some (5,1))]) :
      ∃ x ∈ p.received, (x.sender,(readFragment sampleSerializer x.message).map fragmentKey) = a :=
    List.mem_map.mp (hrec ▸ ha)
  obtain ⟨x,hx,hxk⟩ := hmem (0,some (5,1)) (by simp)
  obtain ⟨y,hy,hyk⟩ := hmem (2,some (5,1)) (by simp)
  obtain ⟨hxs,hxk⟩ := Prod.mk.inj hxk
  obtain ⟨hys,hyk⟩ := Prod.mk.inj hyk
  obtain ⟨f,hf,hfk⟩ := Option.map_eq_some_iff.mp hxk
  obtain ⟨g,hg,hgk⟩ := Option.map_eq_some_iff.mp hyk
  have hsame := (h.same p hp x hx y hy f g hf hg (hfk.trans hgk.symm)).1
  omega

end Sample

end MsgBus.BlobKeys
