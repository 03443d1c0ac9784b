import MsgBus.BlobKeys

/-!
# The certificate of a router

A router pushes its certificate to whoever asks for it under the source zero.
A blob that is not awaited is received only from another source, and an
endpoint awaits none.
-/

set_option autoImplicit false

namespace MsgBus.RouterCertificate

open BlobManipulator ManipulatorRules BlobBus
open BlobTransfer (Pushed)
open BlobIntegrity (Carries CutFrom carries_new carries_resend carries_turn)
open BlobKeys (Adds TurnKeeps adds_resendSends blobsLoop_rule mem_sendOutbox
  readFragment_signed set_cases)

def certificateId : MessageId := msgbusId .rtrCertPem

/-- What of a complete blob goes to `_handle_router_certificate`. -/
def certificateOf : Completion BufferBlobIo → Option MessageView
  | .fetched _ msgId _ message => if msgId = certificateId then some message else none
  | .finished _ _ _ _ _ => none

/-- The messages that `_handle_special` of the endpoint passes to
`_handle_router_certificate`, out of blobs or as they are. -/
def passedByEndpoint (e : Endpoint) (ser : BlobSerializer) (clk : Clock) (msgId : MessageId)
    (message : MessageView) : List MessageView :=
  if msgId = certificateId then [message]
  else if msgId = msgbusId .blobFrgmnt then
    let (processed,blobs) := e.blobs.processIncomingBuffer ser clk message
    if processed then (blobs.fetchAll clk).2.filterMap certificateOf else []
  else []

/-- A bus and the router certificates that its endpoints were passed. -/
structure CertificateRun where
  bus : Bus
  passed : List (ℕ × MessageView) := []

def passedBy (env : RouterEnv) (b : Bus) : Event → List (ℕ × MessageView)
  | .act _ _ => []
  | .deliver i k clk hopCount ageQuarterSeconds =>
    match b.parties[i]?, b.packets[k]? with
    | some p, some x =>
      match p.member with
      | .endpoint e => (passedByEndpoint e env.serializer clk x.msgId
          (travelled hopCount ageQuarterSeconds x.message)).map (fun message => (i,message))
      | .router _ => []
    | _, _ => []

def step (env : RouterEnv) (transport : ℕ → Transport) (s : CertificateRun) (e : Event) :
    CertificateRun :=
  ⟨BlobBus.step env transport s.bus e,s.passed++passedBy env s.bus e⟩

def start (kinds : List Kind) : CertificateRun := ⟨BlobBus.start kinds,[]⟩

/-- No endpoint posts a blob as if it were the certificate of a router. -/
def Honest (_ : CertificateRun) : Event → Prop
  | .act _ (.postBlob _ msgId _ _ _ _ _) => msgId ≠ certificateId
  | _ => True

instance (s : CertificateRun) (e : Event) : Decidable (Honest s e) := by
  cases e with
  | deliver => exact instDecidableTrue
  | act _ a =>
    cases a with
    | postBlob => exact instDecidableNot
    | _ => exact instDecidableTrue

/-- The endpoint was passed one certificate, and it is this one. -/
def Answered (s : CertificateRun) (i : ℕ) (cert : Block) : Prop :=
  (s.passed.filter (fun c => c.1 = i)).map (fun c => c.2.data) = [cert]

/-- Only a router has blobs under the id of certificates, and under no source. -/
def Marked (router : Bool) (msgId : MessageId) (sourceId : EndpointId) : Prop :=
  msgId = certificateId → router = true ∧ sourceId = 0

/-- A message on its way is no certificate, and if it is a part of one it has
no source. -/
def Sourceless (ser : BlobSerializer) (router : Bool) (o : Outbound) : Prop :=
  o.1 ≠ certificateId ∧ (o.1 = msgbusId .blobFrgmnt → ∀ f, readFragment ser o.2 = some f →
    Marked router f.msgId f.sourceId)

section Manipulator

variable {ser : BlobSerializer} {router : Bool} {m : Manipulator}

structure Labelled (router : Bool) (m : Manipulator) : Prop where
  fragmentMsgId : m.fragmentMsgId = msgbusId .blobFrgmnt
  resendMsgId : m.resendMsgId = msgbusId .blobResend
  sending : ∀ o ∈ m.outgoing, ∃ r s, Carries s r o ∧ Marked router r.msgId s

/-- No pending blob is without a source or a certificate. -/
def Receives (m : Manipulator) : Prop :=
  ∀ p ∈ m.incoming, p.info.sourceId ≠ 0 ∧ p.msgId ≠ certificateId

theorem Labelled.sub {m' : Manipulator} (h : Labelled router m)
    (hf : m'.fragmentMsgId = m.fragmentMsgId) (hr : m'.resendMsgId = m.resendMsgId)
    (ho : m'.outgoing ⊆ m.outgoing) : Labelled router m' :=
  ⟨hf.trans h.fragmentMsgId,hr.trans h.resendMsgId,fun o hm => h.sending o (ho hm)⟩

theorem labelled_push (h : Labelled router m) (clk : Clock) {msgId : MessageId}
    {sourceId : EndpointId} (hm : Marked router msgId sourceId) (targetId : EndpointId)
    (targetBlobId : BlobId) (src : Block) (maxTime : ℕ) (options : BlobOptions)
    (priority : MessagePriority) :
    Labelled router (m.pushOutgoing clk msgId sourceId targetId targetBlobId src maxTime options
      priority).2 := by
  unfold pushOutgoing pushOutgoingIo
  split_ifs
  · refine ⟨h.fragmentMsgId,h.resendMsgId,fun o ho => ?_⟩
    rcases List.mem_append.mp ho with ho | ho
    · exact h.sending o ho
    · obtain rfl := List.mem_singleton.mp ho
      exact ⟨_,sourceId,carries_new clk msgId targetId _ targetBlobId src maxTime options priority,
        hm⟩
  · exact h

variable (ser) in
theorem labelled_outgoing (h : Labelled router m) (clk : Clock) (doSend : SendHandler)
    (maxMessageSize maxMessages : ℕ) :
    Labelled router (m.processOutgoing ser clk doSend maxMessageSize maxMessages).1 ∧
    ∀ a ∈ (m.processOutgoing ser clk doSend maxMessageSize maxMessages).2,
      Sourceless ser router (a.msgId,a.message) := by
  have hrule := processOutgoingLoop_rule
    (fun o _ => ∃ r s, Carries s r o ∧ Marked router r.msgId s)
    (fun log => ∀ a ∈ log, Sourceless ser router (a.msgId,a.message))
    ser clk doSend maxMessageSize m ?_ (min maxMessages m.outgoing.length) m [] rfl rfl
    (by simp) h.sending
  · obtain ⟨-,-,hf,-,hr,-⟩ := processOutgoingLoop_frame ser clk doSend maxMessageSize
      (min maxMessages m.outgoing.length) m []
    exact ⟨⟨hf.trans h.fragmentMsgId,hr.trans h.resendMsgId,hrule.1⟩,hrule.2⟩
  · rintro m' o log hid - hlog ⟨r,s,hc,hmark⟩
    obtain ⟨hcar,hcut⟩ := carries_turn m' clk doSend maxMessageSize log hc
    refine ⟨⟨r,s,hcar,hmark⟩,?_,fun _ hk => hk⟩
    intro a ha
    rcases hcut a ha with ha | ⟨hmsg,-,f,hf,hfc⟩
    · exact hlog a ha
    · have hfrag : a.msgId = msgbusId .blobFrgmnt := (hmsg.trans hid).trans h.fragmentMsgId
      refine ⟨hfrag.trans_ne (by decide),fun _ g hg => ?_⟩
      obtain rfl := Option.some.inj (hf.symm.trans hg)
      rw [hfc.msgId, hfc.source]
      exact hmark

variable (ser) in
theorem labelled_update (h : Labelled router m) (clk : Clock) (doSend : SendHandler)
    (maxMessageSize : ℕ) :
    Labelled router (m.update ser clk doSend maxMessageSize).manipulator ∧
    ∀ a ∈ (m.update ser clk doSend maxMessageSize).sends,
      Sourceless ser router (a.msgId,a.message) := by
  obtain ⟨-,hask,hout⟩ := update_cases m ser clk doSend maxMessageSize
  refine ⟨h.sub rfl rfl hout,fun a ha => ?_⟩
  obtain ⟨p,-,-,hid,-⟩ := hask a ha
  have hresend : a.msgId = msgbusId .blobResend := hid.trans h.resendMsgId
  exact ⟨hresend.trans_ne (by decide),fun hfrag => nomatch hresend.symm.trans hfrag⟩

theorem labelled_resend (h : Labelled router m) (message : MessageView) :
    Labelled router (m.processResend ser message) := by
  have hout : ∀ o ∈ (m.processResend ser message).outgoing,
      ∃ r s, Carries s r o ∧ Marked router r.msgId s := by
    intro o ho
    rcases mem_processResend ho with ho | ⟨p,hp,bgn,fin,rfl⟩
    · exact h.sending o ho
    · obtain ⟨r,s,hc,hm⟩ := h.sending p hp
      exact ⟨r,s,carries_resend bgn fin hc,hm⟩
  obtain ⟨outgoing,he⟩ := processResend_frame m ser message
  rw [he] at hout ⊢
  exact ⟨h.fragmentMsgId,h.resendMsgId,hout⟩

theorem receives_update (h : Receives m) (clk : Clock) (doSend : SendHandler)
    (maxMessageSize : ℕ) : Receives (m.update ser clk doSend maxMessageSize).manipulator := by
  intro q hq
  rcases (update_cases m ser clk doSend maxMessageSize).1 q hq with hq | ⟨p,hp,rfl⟩
  · exact h q hq
  · exact h p hp

theorem receives_outgoing (h : Receives m) (clk : Clock) (doSend : SendHandler)
    (maxMessageSize maxMessages : ℕ) :
    Receives (m.processOutgoing ser clk doSend maxMessageSize maxMessages).1 := by
  obtain ⟨hin,-⟩ := processOutgoingLoop_frame ser clk doSend maxMessageSize
    (min maxMessages m.outgoing.length) m []
  intro q hq
  exact h q (hin ▸ hq)

theorem receives_resend (h : Receives m) (message : MessageView) :
    Receives (m.processResend ser message) := by
  obtain ⟨outgoing,he⟩ := processResend_frame m ser message
  rw [he]
  exact h

variable (ser) in
theorem prepare_kept (m : Manipulator) (clk : Clock) (message : MessageView) :
    (m.processPrepare ser clk message).fragmentMsgId = m.fragmentMsgId ∧
      (m.processPrepare ser clk message).resendMsgId = m.resendMsgId ∧
      (m.processPrepare ser clk message).outgoing = m.outgoing := by
  unfold processPrepare
  split
  · exact ⟨rfl,rfl,rfl⟩
  · split <;> exact ⟨rfl,rfl,rfl⟩

theorem receives_prepare (h : Receives m) (clk : Clock) (message : MessageView) :
    Receives (m.processPrepare ser clk message) := by
  unfold processPrepare
  split
  · exact h
  · split
    · exact h
    · intro q hq
      rcases mem_modify hq with hq | ⟨p,hp,rfl⟩
      · exact h q hq
      · have hids (progress : ℚ) : (p.handleTargetPreparing clk.now progress).info.sourceId =
            p.info.sourceId ∧ (p.handleTargetPreparing clk.now progress).msgId = p.msgId := by
          unfold PendingBlob.handleTargetPreparing
          dsimp only
          split_ifs <;> exact ⟨rfl,rfl⟩
        obtain ⟨hs,hm⟩ := h p (List.mem_of_getElem? hp)
        exact ⟨(hids _).1 ▸ hs,(hids _).2 ▸ hm⟩

variable (ser) in
theorem incoming_kept (m : Manipulator) (clk : Clock) (getIo : TargetIoGetter BufferBlobIo)
    (message : MessageView) :
    (m.processIncoming ser clk getIo message).2.fragmentMsgId = m.fragmentMsgId ∧
      (m.processIncoming ser clk getIo message).2.resendMsgId = m.resendMsgId ∧
      (m.processIncoming ser clk getIo message).2.outgoing = m.outgoing := by
  unfold processIncoming
  split
  · exact ⟨rfl,rfl,rfl⟩
  · rename_i f _
    obtain ⟨incoming,he⟩ := pushIncomingFragment_frame m clk getIo f
    dsimp only
    rw [he]
    exact ⟨rfl,rfl,rfl⟩

theorem mergeInto_ids (clk : Clock) (f : IncomingFragment) (p : PendingBlob BufferBlobIo) :
    (mergeInto clk f p).info.sourceId = p.info.sourceId ∧ (mergeInto clk f p).msgId = p.msgId := by
  unfold mergeInto
  split_ifs
  · obtain ⟨hm,hs,-⟩ := mergeAccepted_ids clk f p
    exact ⟨hs,hm⟩
  · exact ⟨rfl,rfl⟩

/-- A fragment without a source makes no pending blob. -/
theorem receives_incoming (h : Receives m) (clk : Clock) (getIo : TargetIoGetter BufferBlobIo)
    (message : MessageView) (hm : ∀ f, readFragment ser message = some f →
      Marked true f.msgId f.sourceId) :
    Receives (m.processIncoming ser clk getIo message).2 := by
  cases hf : readFragment ser message with
  | none =>
    rw [processIncoming, hf]
    exact h
  | some f =>
    rw [processIncoming, hf]
    intro q hq
    rcases mem_pushIncomingFragment hq with hq | ⟨p,hp,-,rfl⟩ | ⟨p,hp,-,ha,rfl⟩ | ⟨io,-,hb,rfl⟩
    · exact h q hq
    · obtain ⟨hs,hid⟩ := mergeInto_ids clk f p
      rw [hs, hid]
      exact h p hp
    · obtain ⟨hs,hid⟩ := mergeInto_ids clk f (updateExpected f p)
      have hkeep : (updateExpected f p).info.sourceId = p.info.sourceId := if_neg (h p hp).1
      rw [hs, hid, hkeep]
      exact h p hp
    · exact ⟨hb,fun hcert => hb (hm f hf hcert).2⟩

theorem receives_complete (h : Receives m) (clk : Clock) :
    Receives (m.fetchAll clk).1 ∧ Receives (m.handleComplete clk).1 :=
  ⟨fun q hq => h q (mem_fetchAll hq).1,fun q hq => h q (mem_handleComplete hq).1⟩

/-- What such a manipulator hands over is no certificate. -/
theorem fetchAll_passes (h : Receives m) (clk : Clock) :
    (m.fetchAll clk).2.filterMap certificateOf = [] := by
  rw [List.filterMap_eq_nil_iff]
  intro c hc
  obtain ⟨p,hp,rfl⟩ := List.mem_map.mp hc
  exact if_neg (h p (List.mem_filter.mp hp).1).2

end Manipulator

section Members

variable {env : RouterEnv} {ser : BlobSerializer} {e : Endpoint} {r : Router} {m : Manipulator}

structure Sound (ser : BlobSerializer) (m : Member) : Prop where
  labelled : Labelled m.isRouter m.blobs
  receives : m.isRouter = false → Receives m.blobs
  outbox : ∀ o ∈ m.outbox, Sourceless ser false o

/-- An endpoint may send it under its own id. -/
theorem Sourceless.signed {o : Outbound} (h : Sourceless ser false o) (e : Endpoint) :
    Sourceless ser true (o.1,e.signed o.2) := by
  refine ⟨h.1,fun hf f hr hm => ?_⟩
  rw [Endpoint.signed, readFragment_signed] at hr
  obtain ⟨g,hg,rfl⟩ := Option.map_eq_some_iff.mp hr
  exact absurd (h.2 hf g hg hm).1 Bool.false_ne_true

theorem sound_posted {log : List SendAttempt} (hb : Labelled false e.blobs)
    (hr : Receives e.blobs) (ho : ∀ o ∈ e.outgoing, Sourceless ser false o)
    (hlog : ∀ a ∈ log, Sourceless ser false (a.msgId,a.message)) :
    Sound ser (.endpoint (e.posted log).1) ∧ ∀ o ∈ (e.posted log).2, Sourceless ser true o := by
  unfold Endpoint.posted
  by_cases hid : e.hasId = true
  · rw [if_pos hid]
    refine ⟨⟨hb,fun _ => hr,ho⟩,fun o hm => ?_⟩
    obtain ⟨a,ha,rfl⟩ := List.mem_map.mp hm
    have hs : Sourceless ser false (a.msgId,a.message) := hlog a (List.mem_filter.mp ha).1
    exact hs.signed e
  · rw [if_neg hid]
    refine ⟨⟨hb,fun _ => hr,fun o hm => ?_⟩,by simp⟩
    rcases List.mem_append.mp hm with hm | hm
    · exact ho o hm
    · obtain ⟨a,ha,rfl⟩ := List.mem_map.mp hm
      exact hlog a ha

theorem sound_processBlobs (h : Sound ser (.endpoint e)) (clk : Clock) (connection : SendHandler)
    (maxDataSize : Option ℕ) :
    Sound ser (.endpoint (e.processBlobs ser clk connection maxDataSize).1) ∧
    ∀ o ∈ (e.processBlobs ser clk connection maxDataSize).2, Sourceless ser true o := by
  have hc : Labelled false (e.blobs.handleComplete clk).1 :=
    h.labelled.sub rfl rfl (List.Subset.refl _)
  have hr := (receives_complete (h.receives rfl) clk).2
  cases maxDataSize with
  | none => exact ⟨⟨hc,fun _ => hr,h.outbox⟩,by simp [Endpoint.processBlobs]⟩
  | some maxSize =>
    obtain ⟨hu,hsends⟩ := labelled_update ser hc clk (e.post connection) maxSize
    obtain ⟨ho,hlog⟩ := labelled_outgoing ser hu clk (fun log => e.post connection
      (((e.blobs.handleComplete clk).1.update ser clk (e.post connection) maxSize).sends ++ log))
      maxSize 2
    refine sound_posted ho (receives_outgoing (receives_update hr clk _ maxSize) clk _ maxSize 2)
      h.outbox (fun a ha => ?_)
    rcases List.mem_append.mp ha with ha | ha
    · exact hsends a ha
    · exact hlog a ha

theorem sound_flushOutbox (h : Sound ser (.endpoint e)) (connection : SendHandler) :
    Sound ser (.endpoint (e.flushOutbox connection).1) ∧
    ∀ o ∈ (e.flushOutbox connection).2, Sourceless ser true o := by
  unfold Endpoint.flushOutbox
  by_cases hid : e.hasId = true
  · rw [if_pos hid]
    obtain ⟨hkept,hsent⟩ := mem_sendOutbox e connection e.outgoing []
    refine ⟨⟨h.labelled,h.receives,fun o ho => h.outbox o (hkept o ho)⟩,fun o ho => ?_⟩
    obtain ⟨q,hq,rfl⟩ := hsent o ho
    exact (h.outbox q hq).signed e
  · rw [if_neg hid]
    exact ⟨h,by simp⟩

/-- What an endpoint does with a message on its way, and what of it is passed. -/
theorem sound_handleMessage (h : Sound ser (.endpoint e)) (clk : Clock) {msgId : MessageId}
    {message : MessageView} (hm : Sourceless ser true (msgId,message)) :
    Sound ser (.endpoint (e.handleBlobMessage ser clk msgId message)) ∧
      passedByEndpoint e ser clk msgId message = [] := by
  rw [passedByEndpoint, if_neg hm.1]
  unfold Endpoint.handleBlobMessage
  by_cases hf : msgId = msgbusId .blobFrgmnt
  · rw [if_pos hf, if_pos hf]
    obtain ⟨hfrag,hresend,hout⟩ := incoming_kept ser e.blobs clk
      (fun _ totalSize => e.blobs.makeTargetIo totalSize) message
    have hr : Receives (e.blobs.processIncomingBuffer ser clk message).2 :=
      receives_incoming (h.receives rfl) clk _ message (hm.2 hf)
    have hl : Labelled false (e.blobs.processIncomingBuffer ser clk message).2 :=
      h.labelled.sub hfrag hresend (by rw [processIncomingBuffer, hout]; exact List.Subset.refl _)
    unfold Endpoint.handleBlobFragment
    dsimp only
    split_ifs
    · exact ⟨⟨hl.sub rfl rfl (List.Subset.refl _),fun _ => (receives_complete hr clk).1,h.outbox⟩,
        fetchAll_passes hr clk⟩
    · exact ⟨⟨hl,fun _ => hr,h.outbox⟩,rfl⟩
  · rw [if_neg hf, if_neg hf]
    refine ⟨?_,rfl⟩
    split_ifs
    · exact ⟨labelled_resend h.labelled message,fun _ => receives_resend (h.receives rfl) message,
        h.outbox⟩
    · obtain ⟨hfrag,hresend,hout⟩ := prepare_kept ser e.blobs clk message
      have hl : Labelled false (e.blobs.processPrepare ser clk message) :=
        h.labelled.sub hfrag hresend (by rw [hout]; exact List.Subset.refl _)
      exact ⟨hl,fun _ => receives_prepare (h.receives rfl) clk message,h.outbox⟩
    · exact h

/-- What of the log of a router was added is on its way. -/
def AddsSourceless (ser : BlobSerializer) (before after : List Sent) : Prop :=
  Adds (fun x => Sourceless ser true (x.msgId,x.message)) before after

variable (env) in
theorem labelled_turn (clk : Clock) : TurnKeeps env.serializer clk (Labelled true)
    (fun x => Sourceless env.serializer true (x.msgId,x.message)) := by
  intro m doSend maxMessageSize maxMessages h
  obtain ⟨hk,hlog⟩ := labelled_outgoing env.serializer h clk doSend maxMessageSize maxMessages
  refine ⟨hk,fun a ha x hid hmsg => ?_⟩
  dsimp only
  rw [hid, hmsg]
  exact hlog a ha

variable (env) in
theorem labelled_routerBlobs (h : Labelled true r.blobs) (clk : Clock) :
    Labelled true (r.processBlobs env clk).blobs ∧
      AddsSourceless env.serializer r.sent (r.processBlobs env clk).sent := by
  have hc : Labelled true (r.blobs.handleComplete clk).1 :=
    h.sub rfl rfl (List.Subset.refl _)
  obtain ⟨hu,hsends⟩ := labelled_update env.serializer hc clk
    (r.resendHandler env clk r.getId) minConnectionDataSize
  have hadd : AddsSourceless env.serializer r.sent (r.updateBlobs env clk r.getId).sent := by
    refine adds_resendSends r.getId r.sent _ (fun a ha x hid hmsg => ?_)
    rw [hid, hmsg]
    exact hsends a ha
  unfold Router.processBlobs
  dsimp only
  split_ifs
  · obtain ⟨hk,hadd'⟩ := blobsLoop_rule (labelled_turn env clk) hu
      (r.updateBlobs env clk r.getId).nodes.nodes.entries
      (r.updateBlobs env clk r.getId).sent
    exact ⟨hk,hadd.trans hadd'⟩
  · exact ⟨hu,hadd⟩

/-- The other certificates that a router pushes have another id. -/
theorem labelled_certificate (h : Labelled true r.blobs) (clk : Clock)
    (sourceId targetId : EndpointId) (targetBlobId : BlobId) (pem : Block) :
    Labelled true (r.pushCertificate clk (msgbusId .eptCertPem) sourceId targetId targetBlobId
      pem).blobs := by
  have hne : msgbusId .eptCertPem ≠ certificateId := by decide
  exact labelled_push h clk (fun hm => absurd hm hne) targetId targetBlobId pem _ 0 .high

theorem labelled_handleBlob (h : Labelled true r.blobs) (clk : Clock)
    (c : Completion BufferBlobIo) : Labelled true (r.handleBlob env clk c).blobs := by
  unfold Router.handleBlob
  split
  · dsimp only
    split_ifs
    · exact labelled_certificate (r := { r with context := _ }) h clk _ _ _ _
    · exact labelled_certificate h clk _ _ _ _
    · exact h
    · exact h
    · exact h
  · exact h

theorem labelled_routerMessage (h : Labelled true r.blobs) (clk : Clock) (msgId : MessageId)
    (message : MessageView) :
    Labelled true (handleRouterMessage env clk msgId message r).blobs := by
  have hfold (cs : List (Completion BufferBlobIo)) (r : Router) (h : Labelled true r.blobs) :
      Labelled true (cs.foldl (fun r c => r.handleBlob env clk c) r).blobs := by
    induction cs generalizing r with
    | nil => exact h
    | cons c cs ih => exact ih _ (labelled_handleBlob h clk c)
  unfold handleRouterMessage
  split_ifs
  · obtain ⟨hfrag,hresend,hout⟩ := incoming_kept env.serializer r.blobs clk
      r.getBlobTargetIo message
    have hl : Labelled true
        (r.blobs.processIncoming env.serializer clk r.getBlobTargetIo message).2 :=
      h.sub hfrag hresend (by rw [hout]; exact List.Subset.refl _)
    unfold Router.handleBlobFragment
    dsimp only
    split_ifs
    · exact hfold _ _ (hl.sub rfl rfl (List.Subset.refl _))
    · exact hl
  · unfold Router.handleBlobResend
    split_ifs
    · exact labelled_resend h message
    · exact h
  · unfold Router.handleBlobPrepare
    split_ifs
    · obtain ⟨hfrag,hresend,hout⟩ := prepare_kept env.serializer r.blobs clk message
      exact h.sub hfrag hresend (by rw [hout]; exact List.Subset.refl _)
    · exact h
  · exact h

end Members

section Run

variable {env : RouterEnv} {transport : ℕ → Transport} {s : CertificateRun} {p : Party}

structure Inv (ser : BlobSerializer) (s : CertificateRun) : Prop where
  sound : ∀ p ∈ s.bus.parties, Sound ser p.member
  flight : ∀ x ∈ s.bus.packets, Sourceless ser true (x.msgId,x.message)
  passed : s.passed = []

theorem sound_start (k : Kind) (ser : BlobSerializer) : Sound ser k.member := by
  cases k with
  | endpoint => exact ⟨⟨rfl,rfl,by simp [Kind.member, Member.blobs]⟩,
      fun _ => by simp [Receives, Kind.member, Member.blobs],by simp [Kind.member, Member.outbox]⟩
  | router setup => exact ⟨⟨rfl,rfl,by simp [Kind.member, Member.blobs, RouterRun.start,
      Router.init]⟩,fun h => absurd h Bool.noConfusion,by simp [Kind.member, Member.outbox]⟩

theorem Inv.start (ser : BlobSerializer) (kinds : List Kind) : Inv ser (start kinds) := by
  refine ⟨?_,by simp [RouterCertificate.start, BlobBus.start],rfl⟩
  intro p hp
  obtain ⟨k,-,rfl⟩ := List.mem_map.mp hp
  exact sound_start k ser

variable (env) in
/-- An act of a party keeps it sound, and what goes out is sourceless. -/
theorem sound_act (h : Sound env.serializer p.member) (a : Act)
    (ha : ∀ clk msgId targetId targetBlobId blob maxTime priority,
      a = .postBlob clk msgId targetId targetBlobId blob maxTime priority → msgId ≠ certificateId) :
    Sound env.serializer (p.act env a).1.member ∧
      ∀ o ∈ (p.act env a).2, Sourceless env.serializer true o := by
  obtain ⟨m,pushed,received⟩ := p
  cases m with
  | endpoint e =>
    cases a with
    | assignId id =>
      refine ⟨?_,by simp [Party.act, Party.actEndpoint]⟩
      simp only [Party.act, Party.actEndpoint, Endpoint.assignId]
      split_ifs
      · exact h
      · exact ⟨h.labelled,h.receives,h.outbox⟩
    | postBlob clk msgId targetId targetBlobId blob maxTime priority =>
      have hm : Marked false msgId e.endpointId :=
        fun hc => absurd hc (ha clk msgId targetId targetBlobId blob maxTime priority rfl)
      have hin : (e.postBlob clk msgId targetId targetBlobId blob maxTime priority).blobs.incoming =
          e.blobs.incoming := by
        simp only [Endpoint.postBlob, pushOutgoing, pushOutgoingIo]
        split_ifs <;> rfl
      exact ⟨⟨labelled_push h.labelled clk hm targetId targetBlobId blob maxTime 0 priority,
        fun _ q hq => h.receives rfl q (hin ▸ hq),h.outbox⟩,by simp [Party.act, Party.actEndpoint]⟩
    | processBlobs clk connection maxDataSize =>
      exact sound_processBlobs h clk connection maxDataSize
    | flushOutbox connection => exact sound_flushOutbox h connection
    | _ => exact ⟨h,by simp [Party.act, Party.actEndpoint]⟩
  | router r =>
    cases a with
    | routerCertificateQuery clk message =>
      exact ⟨⟨labelled_push h.labelled clk (fun _ => ⟨rfl,rfl⟩) _ _ _ _ _ _,
        fun hr => absurd hr Bool.noConfusion,h.outbox⟩,by simp [Party.act, Party.actRouter]⟩
    | endpointCertificateQuery clk message =>
      have hl : Labelled true (r.handleEndpointCertificateQuery clk message).2.blobs := by
        unfold Router.handleEndpointCertificateQuery
        dsimp only
        split_ifs
        · exact labelled_certificate h.labelled clk _ _ _ _
        · exact h.labelled
      exact ⟨⟨hl,fun hr => absurd hr Bool.noConfusion,h.outbox⟩,by
        simp [Party.act, Party.actRouter]⟩
    | processRouterBlobs clk =>
      obtain ⟨hl,new,hnew,hall⟩ := labelled_routerBlobs env h.labelled clk
      refine ⟨⟨hl,fun hr => absurd hr Bool.noConfusion,h.outbox⟩,fun o ho => ?_⟩
      simp only [Party.act, Party.actRouter, sentSince] at ho
      rw [hnew, List.drop_left] at ho
      obtain ⟨x,hx,rfl⟩ := List.mem_map.mp ho
      exact hall x (List.mem_filter.mp hx).1
    | changeTables nodes parentRouter =>
      exact ⟨⟨h.labelled,fun hr => absurd hr Bool.noConfusion,h.outbox⟩,by
        simp [Party.act, Party.actRouter]⟩
    | _ => exact ⟨h,by simp [Party.act, Party.actRouter]⟩

variable (env) in
/-- A delivery of what is on its way passes no certificate. -/
theorem sound_deliver (h : Sound env.serializer p.member) (clk : Clock) {x : Packet}
    (hx : Sourceless env.serializer true (x.msgId,x.message)) :
    Sound env.serializer (p.receive env clk x).member ∧
      ∀ e, p.member = .endpoint e →
        passedByEndpoint e env.serializer clk x.msgId x.message = [] := by
  obtain ⟨m,pushed,received⟩ := p
  cases m with
  | endpoint e =>
    obtain ⟨hs,hp⟩ := sound_handleMessage h clk hx
    refine ⟨hs,fun e' he => ?_⟩
    obtain rfl := Member.endpoint.inj he
    exact hp
  | router r =>
    exact ⟨⟨labelled_routerMessage h.labelled clk x.msgId x.message,
      fun hr => absurd hr Bool.noConfusion,h.outbox⟩,fun e he => absurd he (by simp)⟩

theorem Inv.sound_set {ser : BlobSerializer} (hi : Inv ser s) (i : ℕ) (hp : Sound ser p.member) :
    ∀ q ∈ s.bus.parties.set i p, Sound ser q.member := by
  intro q hq
  rcases List.mem_or_eq_of_mem_set hq with hq | rfl
  · exact hi.sound q hq
  · exact hp

theorem Inv.step (hi : Inv env.serializer s) (e : Event) (hok : Honest s e) :
    Inv env.serializer (step env transport s e) := by
  cases e with
  | act i a =>
    cases hp : s.bus.parties[i]? with
    | none =>
      simp only [RouterCertificate.step, BlobBus.step, passedBy, hp]
      exact ⟨hi.sound,hi.flight,by simp [hi.passed]⟩
    | some p =>
      have ha : ∀ clk msgId targetId targetBlobId blob maxTime priority,
          a = .postBlob clk msgId targetId targetBlobId blob maxTime priority →
          msgId ≠ certificateId := by
        rintro clk msgId targetId targetBlobId blob maxTime priority rfl
        exact hok
      obtain ⟨hsound,hsent⟩ := sound_act (environment env transport i)
        (hi.sound p (List.mem_of_getElem? hp)) a ha
      simp only [RouterCertificate.step, BlobBus.step, passedBy, hp]
      refine ⟨hi.sound_set i hsound,fun x hx => ?_,by simp [hi.passed]⟩
      rcases List.mem_append.mp hx with hx | hx
      · exact hi.flight x hx
      · obtain ⟨o,ho,rfl⟩ := List.mem_map.mp hx
        exact hsent o ho
  | deliver i k clk hopCount age =>
    cases hp : s.bus.parties[i]? with
    | none =>
      simp only [RouterCertificate.step, BlobBus.step, passedBy, hp]
      exact ⟨hi.sound,hi.flight,by simp [hi.passed]⟩
    | some p =>
      cases hx : s.bus.packets[k]? with
      | none =>
        simp only [RouterCertificate.step, BlobBus.step, passedBy, hp, hx]
        exact ⟨hi.sound,hi.flight,by simp [hi.passed]⟩
      | some x =>
        have hless : Sourceless env.serializer true (x.msgId,travelled hopCount age x.message) :=
          hi.flight x (List.mem_of_getElem? hx)
        obtain ⟨hsound,hnone⟩ := sound_deliver (environment env transport i)
          (hi.sound p (List.mem_of_getElem? hp)) clk
          (x := { x with message := travelled hopCount age x.message }) hless
        simp only [RouterCertificate.step, BlobBus.step, passedBy, hp, hx]
        refine ⟨hi.sound_set i hsound,hi.flight,?_⟩
        rw [hi.passed]
        cases hm : p.member with
        | endpoint e =>
          have hpass : passedByEndpoint e env.serializer clk x.msgId
              (travelled hopCount age x.message) = [] := hnone e hm
          simp only [hpass, List.map_nil, List.append_nil]
        | router r => rfl

theorem run_inv (hi : Inv env.serializer s) {es : List Event}
    (hes : StepRun.Steps (step env transport) Honest s es) :
    Inv env.serializer (StepRun.run (step env transport) s es) := by
  have hkeep (s : CertificateRun) (e : Event) (hi : Inv env.serializer s) (hok : Honest s e) :
      Inv env.serializer (RouterCertificate.step env transport s e) := hi.step e hok
  exact StepRun.run_invariant hkeep hi hes

theorem Inv.not_answered {ser : BlobSerializer} (hi : Inv ser s) (i : ℕ) (cert : Block) :
    ¬Answered s i cert := by
  intro h
  rw [Answered, hi.passed] at h
  cases h

/-- Whatever the router was asked and however the run goes on, no endpoint is
passed the certificate. -/
theorem router_certificate_never_passed (env : RouterEnv) (transport : ℕ → Transport)
    (kinds : List Kind) (es : List Event)
    (hes : StepRun.Steps (step env transport) Honest (start kinds) es) (i : ℕ) (cert : Block) :
    ¬∃ fs, StepRun.Steps (step env transport) Honest
        (StepRun.run (step env transport) (start kinds) es) fs ∧
      Answered (StepRun.run (step env transport)
        (StepRun.run (step env transport) (start kinds) es) fs) i cert := by
  rintro ⟨fs,hfs,hans⟩
  exact (run_inv (run_inv (Inv.start env.serializer kinds) hes) hfs).not_answered i cert hans

/-- A router with a certificate and an endpoint that is one of its nodes. -/
def sampleKinds : List Kind := [.router ⟨100,4096,1,[1,2,3],false⟩,.endpoint]

def sampleNodes : RouterNodes where
  nodes := OrderedMap.empty.assign 7
    { connection := some { link := 1, maxDataSize := some 4096 }, maybeRouter := false }

/-- The endpoint asks for the certificate, the router sends what it has pushed
and all of it is delivered. -/
def sampleQuery : List Event :=
  [.act 1 (.assignId 7),
    .act 0 (.changeTables sampleNodes {}),
    .act 0 (.routerCertificateQuery sampleClock { sourceId := 7 }),
    .act 0 (.processRouterBlobs sampleClock),
    .deliver 1 0 sampleClock 1 0]

def sampleState : CertificateRun :=
  StepRun.run (step RouterRun.sampleEnv (fun _ _ _ _ _ => true)) (start sampleKinds) sampleQuery

theorem sampleQuery_never_passed :
    StepRun.Steps (step RouterRun.sampleEnv (fun _ _ _ _ _ => true)) Honest
      (start sampleKinds) sampleQuery ∧
    ¬∃ fs, StepRun.Steps (step RouterRun.sampleEnv (fun _ _ _ _ _ => true)) Honest
        sampleState fs ∧
      Answered (StepRun.run (step RouterRun.sampleEnv (fun _ _ _ _ _ => true)) sampleState fs)
        1 [1,2,3] := by
  have hes : StepRun.Steps (step RouterRun.sampleEnv (fun _ _ _ _ _ => true)) Honest
      (start sampleKinds) sampleQuery := by decide
  exact ⟨hes,router_certificate_never_passed RouterRun.sampleEnv (fun _ _ _ _ _ => true)
    sampleKinds sampleQuery hes 1 [1,2,3]⟩

/-- The one fragment holds the whole certificate; the endpoint drops it, and
nothing that may still happen changes that it is not passed. -/
theorem sampleQuery_dropped :
    sampleState.bus.packets.map (fun x => (x.msgId,x.message.sourceId,x.message.targetId)) =
      [(msgbusId .blobFrgmnt,0,7)] ∧
    sampleState.bus.packets.map (fun x => (readFragment RouterRun.sampleEnv.serializer
        x.message).map (fun f => (f.msgId,f.totalSize,f.fragment))) =
      [some (certificateId,3,[1,2,3])] ∧
    (∀ p ∈ sampleState.bus.parties, p.member.blobs.incoming.length = 0) ∧
    sampleState.passed = [] ∧
    ∀ fs, StepRun.Steps (step RouterRun.sampleEnv (fun _ _ _ _ _ => true)) Honest
        sampleState fs →
      ¬Answered (StepRun.run (step RouterRun.sampleEnv (fun _ _ _ _ _ => true)) sampleState fs)
        1 [1,2,3] := by
  have hes : StepRun.Steps (step RouterRun.sampleEnv (fun _ _ _ _ _ => true)) Honest
      (start sampleKinds) sampleQuery := by decide
  have hinv : Inv RouterRun.sampleEnv.serializer sampleState :=
    run_inv (Inv.start RouterRun.sampleEnv.serializer sampleKinds) hes
  exact ⟨by decide,by decide,by decide,hinv.passed,
    fun fs hfs => (run_inv hinv hfs).not_answered 1 [1,2,3]⟩

end Run

end MsgBus.RouterCertificate
