import MsgBus.BlobTransfer

/-!
# Integrity of transferred blobs

The sender cuts every fragment from a pushed block, so does everything in the
channel; a pending blob at the receiver holds, in the received places, the
bytes of the block it belongs to. Each part of the invariant is preserved by
one operation and the run lemma puts them together.
-/

set_option autoImplicit false

namespace MsgBus.BlobIntegrity

open IntervalList ByteBlock FragmentMerge BlobManipulator ManipulatorRules BlobTransfer

/-- The outgoing blob is the pushed one. -/
structure Carries (sourceId : EndpointId) (r : Pushed) (p : PendingBlob BufferBlobIo) : Prop where
  msgId : p.msgId = r.msgId
  source : p.info.sourceId = sourceId
  sourceBlobId : p.sourceBlobId = r.sourceBlobId
  targetBlobId : p.targetBlobId = r.targetBlobId
  totalSize : p.info.totalSize = r.content.length
  content : p.io.buf = r.content

/-- The fragment was cut from the pushed block. -/
structure CutFrom (sourceId : EndpointId) (r : Pushed) (f : IncomingFragment) : Prop where
  msgId : f.msgId = r.msgId
  source : f.sourceId = sourceId
  sourceBlobId : f.sourceBlobId = r.sourceBlobId
  targetBlobId : f.targetBlobId = r.targetBlobId
  totalSize : f.totalSize = r.content.length
  nonempty : f.fragment ≠ []
  slice : Slice r.content f.offset f.fragment

/-- The pending blob is on its way to become the pushed block. -/
structure Receives (sourceId : EndpointId) (r : Pushed) (p : PendingBlob Received) : Prop where
  msgId : p.msgId = r.msgId
  source : p.info.sourceId = sourceId
  sourceBlobId : p.sourceBlobId = r.sourceBlobId
  targetBlobId : p.targetBlobId = r.targetBlobId
  totalSize : p.info.totalSize = r.content.length
  canonical : Canonical p.doneParts
  started : p.doneParts ≠ []
  within : covered p.doneParts ⊆ Set.Ico 0 r.content.length
  holds : StoreLog.Holds r.content p.io (covered p.doneParts)

/-- The bytes a completion hands over. -/
def handedOver : Completion Received → Block
  | .fetched _ _ _ message => message.data
  | .finished _ _ _ _ io => io.io.buf

/-- A report gives the ids of one pushed block, the whole of it as the only
received interval, its bytes, and every one of them was stored. -/
structure Faithful (sourceId : EndpointId) (pushed : List Pushed) (c : Completion Received) :
    Prop where
  source : c.pending.info.sourceId = sourceId
  block : ∃ r ∈ pushed, r.sourceBlobId = c.pending.sourceBlobId ∧
    c.pending.info.totalSize = r.content.length ∧
    c.pending.doneParts = [(0,c.pending.info.totalSize)] ∧
    handedOver c = r.content ∧
    Set.Ico 0 r.content.length ⊆ covered c.pending.io.stored

section Sender

variable {ser : BlobSerializer} {sourceId : EndpointId} {r : Pushed}
  {p : PendingBlob BufferBlobIo}

theorem carries_resend (bgn fin : ℕ) (h : Carries sourceId r p) :
    Carries sourceId r (p.mergeResendRequest bgn fin) := by
  obtain ⟨parts,he⟩ := mergeResendRequest_parts p bgn fin
  rw [he]
  exact ⟨h.msgId,h.source,h.sourceBlobId,h.targetBlobId,h.totalSize,h.content⟩

theorem carries_new (clk : Clock) (msgId : MessageId) (targetId : EndpointId)
    (sourceBlobId targetBlobId : BlobId) (src : Block) (maxTime : ℕ) (options : BlobOptions)
    (priority : MessagePriority) :
    Carries sourceId ⟨msgId,sourceBlobId,targetBlobId,src⟩ (newOutgoing clk msgId sourceId targetId
      sourceBlobId targetBlobId (.ofBlock src) maxTime options priority) :=
  ⟨rfl,rfl,rfl,rfl,rfl,rfl⟩

/-- What is read back from an offered fragment message. -/
theorem readFragment_offered (h : Carries sourceId r p) (maxMessageSize bgn : ℕ)
    (hw : cut ser maxMessageSize p bgn ≠ []) :
    ∃ f, readFragment ser (fragmentMessage ser p bgn (cut ser maxMessageSize p bgn)) = some f ∧
      CutFrom sourceId r f := by
  have hs : Slice r.content bgn (cut ser maxMessageSize p bgn) := by
    rw [← h.content]
    exact slice_of_take _ _ _
  have hb := slice_bound hs hw
  have hp := List.length_pos_of_ne_nil hw
  simp only [readFragment, fragmentMessage, MessageView.content, MessageView.isSigned,
    Bool.or_false, Bool.false_eq_true, if_false, ser.header.decode_encode]
  rw [if_pos (by simp only [fragmentHeader, h.totalSize]; omega),
    if_pos (by simp only [fragmentHeader, h.totalSize]; omega)]
  exact ⟨_,rfl,h.msgId,h.source,h.sourceBlobId,h.targetBlobId,h.totalSize,hw,hs⟩

/-- A turn of the sending loop keeps the blob, and what it offers is cut from
the block of the blob. -/
theorem carries_turn (m : BlobManipulator BufferBlobIo BufferBlobIo) (clk : Clock)
    (doSend : SendHandler) (maxMessageSize : ℕ) (log : List SendAttempt)
    (h : Carries sourceId r p) :
    Carries sourceId r (m.processOne ser clk doSend maxMessageSize p log).1 ∧
    ∀ a ∈ (m.processOne ser clk doSend maxMessageSize p log).2, a ∈ log ∨
      a.msgId = m.fragmentMsgId ∧ a.message.sourceId = sourceId ∧
        ∃ f, readFragment ser a.message = some f ∧ CutFrom sourceId r f := by
  rcases processOne_cases m ser clk doSend maxMessageSize p log with
    ⟨q,he,hq⟩ | ⟨front,bgn,fin,q,_,hcut,he,hq⟩
  · rw [he, hq]
    exact ⟨⟨h.msgId,h.source,h.sourceBlobId,h.targetBlobId,h.totalSize,h.content⟩,
      fun a ha => Or.inl ha⟩
  · rw [he, hq]
    refine ⟨⟨h.msgId,h.source,h.sourceBlobId,h.targetBlobId,h.totalSize,h.content⟩,?_⟩
    intro a ha
    rcases List.mem_append.mp ha with ha | ha
    · exact Or.inl ha
    · obtain rfl := List.mem_singleton.mp ha
      exact Or.inr ⟨rfl,h.source,readFragment_offered h maxMessageSize bgn hcut⟩

/-- A call of the sending loop keeps every outgoing blob and offers only what
is cut from pushed blocks. -/
theorem processOutgoing_cut (ser : BlobSerializer) (pushed : List Pushed)
    (m : BlobManipulator BufferBlobIo BufferBlobIo) (clk : Clock) (doSend : SendHandler)
    (maxMessageSize maxMessages : ℕ)
    (h : ∀ p ∈ m.outgoing, ∃ r ∈ pushed, Carries sourceId r p) :
    (∀ p ∈ (m.processOutgoing ser clk doSend maxMessageSize maxMessages).1.outgoing,
      ∃ r ∈ pushed, Carries sourceId r p) ∧
    ∀ a ∈ (m.processOutgoing ser clk doSend maxMessageSize maxMessages).2,
      ∃ r ∈ pushed, ∃ f, readFragment ser a.message = some f ∧ CutFrom sourceId r f := by
  refine processOutgoingLoop_rule (fun p _ => ∃ r ∈ pushed, Carries sourceId r p)
    (fun log => ∀ a ∈ log, ∃ r ∈ pushed, ∃ f,
      readFragment ser a.message = some f ∧ CutFrom sourceId r f)
    ser clk doSend maxMessageSize m ?_ _ m [] rfl rfl (by simp) h
  rintro m p log - - hlog ⟨r,hr,hc⟩
  obtain ⟨hcar,hcut⟩ := carries_turn m clk doSend maxMessageSize log hc
  refine ⟨⟨r,hr,hcar⟩,?_,fun q hq => hq⟩
  intro a ha
  rcases hcut a ha with ha | ⟨-,-,hf⟩
  · exact hlog a ha
  · exact ⟨r,hr,hf⟩

end Sender

section Receiver

variable {sourceId : EndpointId} {r : Pushed} {p : PendingBlob Received} {f : IncomingFragment}

theorem receives_accepts (hp : Receives sourceId r p) (hf : CutFrom sourceId r f) :
    acceptsFragment f p = true :=
  acceptsFragment_iff.mpr
    ⟨Or.inr (hp.totalSize.trans hf.totalSize.symm),hp.msgId.trans hf.msgId.symm⟩

theorem receives_merge (clk : Clock) (hp : Receives sourceId r p) (hf : CutFrom sourceId r f) :
    Receives sourceId r (mergeAccepted clk f p) := by
  have hdone := mergeAccepted_done clk f p hp.canonical
  have hle : f.offset ≤ f.offset+f.fragment.length := Nat.le_add_right _ _
  have hb := slice_bound hf.slice hf.nonempty
  refine ⟨hp.msgId,hp.source,hp.sourceBlobId,hp.targetBlobId,?_,?_,?_,?_,?_⟩
  · rw [(mergeAccepted_ids clk f p).2.2.2.2, hp.totalSize, hf.totalSize, max_self]
  · rw [hdone]
    exact insert_canonical _ _ hle _ hp.canonical
  · rw [hdone]
    exact insert_ne_nil _ _ _
  · rw [hdone, covered_insert _ _ hle _ hp.canonical.1]
    exact Set.union_subset (Set.Ico_subset_Ico (Nat.zero_le _) hb) hp.within
  · exact StoreLog.holds_merge r.content (refreshed clk f p) clk.now f.offset f.fragment
      hp.canonical hf.nonempty hf.slice hp.holds

theorem receives_new (clk : Clock) (hf : CutFrom sourceId r f) :
    Receives sourceId r (newIncoming clk f (StoreLog.fresh (.ofSize f.totalSize))) := by
  have hdone := newIncoming_done clk f (StoreLog.fresh (BufferBlobIo.ofSize f.totalSize))
  have hb := slice_bound hf.slice hf.nonempty
  have hfresh : StoreLog.Holds r.content (StoreLog.fresh (.ofSize f.totalSize)) (covered []) := by
    rw [hf.totalSize, covered_nil]
    exact StoreLog.holds_fresh r.content
  refine ⟨hf.msgId,hf.source,hf.sourceBlobId,hf.targetBlobId,hf.totalSize,?_,?_,?_,?_⟩
  · rw [hdone]
    exact canonical_singleton _ _ (Nat.le_add_right _ _)
  · simp [hdone]
  · rw [hdone, covered_cons, covered_nil, Set.union_empty]
    exact Set.Ico_subset_Ico (Nat.zero_le _) hb
  · exact StoreLog.holds_merge r.content
      (createIncoming clk f (StoreLog.fresh (.ofSize f.totalSize))) clk.now f.offset f.fragment
      canonical_nil hf.nonempty hf.slice hfresh

/-- A complete pending blob has received exactly the whole of its block. -/
theorem receives_everything (hp : Receives sourceId r p) (he : p.receivedEverything = true) :
    p.doneParts = [(0,r.content.length)] := by
  have hst := hp.started
  have hw := hp.within
  rw [PendingBlob.receivedEverything] at he
  match hd : p.doneParts with
  | [] => exact absurd hd hst
  | [(bgn,fin)] =>
    rw [hd] at he hw
    simp only [Bool.decide_and, Bool.and_eq_true, decide_eq_true_eq] at he
    obtain ⟨rfl,hz,hfin⟩ := he
    rw [hp.totalSize] at hz hfin
    have hmem : fin-1 ∈ Set.Ico 0 r.content.length :=
      hw ⟨(0,fin),by simp,Nat.zero_le _,by simp only; omega⟩
    have hlt := hmem.2
    rw [show fin = r.content.length by omega]
  | _::_::_ =>
    rw [hd] at he
    simp at he

theorem receives_faithful {pushed : List Pushed} (hr : r ∈ pushed) (hp : Receives sourceId r p)
    (he : p.receivedEverything = true) {c : Completion Received} (hc : c.pending = p)
    (hb : handedOver c = p.io.io.buf) : Faithful sourceId pushed c := by
  subst hc
  have hdone := receives_everything hp he
  have hcov : covered c.pending.doneParts = Set.Ico 0 r.content.length := by simp [hdone]
  have hh := hp.holds
  rw [hcov] at hh
  exact ⟨hp.source,r,hr,hp.sourceBlobId.symm,hp.totalSize,by rw [hdone, hp.totalSize],
    hb.trans (agree_whole hh.size hh.agree),hh.stored⟩

end Receiver

section System

variable {ser : BlobSerializer} {sourceId : EndpointId} {t : Transfer}

/-- What holds in every state of an admitted run. -/
structure Inv (ser : BlobSerializer) (sourceId : EndpointId) (t : Transfer) : Prop where
  sequence : t.sender.blobIdSequence = t.pushed.length
  short : t.pushed.length ≤ blobIdMax
  numbered : ∀ i r, t.pushed[i]? = some r → r.sourceBlobId = i+1
  distinct : ∀ r ∈ t.pushed, ∀ r' ∈ t.pushed, r.msgId = r'.msgId →
    r.targetBlobId = r'.targetBlobId → r = r'
  sending : ∀ p ∈ t.sender.outgoing, ∃ r ∈ t.pushed, Carries sourceId r p
  channel : ∀ message ∈ t.fragments, ∃ r ∈ t.pushed, ∃ f,
    readFragment ser message = some f ∧ CutFrom sourceId r f
  receiving : ∀ p ∈ t.receiver.incoming, ∃ r ∈ t.pushed, Receives sourceId r p
  reported : ∀ c, .handedOver c ∈ t.history → Faithful sourceId t.pushed c

theorem numbered_unique {pushed : List Pushed}
    (h : ∀ i r, pushed[i]? = some r → r.sourceBlobId = i+1) :
    ∀ r ∈ pushed, ∀ r' ∈ pushed, r.sourceBlobId = r'.sourceBlobId → r = r' := by
  intro r hr r' hr' he
  obtain ⟨i,hi⟩ := List.mem_iff_getElem?.mp hr
  obtain ⟨j,hj⟩ := List.mem_iff_getElem?.mp hr'
  have hij : i = j := Nat.add_right_cancel ((h i r hi).symm.trans (he.trans (h j r' hj)))
  subst hij
  exact Option.some.inj (hi.symm.trans hj)

theorem numbered_snoc {pushed : List Pushed} {r : Pushed}
    (h : ∀ i r, pushed[i]? = some r → r.sourceBlobId = i+1)
    (hr : r.sourceBlobId = pushed.length+1) :
    ∀ i r', (pushed++[r])[i]? = some r' → r'.sourceBlobId = i+1 := by
  intro i r' hi
  rcases lt_or_ge i pushed.length with hlt | hge
  · rw [List.getElem?_append_left hlt] at hi
    exact h i r' hi
  · rw [List.getElem?_append_right hge, List.getElem?_singleton] at hi
    split_ifs at hi with hz
    obtain rfl := Option.some.inj hi
    rw [hr]
    omega

theorem inv_start (fragmentMsgId resendMsgId prepareMsgId : MessageId) (maxBlobSize : ℕ) :
    Inv ser sourceId (start fragmentMsgId resendMsgId prepareMsgId maxBlobSize) := by
  constructor <;> simp [start]

/-- A report is faithful to what was pushed later on as well. -/
theorem faithful_mono {pushed more : List Pushed} {c : Completion Received}
    (h : Faithful sourceId pushed c) : Faithful sourceId (pushed++more) c := by
  obtain ⟨hs,r,hr,hb⟩ := h
  exact ⟨hs,r,List.mem_append_left _ hr,hb⟩

theorem inv_push (clk : Clock) (msgId : MessageId) (targetId : EndpointId)
    (targetBlobId : BlobId) (src : Block) (maxTime : ℕ) (options : BlobOptions)
    (priority : MessagePriority) (h : Inv ser sourceId t)
    (ha : Admitted t (.pushOutgoing clk msgId targetId targetBlobId src maxTime options priority)) :
    Inv ser sourceId (push t msgId targetBlobId src (t.sender.pushOutgoing clk msgId sourceId
      targetId targetBlobId src maxTime options priority)) := by
  obtain ⟨hroom,hfresh⟩ := ha
  by_cases hsrc : src = []
  · have hr : t.sender.pushOutgoing clk msgId sourceId targetId targetBlobId src maxTime options
        priority = (0,t.sender) := by
      subst hsrc
      rfl
    rw [push, if_pos hsrc, hr]
    exact h
  · have hid : t.sender.nextBlobId = t.pushed.length+1 := by
      have hne : t.sender.blobIdSequence ≠ blobIdMax := by
        rw [h.sequence]
        exact hroom.ne
      rw [nextBlobId, if_neg hne, h.sequence]
    have hr : t.sender.pushOutgoing clk msgId sourceId targetId targetBlobId src maxTime options
        priority = (t.pushed.length+1,{ t.sender with
          blobIdSequence := t.pushed.length+1
          outgoing := t.sender.outgoing ++ [newOutgoing clk msgId sourceId targetId
            (t.pushed.length+1) targetBlobId (.ofBlock src) maxTime options priority] }) := by
      rw [← hid]
      exact if_pos (List.length_pos_of_ne_nil hsrc)
    rw [push, if_neg hsrc, hr]
    have hold : ∀ {P : Pushed → Prop}, (∃ r ∈ t.pushed, P r) → ∃ r ∈ t.pushed ++
        [⟨msgId,t.pushed.length+1,targetBlobId,src⟩], P r :=
      fun ⟨r,hr,hp⟩ => ⟨r,List.mem_append_left _ hr,hp⟩
    refine ⟨by simp,?_,?_,?_,?_,fun m hm => hold (h.channel m hm),
      fun p hp => hold (h.receiving p hp),fun c hc => faithful_mono (h.reported c hc)⟩
    · simp only [List.length_append, List.length_singleton]
      omega
    · exact numbered_snoc h.numbered rfl
    · intro r hr r' hr' hm ht
      rcases List.mem_append.mp hr with hr | hr <;> rcases List.mem_append.mp hr' with hr' | hr'
      · exact h.distinct r hr r' hr' hm ht
      · obtain rfl := List.mem_singleton.mp hr'
        exact absurd ⟨hm,ht⟩ (hfresh r hr)
      · obtain rfl := List.mem_singleton.mp hr
        exact absurd ⟨hm.symm,ht.symm⟩ (hfresh r' hr')
      · exact (List.mem_singleton.mp hr).trans (List.mem_singleton.mp hr').symm
    · intro p hp
      rcases List.mem_append.mp hp with hp | hp
      · exact hold (h.sending p hp)
      · obtain rfl := List.mem_singleton.mp hp
        exact ⟨_,List.mem_append_right _ (List.mem_singleton_self _),
          carries_new clk msgId targetId _ targetBlobId src maxTime options priority⟩

theorem unique_block (h : Inv ser sourceId t) : ∀ r ∈ t.pushed, ∀ r' ∈ t.pushed,
    r.sourceBlobId = r'.sourceBlobId → r = r' :=
  numbered_unique h.numbered

/-- A fragment from the channel is merged into the pending blob of its block,
or it starts that blob, or the blob is too big. -/
theorem arrival_cases (h : Inv ser sourceId t) (clk : Clock) {message : MessageView}
    (hm : message ∈ t.fragments) :
    ∃ r ∈ t.pushed, ∃ f, readFragment ser message = some f ∧ CutFrom sourceId r f ∧
      ((∃ pos p, t.receiver.incoming[pos]? = some p ∧ Owns f p ∧ Receives sourceId r p ∧
        (t.receiver.processIncoming ser clk (getIo t.receiver) message).2 =
          { t.receiver with incoming := t.receiver.incoming.modify pos (mergeInto clk f) }) ∨
      ((∀ p ∈ t.receiver.incoming, ¬ Owns f p) ∧
        (t.receiver.processIncoming ser clk (getIo t.receiver) message).2 =
          { t.receiver with incoming := t.receiver.incoming ++
            [newIncoming clk f (StoreLog.fresh (.ofSize f.totalSize))] }) ∨
      (t.receiver.processIncoming ser clk (getIo t.receiver) message).2 = t.receiver) := by
  obtain ⟨r,hr,f,hf,hcut⟩ := h.channel message hm
  refine ⟨r,hr,f,hf,hcut,?_⟩
  simp only [processIncoming, hf]
  rcases pushIncomingFragment_cases t.receiver clk (getIo t.receiver) f with
    ⟨pos,p,_,hp,ho,he⟩ | ⟨pos,p,hn,_,hp,ha,he⟩ | ⟨io,hn,_,hg,_,he⟩ | ⟨_,_,he⟩
  · obtain ⟨r',hr',hrec⟩ := h.receiving p (List.mem_of_getElem? hp)
    have hid : r'.sourceBlobId = r.sourceBlobId :=
      hrec.sourceBlobId.symm.trans (ho.2.trans hcut.sourceBlobId)
    obtain rfl := unique_block h r' hr' r hr hid
    exact Or.inl ⟨pos,p,hp,ho,hrec,he⟩
  · obtain ⟨r',hr',hrec⟩ := h.receiving p (List.mem_of_getElem? hp)
    obtain rfl := h.distinct r' hr' r hr
      (hrec.msgId.symm.trans (ha.1.trans hcut.msgId))
      (hrec.targetBlobId.symm.trans (ha.2.1.trans hcut.targetBlobId))
    exact absurd ⟨hrec.source.trans hcut.source.symm,
      hrec.sourceBlobId.trans hcut.sourceBlobId.symm⟩
      (findBySource_none hn p (List.mem_of_getElem? hp))
  · have hio : io = StoreLog.fresh (.ofSize f.totalSize) := by
      simp only [getIo, makeTargetIo] at hg
      split_ifs at hg with hsize
      · exact (Option.some.inj hg).symm
      · simp at hg
    subst hio
    exact Or.inr (Or.inl ⟨findBySource_none hn,he⟩)
  · exact Or.inr (Or.inr he)

theorem receiving_arrival (h : Inv ser sourceId t) (clk : Clock) {message : MessageView}
    (hm : message ∈ t.fragments) :
    ∀ q ∈ (t.receiver.processIncoming ser clk (getIo t.receiver) message).2.incoming,
      ∃ r ∈ t.pushed, Receives sourceId r q := by
  intro q hq
  obtain ⟨r,hr,f,_,hcut,⟨pos,p,hp,_,hrec,he⟩ | ⟨_,he⟩ | he⟩ := arrival_cases h clk hm
  all_goals rw [he] at hq
  · rcases mem_modify hq with hq | ⟨a,ha,rfl⟩
    · exact h.receiving q hq
    · obtain rfl := Option.some.inj (hp.symm.trans ha)
      rw [mergeInto, if_pos (receives_accepts hrec hcut)]
      exact ⟨r,hr,receives_merge clk hrec hcut⟩
  · rcases List.mem_append.mp hq with hq | hq
    · exact h.receiving q hq
    · obtain rfl := List.mem_singleton.mp hq
      exact ⟨r,hr,receives_new clk hcut⟩
  · exact h.receiving q hq

/-- What either operation hands over comes from a complete pending blob. -/
theorem mem_completions {m : BlobManipulator BufferBlobIo Received} {clk : Clock}
    {c : Completion Received}
    (hc : c ∈ (m.fetchAll clk).2 ∨ c ∈ (m.handleComplete clk).2) :
    c.pending ∈ m.incoming ∧ c.pending.receivedEverything = true ∧
      handedOver c = c.pending.io.io.buf := by
  rcases hc with hc | hc
  · obtain ⟨p,hp,rfl⟩ := List.mem_map.mp hc
    obtain ⟨hin,he⟩ := List.mem_filter.mp hp
    exact ⟨hin,he,rfl⟩
  · obtain ⟨p,hp,rfl⟩ := List.mem_map.mp hc
    obtain ⟨hin,he⟩ := List.mem_filter.mp hp
    exact ⟨hin,he,rfl⟩

theorem inv_handOver (h : Inv ser sourceId t)
    {r : BlobManipulator BufferBlobIo Received × List (Completion Received)}
    (hkeep : ∀ q ∈ r.1.incoming, q ∈ t.receiver.incoming)
    (hdone : ∀ c ∈ r.2, c.pending ∈ t.receiver.incoming ∧
      c.pending.receivedEverything = true ∧ handedOver c = c.pending.io.io.buf) :
    Inv ser sourceId (handOver t r) := by
  refine ⟨h.sequence,h.short,h.numbered,h.distinct,h.sending,h.channel,
    fun q hq => h.receiving q (hkeep q hq),?_⟩
  intro c hc
  rcases List.mem_append.mp hc with hc | hc
  · obtain ⟨c',hc',he⟩ := List.mem_map.mp (List.mem_reverse.mp hc)
    obtain rfl := Happening.handedOver.inj he
    obtain ⟨hin,hall,hb⟩ := hdone c' hc'
    obtain ⟨r,hr,hrec⟩ := h.receiving c'.pending hin
    exact receives_faithful hr hrec hall rfl hb
  · exact h.reported c hc

theorem receives_touched {r : Pushed} {p : PendingBlob Received} (now : ℕ)
    (h : Receives sourceId r p) : Receives sourceId r { p with latestUpdate := now } :=
  ⟨h.msgId,h.source,h.sourceBlobId,h.targetBlobId,h.totalSize,h.canonical,h.started,h.within,
    h.holds⟩

/-- One admitted event preserves the invariant. -/
theorem inv_step (h : Inv ser sourceId t) (e : Event) (ha : Admitted t e) :
    Inv ser sourceId (step ser sourceId t e) := by
  cases e with
  | pushOutgoing clk msgId targetId targetBlobId src maxTime options priority =>
    exact inv_push clk msgId targetId targetBlobId src maxTime options priority h ha
  | processOutgoing clk doSend maxMessageSize maxMessages =>
    obtain ⟨hsend,hcut⟩ := processOutgoing_cut ser t.pushed t.sender clk doSend
      maxMessageSize maxMessages h.sending
    have hframe := processOutgoingLoop_frame ser clk doSend maxMessageSize
      (min maxMessages t.sender.outgoing.length) t.sender []
    refine ⟨hframe.2.1.trans h.sequence,h.short,h.numbered,h.distinct,hsend,?_,h.receiving,
      h.reported⟩
    intro message hm
    rcases List.mem_append.mp hm with hm | hm
    · exact h.channel message hm
    · obtain ⟨a,ha,rfl⟩ := List.mem_map.mp hm
      exact hcut a ha
  | updateSender clk doSend maxMessageSize =>
    obtain ⟨_,_,hout⟩ := update_cases t.sender ser clk doSend maxMessageSize
    exact ⟨h.sequence,h.short,h.numbered,h.distinct,fun p hp => h.sending p (hout p hp),
      h.channel,h.receiving,h.reported⟩
  | updateReceiver clk doSend maxMessageSize =>
    obtain ⟨hin,_,_⟩ := update_cases t.receiver ser clk doSend maxMessageSize
    refine ⟨h.sequence,h.short,h.numbered,h.distinct,h.sending,h.channel,?_,?_⟩
    · intro q hq
      rcases hin q hq with hq | ⟨p,hp,rfl⟩
      · exact h.receiving q hq
      · obtain ⟨r,hr,hrec⟩ := h.receiving p hp
        exact ⟨r,hr,receives_touched clk.now hrec⟩
    · intro c hc
      rcases List.mem_append.mp hc with hc | hc
      · obtain ⟨a,_,he⟩ := List.mem_map.mp (List.mem_reverse.mp hc)
        cases he
      · exact h.reported c hc
  | processResend i =>
    simp only [step]
    split
    · exact h
    · rename_i message _
      refine ⟨?_,h.short,h.numbered,h.distinct,?_,h.channel,h.receiving,h.reported⟩
      · obtain ⟨outgoing,he⟩ := processResend_frame t.sender ser message
        rw [he]
        exact h.sequence
      · intro q hq
        rcases mem_processResend hq with hq | ⟨p,hp,bgn,fin,rfl⟩
        · exact h.sending q hq
        · obtain ⟨r,hr,hcar⟩ := h.sending p hp
          exact ⟨r,hr,carries_resend bgn fin hcar⟩
  | processIncoming clk i =>
    simp only [step]
    split
    · exact h
    · rename_i message hget
      refine ⟨h.sequence,h.short,h.numbered,h.distinct,h.sending,h.channel,
        receiving_arrival h clk (List.mem_of_getElem? hget),?_⟩
      intro c hc
      rcases List.mem_cons.mp hc with hc | hc
      · cases hc
      · exact h.reported c hc
  | fetchAll clk =>
    exact inv_handOver h (fun q hq => (mem_fetchAll hq).1) (fun c hc => mem_completions (Or.inl hc))
  | handleComplete clk =>
    exact inv_handOver h (fun q hq => (mem_handleComplete hq).1)
      (fun c hc => mem_completions (Or.inr hc))

/-- Every report of the receiver is faithful to the one block that was pushed
under its id. -/
def Intact (sourceId : EndpointId) (t : Transfer) : Prop :=
  ∀ c, .handedOver c ∈ t.history → Faithful sourceId t.pushed c ∧
    ∀ r ∈ t.pushed, ∀ r' ∈ t.pushed, r.sourceBlobId = c.pending.sourceBlobId →
      r'.sourceBlobId = c.pending.sourceBlobId → r = r'

theorem inv_intact (h : Inv ser sourceId t) : Intact sourceId t :=
  fun c hc => ⟨h.reported c hc,fun r hr r' hr' he he' =>
    unique_block h r hr r' hr' (he.trans he'.symm)⟩

/-- Whatever the channel does, a reported blob is the pushed block. -/
theorem transfer_intact (ser : BlobSerializer) (sourceId : EndpointId)
    (fragmentMsgId resendMsgId prepareMsgId : MessageId) (maxBlobSize : ℕ) (es : List Event)
    (h : StepRun.Steps (step ser sourceId) Admitted
      (start fragmentMsgId resendMsgId prepareMsgId maxBlobSize) es) :
    StepRun.Always (step ser sourceId) (Intact sourceId)
      (start fragmentMsgId resendMsgId prepareMsgId maxBlobSize) es :=
  StepRun.always_mono (fun _ => inv_intact)
    (StepRun.always_of_invariant (fun _ e hi ha => inv_step hi e ha)
      (inv_start fragmentMsgId resendMsgId prepareMsgId maxBlobSize) h)

theorem transfer_intact_reordered :
    StepRun.Always (step sampleSerializer 5) (Intact 5) sampleStart
      (samplePush ++ [.processIncoming sampleClock 1,.processIncoming sampleClock 0,
        .processIncoming sampleClock 1,.fetchAll sampleClock]) ∧
    (reports (StepRun.run (step sampleSerializer 5) sampleStart
      (samplePush ++ [.processIncoming sampleClock 1,.processIncoming sampleClock 0,
        .processIncoming sampleClock 1,.fetchAll sampleClock]))).map handedOver =
      [[10,20,30,40]] :=
  ⟨transfer_intact sampleSerializer 5 (msgbusId .blobFrgmnt) (msgbusId .blobResend)
    (msgbusId .blobPrpare) 100 _ (by decide),by decide⟩

end System

end MsgBus.BlobIntegrity
