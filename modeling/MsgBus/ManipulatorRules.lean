import MsgBus.FragmentMerge
import MsgBus.BlobManipulator

/-!
# What the operations of a manipulator can do

Each operation has one inversion lemma: where the pending blobs of its result
come from, and which messages it offers. The invariants of the later modules
are derived from these and do not unfold the operations again.
-/

set_option autoImplicit false

namespace MsgBus.ManipulatorRules

open BlobManipulator IntervalList

theorem mem_modify {α : Type} {l : List α} {i : ℕ} {f : α → α} {x : α}
    (h : x ∈ l.modify i f) : x ∈ l ∨ ∃ a, l[i]? = some a ∧ x = f a := by
  obtain ⟨j,hj⟩ := List.mem_iff_getElem?.mp h
  rw [List.getElem?_modify] at hj
  cases hl : l[j]? with
  | none => simp [hl] at hj
  | some a =>
    rw [hl] at hj
    by_cases hij : i = j
    · subst hij
      exact Or.inr ⟨a,hl,by simpa using hj.symm⟩
    · have hx : a = x := by simpa [hij] using hj
      exact Or.inl (hx ▸ List.mem_of_getElem? hl)

theorem map_modify {α β : Type} (l : List α) (i : ℕ) (f : α → α) (g : α → β)
    (h : ∀ a, l[i]? = some a → g (f a) = g a) : (l.modify i f).map g = l.map g := by
  apply List.ext_getElem?
  intro j
  rw [List.getElem?_map, List.getElem?_modify, List.getElem?_map]
  cases hl : l[j]? with
  | none => simp
  | some a =>
    by_cases hij : i = j
    · subst hij
      simp [h a hl]
    · simp [hij]

theorem findIdx_some {α : Type} {l : List α} {p : α → Bool} {i : ℕ}
    (h : l.findIdx? p = some i) : ∃ a, l[i]? = some a ∧ p a = true := by
  obtain ⟨hi,hp,_⟩ := List.findIdx?_eq_some_iff_getElem.mp h
  exact ⟨l[i],List.getElem?_eq_getElem hi,hp⟩

variable {ς τ : Type}

abbrev BlobKey := EndpointId × BlobId

def keyOf {ι : Type} (p : PendingBlob ι) : BlobKey := (p.info.sourceId,p.sourceBlobId)

def fragmentKey (f : IncomingFragment) : BlobKey := (f.sourceId,f.sourceBlobId)

section Lookup

variable {m : BlobManipulator ς τ} {f : IncomingFragment} {p : PendingBlob τ}

/-- The ids of the fragment are those of the pending blob. -/
def Owns (f : IncomingFragment) (p : PendingBlob τ) : Prop :=
  p.info.sourceId = f.sourceId ∧ p.sourceBlobId = f.sourceBlobId

/-- The pending blob waits for a fragment of this kind from this source. -/
def Awaits (f : IncomingFragment) (p : PendingBlob τ) : Prop :=
  p.msgId = f.msgId ∧ p.targetBlobId = f.targetBlobId ∧
    (p.info.sourceId = f.sourceId ∨ p.info.sourceId = broadcastEndpointId)

theorem owns_iff : Owns f p ↔ keyOf p = fragmentKey f := by
  simp [Owns, keyOf, fragmentKey]

theorem findBySource_some {pos : ℕ} (h : m.findBySource f = some pos) :
    ∃ p, m.incoming[pos]? = some p ∧ Owns f p := by
  obtain ⟨p,hp,ho⟩ := findIdx_some h
  exact ⟨p,hp,by simpa [Owns] using ho⟩

theorem findBySource_none (h : m.findBySource f = none) : ∀ p ∈ m.incoming, ¬ Owns f p := by
  intro p hp ho
  have hn := List.findIdx?_eq_none_iff.mp h p hp
  simp only [decide_eq_false_iff_not] at hn
  exact hn ho

theorem findByTarget_some {pos : ℕ} (h : m.findByTarget f = some pos) :
    ∃ p, m.incoming[pos]? = some p ∧ Awaits f p := by
  obtain ⟨p,hp,ha⟩ := findIdx_some h
  exact ⟨p,hp,by simpa [Awaits] using ha⟩

theorem acceptsFragment_iff : acceptsFragment f p = true ↔
    (p.info.totalSize = 0 ∨ p.info.totalSize = f.totalSize) ∧ p.msgId = f.msgId := by
  simp only [acceptsFragment, PendingBlob.totalSizeMismatch, Bool.and_eq_true,
    Bool.not_eq_true', decide_eq_false_iff_not, decide_eq_true_eq]
  tauto

theorem requestResends_mem (m : BlobManipulator ς τ) (ser : BlobSerializer) (clk : Clock)
    (doSend : SendHandler) (maxMessageSize : ℕ) (ps : List (PendingBlob τ))
    (log : List SendAttempt) :
    (∀ q ∈ (m.requestResends ser clk doSend maxMessageSize ps log).1,
      q ∈ ps ∨ ∃ p ∈ ps, q = { p with latestUpdate := clk.now }) ∧
    (∀ a ∈ (m.requestResends ser clk doSend maxMessageSize ps log).2, a ∈ log ∨
      ∃ p ∈ ps, shouldRequestResend p clk.now = true ∧ a.msgId = m.resendMsgId ∧
        a.message = resendRequest ser p maxMessageSize) := by
  induction ps generalizing log with
  | nil => simp [requestResends]
  | cons p ps ih =>
    by_cases hr : shouldRequestResend p clk.now
    · simp only [requestResends, if_pos hr]
      obtain ⟨hq,ha⟩ := ih (offer doSend log m.resendMsgId (resendRequest ser p maxMessageSize))
      constructor
      · intro q h
        rcases List.mem_cons.mp h with rfl | h
        · exact Or.inr ⟨p,by simp,rfl⟩
        · rcases hq q h with h | ⟨r,hr,rfl⟩
          · exact Or.inl (by simp [h])
          · exact Or.inr ⟨r,by simp [hr],rfl⟩
      · intro a h
        rcases ha a h with h | ⟨r,hrm,h⟩
        · rcases List.mem_append.mp h with h | h
          · exact Or.inl h
          · obtain rfl := List.mem_singleton.mp h
            exact Or.inr ⟨p,by simp,hr,rfl,rfl⟩
        · exact Or.inr ⟨r,by simp [hrm],h⟩
    · simp only [requestResends, if_neg hr]
      obtain ⟨hq,ha⟩ := ih log
      constructor
      · intro q h
        rcases List.mem_cons.mp h with rfl | h
        · exact Or.inl (by simp)
        · rcases hq q h with h | ⟨r,hr,rfl⟩
          · exact Or.inl (by simp [h])
          · exact Or.inr ⟨r,by simp [hr],rfl⟩
      · intro a h
        rcases ha a h with h | ⟨r,hrm,h⟩
        · exact Or.inl h
        · exact Or.inr ⟨r,by simp [hrm],h⟩

theorem mergeResendRequest_parts {ι : Type} (p : PendingBlob ι) (bgn fin : ℕ) :
    ∃ parts, p.mergeResendRequest bgn fin = { p with fragmentParts := parts } := by
  by_cases h : bgn < if fin = 0 then p.info.totalSize else fin
  · exact ⟨_,if_pos h⟩
  · exact ⟨_,if_neg h⟩

theorem mem_processResend {m : BlobManipulator ς τ} {ser : BlobSerializer}
    {message : MessageView} {q : PendingBlob ς}
    (hq : q ∈ (m.processResend ser message).outgoing) :
    q ∈ m.outgoing ∨ ∃ p ∈ m.outgoing, ∃ bgn fin, q = p.mergeResendRequest bgn fin := by
  rw [processResend] at hq
  split at hq
  · exact Or.inl hq
  · split at hq
    · exact Or.inl hq
    · rcases mem_modify hq with h | ⟨p,hp,rfl⟩
      · exact Or.inl h
      · exact Or.inr ⟨p,List.mem_of_getElem? hp,_,_,rfl⟩

theorem processResend_frame (m : BlobManipulator ς τ) (ser : BlobSerializer)
    (message : MessageView) : ∃ outgoing, m.processResend ser message = { m with outgoing } := by
  rw [processResend]
  split
  · exact ⟨_,rfl⟩
  · split <;> exact ⟨_,rfl⟩

end Lookup

section Incoming

variable [TargetBlobIo τ] {m : BlobManipulator ς τ} {clk : Clock} {getIo : TargetIoGetter τ}
  {f : IncomingFragment} {q : PendingBlob τ}

/-- Where a pushed fragment goes: to the blob that owns it, else to one that
awaits it, else to a new one, else nowhere. -/
theorem pushIncomingFragment_cases (m : BlobManipulator ς τ) (clk : Clock)
    (getIo : TargetIoGetter τ) (f : IncomingFragment) :
    (∃ pos p, m.findBySource f = some pos ∧ m.incoming[pos]? = some p ∧ Owns f p ∧
      m.pushIncomingFragment clk getIo f =
        { m with incoming := m.incoming.modify pos (mergeInto clk f) }) ∨
    (∃ pos p, m.findBySource f = none ∧ m.findByTarget f = some pos ∧
      m.incoming[pos]? = some p ∧ Awaits f p ∧
      m.pushIncomingFragment clk getIo f = { m with
        incoming := m.incoming.modify pos (fun p => mergeInto clk f (updateExpected f p)) }) ∨
    (∃ io, m.findBySource f = none ∧ m.findByTarget f = none ∧
      getIo f.msgId f.totalSize = some io ∧ f.sourceId ≠ broadcastEndpointId ∧
      m.pushIncomingFragment clk getIo f =
        { m with incoming := m.incoming ++ [newIncoming clk f io] }) ∨
    (m.findBySource f = none ∧ m.findByTarget f = none ∧
      m.pushIncomingFragment clk getIo f = m) := by
  cases hs : m.findBySource f with
  | some pos =>
    obtain ⟨p,hp,ho⟩ := findBySource_some hs
    exact Or.inl ⟨pos,p,rfl,hp,ho,by simp only [pushIncomingFragment, hs]⟩
  | none =>
    refine Or.inr ?_
    cases ht : m.findByTarget f with
    | some pos =>
      obtain ⟨p,hp,ha⟩ := findByTarget_some ht
      exact Or.inl ⟨pos,p,rfl,rfl,hp,ha,by simp only [pushIncomingFragment, hs, ht]⟩
    | none =>
      refine Or.inr ?_
      by_cases hb : f.sourceId ≠ broadcastEndpointId
      · cases hg : getIo f.msgId f.totalSize with
        | some io =>
          exact Or.inl ⟨io,rfl,rfl,rfl,hb,by
            simp only [pushIncomingFragment, hs, ht, if_pos hb, hg]⟩
        | none =>
          exact Or.inr ⟨rfl,rfl,by simp only [pushIncomingFragment, hs, ht, if_pos hb, hg]⟩
      · exact Or.inr ⟨rfl,rfl,by simp only [pushIncomingFragment, hs, ht, if_neg hb]⟩

theorem pushIncomingFragment_frame (m : BlobManipulator ς τ) (clk : Clock)
    (getIo : TargetIoGetter τ) (f : IncomingFragment) :
    ∃ incoming, m.pushIncomingFragment clk getIo f = { m with incoming } := by
  rcases pushIncomingFragment_cases m clk getIo f with
    ⟨_,_,_,_,_,he⟩ | ⟨_,_,_,_,_,_,he⟩ | ⟨_,_,_,_,_,he⟩ | ⟨_,_,he⟩
  all_goals exact ⟨_,he⟩

theorem mem_pushIncomingFragment (hq : q ∈ (m.pushIncomingFragment clk getIo f).incoming) :
    q ∈ m.incoming ∨
    (∃ p ∈ m.incoming, Owns f p ∧ q = mergeInto clk f p) ∨
    (∃ p ∈ m.incoming, (∀ r ∈ m.incoming, ¬ Owns f r) ∧ Awaits f p ∧
      q = mergeInto clk f (updateExpected f p)) ∨
    (∃ io, getIo f.msgId f.totalSize = some io ∧ f.sourceId ≠ broadcastEndpointId ∧
      q = newIncoming clk f io) := by
  rcases pushIncomingFragment_cases m clk getIo f with
    ⟨pos,p,_,hp,ho,he⟩ | ⟨pos,p,hn,_,hp,ha,he⟩ | ⟨io,_,_,hg,hb,he⟩ | ⟨_,_,he⟩
  all_goals rw [he] at hq
  · rcases mem_modify hq with h | ⟨a,ha,rfl⟩
    · exact Or.inl h
    · obtain rfl := Option.some.inj (hp.symm.trans ha)
      exact Or.inr (Or.inl ⟨p,List.mem_of_getElem? hp,ho,rfl⟩)
  · rcases mem_modify hq with h | ⟨a,hpa,rfl⟩
    · exact Or.inl h
    · obtain rfl := Option.some.inj (hp.symm.trans hpa)
      exact Or.inr (Or.inr (Or.inl
        ⟨p,List.mem_of_getElem? hp,findBySource_none hn,ha,rfl⟩))
  · rcases List.mem_append.mp hq with h | h
    · exact Or.inl h
    · exact Or.inr (Or.inr (Or.inr ⟨io,hg,hb,List.mem_singleton.mp h⟩))
  · exact Or.inl hq

@[simp] theorem mergeAccepted_ids (clk : Clock) (f : IncomingFragment) (p : PendingBlob τ) :
    (mergeAccepted clk f p).msgId = p.msgId ∧
    (mergeAccepted clk f p).info.sourceId = p.info.sourceId ∧
    (mergeAccepted clk f p).sourceBlobId = p.sourceBlobId ∧
    (mergeAccepted clk f p).targetBlobId = p.targetBlobId ∧
    (mergeAccepted clk f p).info.totalSize = max p.info.totalSize f.totalSize :=
  ⟨rfl,rfl,rfl,rfl,rfl⟩

theorem mergeFragment_done (p : PendingBlob τ) (now bgn : ℕ) (fragment : Block)
    (hc : Canonical p.doneParts) :
    (p.mergeFragment now bgn fragment).2.doneParts =
      insertInterval bgn (bgn+fragment.length) p.doneParts := by
  rw [FragmentMerge.mergeFragment_eq p now bgn fragment hc]
  rfl

theorem mergeAccepted_done (clk : Clock) (f : IncomingFragment) (p : PendingBlob τ)
    (hc : Canonical p.doneParts) :
    (mergeAccepted clk f p).doneParts =
      insertInterval f.offset (f.offset+f.fragment.length) p.doneParts :=
  mergeFragment_done (refreshed clk f p) clk.now f.offset f.fragment hc

theorem newIncoming_done (clk : Clock) (f : IncomingFragment) (io : τ) :
    (newIncoming clk f io).doneParts = [(f.offset,f.offset+f.fragment.length)] :=
  mergeFragment_done (createIncoming clk f io) clk.now f.offset f.fragment canonical_nil

/-- An update keeps a pending blob, or only notes the time of its request;
every message it offers requests a part of a pending blob. -/
theorem update_cases [SourceBlobIo ς] (m : BlobManipulator ς τ) (ser : BlobSerializer)
    (clk : Clock) (doSend : SendHandler) (maxMessageSize : ℕ) :
    (∀ q ∈ (m.update ser clk doSend maxMessageSize).manipulator.incoming,
      q ∈ m.incoming ∨ ∃ p ∈ m.incoming, q = { p with latestUpdate := clk.now }) ∧
    (∀ a ∈ (m.update ser clk doSend maxMessageSize).sends,
      ∃ p ∈ m.incoming, shouldRequestResend p clk.now = true ∧ a.msgId = m.resendMsgId ∧
        a.message = resendRequest ser p maxMessageSize) ∧
    (∀ q ∈ (m.update ser clk doSend maxMessageSize).manipulator.outgoing, q ∈ m.outgoing) := by
  obtain ⟨hq,ha⟩ := requestResends_mem (((m.cleanupOutgoing clk).cleanupIncoming clk).1) ser clk
    doSend maxMessageSize (((m.cleanupOutgoing clk).cleanupIncoming clk).1).incoming []
  have hsub : ∀ p ∈ (((m.cleanupOutgoing clk).cleanupIncoming clk).1).incoming,
      p ∈ m.incoming := fun p hp => (List.mem_filter.mp hp).1
  refine ⟨?_,?_,fun q h => (List.mem_filter.mp h).1⟩
  · intro q h
    rcases hq q h with h | ⟨p,hp,rfl⟩
    · exact Or.inl (hsub q h)
    · exact Or.inr ⟨p,hsub p hp,rfl⟩
  · intro a h
    rcases ha a h with h | ⟨p,hp,h⟩
    · simp at h
    · exact ⟨p,hsub p hp,h⟩

theorem mem_handleComplete (hq : q ∈ (m.handleComplete clk).1.incoming) :
    q ∈ m.incoming ∧ q.receivedEverything = false := by
  simpa [handleComplete] using hq

theorem mem_fetchAll (hq : q ∈ (m.fetchAll clk).1.incoming) :
    q ∈ m.incoming ∧ q.receivedEverything = false := by
  simpa [fetchAll] using hq

end Incoming

section Buffer

variable (m : BlobManipulator BufferBlobIo τ) (ser : BlobSerializer) (clk : Clock)
  (doSend : SendHandler) (maxMessageSize : ℕ) (p : PendingBlob BufferBlobIo)
  (log : List SendAttempt)

/-- The bytes a turn of the sending loop cuts at the last part to do. -/
def cut (bgn : ℕ) : Block :=
  (p.io.buf.drop bgn).take
    (messageSize p maxMessageSize-(ser.header.encode (fragmentHeader p bgn)).length)

theorem prepare_buffer (now : ℕ) :
    p.prepare now = (.finished,{ p with prepareProgress := 1 }) := rfl

theorem processOne_buffer : m.processOne ser clk doSend maxMessageSize p log =
    if p.sentEverything then ({ p with prepareProgress := 1 },log)
    else m.processFinishedOutgoing ser clk doSend maxMessageSize
      { p with prepareProgress := 1 } log := by
  have hs : PendingBlob.sentEverything { p with prepareProgress := 1 } = p.sentEverything := rfl
  have hf : BlobPreparationResult.finished.hasFinished = true := rfl
  have hw : BlobPreparationResult.finished.isWorking = false := rfl
  simp only [processOne, prepare_buffer, hs, hf, hw]
  cases p.sentEverything <;> rfl

/-- A turn of the sending loop on a buffer offers nothing and keeps the parts
to do, or offers what it cuts at the last part and advances that part. -/
theorem processOne_cases :
    (∃ q, m.processOne ser clk doSend maxMessageSize p log = (q,log) ∧
      q = { p with prepareProgress := q.prepareProgress, lingerTime := q.lingerTime }) ∨
    ∃ front bgn fin q, p.todoParts = front ++ [(bgn,fin)] ∧ cut ser maxMessageSize p bgn ≠ [] ∧
      m.processOne ser clk doSend maxMessageSize p log =
        (q,offer doSend log m.fragmentMsgId
          (fragmentMessage ser p bgn (cut ser maxMessageSize p bgn))) ∧
      q = { p.withTodo (advanceTodo p.todoParts (bgn+(cut ser maxMessageSize p bgn).length) fin)
        with prepareProgress := q.prepareProgress, lingerTime := q.lingerTime } := by
  rw [processOne_buffer]
  by_cases hsent : p.sentEverything = true
  · rw [if_pos hsent]
    exact Or.inl ⟨_,rfl,rfl⟩
  rw [if_neg hsent, processFinishedOutgoing]
  cases hlast : p.todoParts.getLast? with
  | none =>
    have ht : PendingBlob.todoParts { p with prepareProgress := 1 } = p.todoParts := rfl
    rw [ht, hlast]
    exact Or.inl ⟨_,rfl,rfl⟩
  | some part =>
    obtain ⟨bgn,fin⟩ := part
    obtain ⟨front,hfront⟩ := List.getLast?_eq_some_iff.mp hlast
    have ht : PendingBlob.todoParts { p with prepareProgress := 1 } = p.todoParts := rfl
    rw [ht, hlast]
    dsimp only
    split_ifs with hsize hcut
    · exact Or.inr ⟨front,bgn,fin,_,hfront,hcut,rfl,rfl⟩
    · exact Or.inl ⟨_,rfl,rfl⟩
    · exact Or.inl ⟨_,rfl,rfl⟩

end Buffer

section Outgoing

variable [SourceBlobIo ς]

/-- A turn of the sending loop that keeps a relation between each blob and
the messages offered so far keeps it throughout the loop. -/
theorem processOutgoingLoop_rule (rel : PendingBlob ς → List SendAttempt → Prop)
    (sent : List SendAttempt → Prop) (ser : BlobSerializer) (clk : Clock)
    (doSend : SendHandler) (maxMessageSize : ℕ) (m₀ : BlobManipulator ς τ)
    (hone : ∀ (m : BlobManipulator ς τ) p log, m.fragmentMsgId = m₀.fragmentMsgId →
      m.prepareMsgId = m₀.prepareMsgId → sent log → rel p log →
      rel (m.processOne ser clk doSend maxMessageSize p log).1
        (m.processOne ser clk doSend maxMessageSize p log).2 ∧
      sent (m.processOne ser clk doSend maxMessageSize p log).2 ∧
      ∀ q, rel q log → rel q (m.processOne ser clk doSend maxMessageSize p log).2)
    (n : ℕ) (m : BlobManipulator ς τ) (log : List SendAttempt)
    (hf : m.fragmentMsgId = m₀.fragmentMsgId) (hp : m.prepareMsgId = m₀.prepareMsgId)
    (hl : sent log) (h : ∀ p ∈ m.outgoing, rel p log) :
    (∀ p ∈ (processOutgoingLoop ser clk doSend maxMessageSize n m log).1.outgoing,
      rel p (processOutgoingLoop ser clk doSend maxMessageSize n m log).2) ∧
    sent (processOutgoingLoop ser clk doSend maxMessageSize n m log).2 := by
  induction n generalizing m log with
  | zero => exact ⟨h,hl⟩
  | succ n ih =>
    simp only [processOutgoingLoop]
    split
    · exact ih _ log hf hp hl h
    · rename_i pending hget
      have hr := hone { m with outgoingIndex := m.outgoingIndex+1 } pending log hf hp hl
        (h pending (List.mem_of_getElem? hget))
      refine ih _ _ hf hp hr.2.1 ?_
      intro p hp
      rcases List.mem_or_eq_of_mem_set hp with hp | rfl
      · exact hr.2.2 p (h p hp)
      · exact hr.1

theorem processOutgoingLoop_frame (ser : BlobSerializer) (clk : Clock) (doSend : SendHandler)
    (maxMessageSize n : ℕ) (m : BlobManipulator ς τ) (log : List SendAttempt) :
    let r := (processOutgoingLoop ser clk doSend maxMessageSize n m log).1
    r.incoming = m.incoming ∧ r.blobIdSequence = m.blobIdSequence ∧
      r.fragmentMsgId = m.fragmentMsgId ∧ r.maxBlobSize = m.maxBlobSize ∧
      r.resendMsgId = m.resendMsgId ∧ r.prepareMsgId = m.prepareMsgId ∧
      r.outgoing.length = m.outgoing.length := by
  induction n generalizing m log with
  | zero => simp [processOutgoingLoop]
  | succ n ih =>
    simp only [processOutgoingLoop]
    split
    · exact ih _ log
    · obtain ⟨h1,h2,h3,h4,h5,h6,h7⟩ := ih _ _
      exact ⟨h1,h2,h3,h4,h5,h6,by rw [h7, List.length_set]⟩

end Outgoing

end MsgBus.ManipulatorRules
