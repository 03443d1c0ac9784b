import MsgBus.SampleSerializer
import MsgBus.SharedTargets

/-!
# Streams across servers

A request that loses its server is given to another one, and the new transfer
writes to the stream that the old one has left part-way. The new transfer
counts its own received intervals only, so its merge stores again what the
stream has already. The data that the stream hands on stays in order whatever
is stored; the end of the resource is reached when each stored piece fits.
-/

set_option autoImplicit false

namespace MsgBus.StreamFailover

open BlobManipulator ManipulatorRules IntervalList ByteBlock FragmentMerge BlobStream StreamKept
  SharedTargets

variable {υ : Type}

/-! ## Fragments and the transfers that take them -/

/-- The transfer that takes the fragment, under the ids it then has. -/
def taker (m : BlobManipulator BufferBlobIo TransferIo) (f : IncomingFragment) :
    Option (PendingBlob TransferIo) :=
  match m.findBySource f with
  | some pos => m.incoming[pos]?
  | none =>
    match m.findByTarget f with
    | some pos => m.incoming[pos]?.map (updateExpected f)
    | none => none

/-- The transfer that takes the fragment and the target of its request. -/
def destination (s : ResourceConsumer υ) (f : IncomingFragment) :
    Option (PendingBlob TransferIo × SharedTarget υ) :=
  match taker s.blobs f with
  | none => none
  | some p =>
    if acceptsFragment f p then
      match p.io with
      | .shared i _ => s.targets[i]?.map (fun t => (p,t))
      | .buffer _ => none
    else none

/-- Whoever serves it, a fragment that arrives for a request is a part of the
resource that the request asks for. -/
def ServesPart (content : υ → Block) (s : ResourceConsumer υ) (f : IncomingFragment) : Prop :=
  ∀ d ∈ destination s f, f.totalSize = (content d.2.locator).length ∧ f.fragment ≠ [] ∧
    f.fragment = ((content d.2.locator).drop f.offset).take f.fragment.length

/-- The pieces that the merge of the fragment stores fit into the stream. -/
def MergeFits (clk : Clock) (s : ResourceConsumer υ) (f : IncomingFragment) : Prop :=
  ∀ d ∈ destination s f, ∀ io ∈ streamOf d.2.io, AllFit (refreshed clk f d.1).info io
    (pieces f.offset (f.offset+f.fragment.length) f.fragment d.1.doneParts)

/-- No earlier request had the id that the next one is given. -/
def FreshId (s : ResourceConsumer υ) : Prop :=
  ∀ requestId ∈ s.getRequestId, ∀ t ∈ s.targets, t.io.requestId ≠ requestId

/-- The fragment that comes with the event. -/
def arriving (env : ConsumerEnv υ) : ResourceConsumer.ConsumerEvent υ → Option IncomingFragment
  | .fragment message => readFragment env.serializer message
  | _ => none

def beginsRequest : ResourceConsumer.ConsumerEvent υ → Bool
  | .streamResource _ _ _ => true
  | .fetchResourceChunks _ _ _ _ => true
  | _ => false

def Serves (content : υ → Block) (env : ConsumerEnv υ) (s : ResourceConsumer υ)
    (e : ℕ × ResourceConsumer.ConsumerEvent υ) : Prop :=
  ∀ f ∈ arriving env e.2, ServesPart content s f

def Fitting (env : ConsumerEnv υ) (s : ResourceConsumer υ)
    (e : ℕ × ResourceConsumer.ConsumerEvent υ) : Prop :=
  (∀ f ∈ arriving env e.2, MergeFits ⟨e.1,env.adjustedDuration⟩ s f) ∧
    (beginsRequest e.2 = true → FreshId s)

instance (content : υ → Block) (s : ResourceConsumer υ) (f : IncomingFragment) :
    Decidable (ServesPart content s f) :=
  inferInstanceAs (Decidable (∀ d ∈ destination s f, _ ∧ _ ∧ _))

instance (clk : Clock) (s : ResourceConsumer υ) (f : IncomingFragment) :
    Decidable (MergeFits clk s f) :=
  inferInstanceAs (Decidable (∀ d ∈ destination s f, ∀ io ∈ streamOf d.2.io, AllFit _ _ _))

instance (s : ResourceConsumer υ) : Decidable (FreshId s) :=
  inferInstanceAs (Decidable (∀ requestId ∈ s.getRequestId, ∀ t ∈ s.targets, _ ≠ _))

instance (content : υ → Block) (env : ConsumerEnv υ) (s : ResourceConsumer υ)
    (e : ℕ × ResourceConsumer.ConsumerEvent υ) : Decidable (Serves content env s e) :=
  inferInstanceAs (Decidable (∀ f ∈ arriving env e.2, ServesPart content s f))

instance (env : ConsumerEnv υ) (s : ResourceConsumer υ)
    (e : ℕ × ResourceConsumer.ConsumerEvent υ) : Decidable (Fitting env s e) :=
  inferInstanceAs (Decidable ((∀ f ∈ arriving env e.2,
    MergeFits ⟨e.1,env.adjustedDuration⟩ s f) ∧ (beginsRequest e.2 = true → FreshId s)))

/-- The signals emitted for a request. -/
def emitted (s : ResourceConsumer υ) (requestId : ℕ) : List BlobStreamSignal :=
  (s.targets.filter (fun t => t.io.requestId = requestId)).flatMap (fun t => t.io.signals)

/-- For each request of a stream the signals hand on its resource. -/
def AllStreamed (content : υ → Block) (s : ResourceConsumer υ) : Prop :=
  ∀ t ∈ s.targets, ∀ io, t.io = .stream io →
    Streamed (content t.locator) (emitted s t.io.requestId)

/-! ## The invariant -/

/-- What the transfer counts as received the stream keeps. -/
structure Counts (content : Block) (io : BlobStreamIo) (p : PendingBlob TransferIo) : Prop where
  size : p.info.totalSize = 0 ∧ p.doneParts = [] ∨
    p.info.totalSize = content.length ∧ p.doneParts ≠ []
  kept : covered p.doneParts ⊆ covered (kept io)

structure TransferOk (content : υ → Block) (targets : List (SharedTarget υ))
    (p : PendingBlob TransferIo) : Prop where
  canonical : Canonical p.doneParts
  quiet : p.io.cleared = p.io
  shared : ∀ i calls, p.io = .shared i calls → ∃ t, targets[i]? = some t ∧
    ∀ io, t.io = .stream io → Counts (content t.locator) io p

structure Inv (content : υ → Block) (s : ResourceConsumer υ) : Prop where
  transfers : ∀ p ∈ s.blobs.incoming, TransferOk content s.targets p
  sound : AllSound content s.targets
  requests : ∀ e ∈ s.streamedResources.entries, e.2.resourceIo < s.targets.length
  ids : (s.targets.map (fun t => t.io.requestId)).Nodup

section Invariant

variable {content : υ → Block} {s : ResourceConsumer υ} {p q : PendingBlob TransferIo}
  {targets : List (SharedTarget υ)}

theorem counts_received {io : BlobStreamIo} {data : Block} (ht : Tidy data io)
    (h : Counts data io p) (hr : p.receivedEverything = true) : appended io = data := by
  rw [PendingBlob.receivedEverything] at hr
  rcases h.size with ⟨hz,hn⟩ | ⟨hz,hn⟩
  · rw [hn] at hr
    simp [hz] at hr
  · cases hd : p.doneParts with
    | nil => exact absurd hd hn
    | cons d ds =>
      rw [hd] at hr
      cases ds with
      | nil =>
        obtain ⟨bgn,fin⟩ := d
        simp only [Bool.decide_and, Bool.and_eq_true, decide_eq_true_eq] at hr
        obtain ⟨rfl,_,hfin⟩ := hr
        rw [hz] at hfin
        apply kept_whole ht
        intro x hx
        apply h.kept
        rw [hd]
        exact ⟨_,List.mem_singleton_self _,hx.1,hx.2.trans_le hfin⟩
      | cons _ _ => simp at hr

/-- A transfer with the same received intervals writes to the same target. -/
theorem transferOk_same {targets' : List (SharedTarget υ)} (h : TransferOk content targets p)
    (ha : Advanced content targets targets') (hio : q.io = p.io)
    (hd : q.doneParts = p.doneParts) (hz : q.info.totalSize = p.info.totalSize) :
    TransferOk content targets' q := by
  refine ⟨hd ▸ h.canonical,hio ▸ h.quiet,?_⟩
  intro i calls hq
  obtain ⟨t,ht,hcounts⟩ := h.shared i calls (hio ▸ hq)
  obtain ⟨t',ht',hs⟩ := ha.successor i t ht
  refine ⟨t',ht',?_⟩
  intro io' hio'
  obtain ⟨io,ho,hg⟩ := hs.stream io' hio'
  have hc := hcounts io ho
  rw [hs.locator]
  refine ⟨?_,?_⟩
  · rw [hz, hd]
    exact hc.size
  · rw [hd]
    exact hc.kept.trans hg.kept

theorem noted_quiet (h : p.io.cleared = p.io) : p.io.noted = [] := by
  cases hio : p.io with
  | shared i calls =>
    rw [hio] at h
    obtain rfl : [] = calls := by simpa [TransferIo.cleared] using h
    rfl
  | buffer io => rfl

theorem noted_note {call : TargetCall} {c : ℕ × TargetCall} (h : p.io.cleared = p.io)
    (hc : c ∈ (p.io.note call).noted) : p.io = .shared c.1 [] ∧ c.2 = call := by
  cases hio : p.io with
  | shared i calls =>
    rw [hio] at h hc
    obtain rfl : [] = calls := by simpa [TransferIo.cleared] using h
    obtain rfl : c = (i,call) := by simpa [TransferIo.note, TransferIo.noted] using hc
    exact ⟨rfl,rfl⟩
  | buffer io =>
    rw [hio] at hc
    cases hc

theorem mem_notedCalls {incoming : List (PendingBlob TransferIo)} {dropped : List TransferIo}
    {c : ℕ × TargetCall} : c ∈ notedCalls incoming dropped ↔
      (∃ io ∈ dropped, c ∈ io.noted) ∨ ∃ p ∈ incoming, c ∈ p.io.noted := by
  simp only [notedCalls, List.mem_flatMap, List.mem_append, List.mem_map]
  constructor
  · rintro ⟨io,hio | ⟨p,hp,rfl⟩,hc⟩
    · exact Or.inl ⟨io,hio,hc⟩
    · exact Or.inr ⟨p,hp,hc⟩
  · rintro (⟨io,hio,hc⟩ | ⟨p,hp,hc⟩)
    · exact ⟨io,Or.inl hio,hc⟩
    · exact ⟨p.io,Or.inr ⟨p,hp,rfl⟩,hc⟩

/-- The targets have gone on and no request writes elsewhere. -/
theorem inv_advanced {s' : ResourceConsumer υ} (h : Inv content s)
    (ha : Advanced content s.targets s'.targets) (hs : SameTargets s s')
    (ht : ∀ p ∈ s'.blobs.incoming, TransferOk content s'.targets p) : Inv content s' := by
  refine ⟨ht,advanced_sound ha,?_,?_⟩
  · intro e' he'
    obtain ⟨e,he,hio⟩ := hs e' he'
    rw [ha.length, hio]
    exact h.requests e he
  · rw [advanced_ids ha]
    exact h.ids

/-- Targets and transfers are left as they are. -/
theorem inv_same {s' : ResourceConsumer υ} (h : Inv content s) (ht : s'.targets = s.targets)
    (hb : s'.blobs.incoming = s.blobs.incoming) (hs : SameTargets s s') : Inv content s' := by
  apply inv_advanced h _ hs
  · rw [hb, ht]
    exact h.transfers
  · rw [ht]
    exact advanced_refl h.sound

/-- An operation that stores nothing and tells no stream that it is finished
unless it is. -/
theorem inv_settle (now : ℕ) {blobs : BlobManipulator BufferBlobIo TransferIo}
    {dropped : List TransferIo} (h : Inv content s)
    (hq : ∀ q ∈ blobs.incoming, ∃ p ∈ s.blobs.incoming, q.io.cleared = p.io ∧
      q.doneParts = p.doneParts ∧ q.info.totalSize = p.info.totalSize)
    (hn : ∀ c ∈ notedCalls blobs.incoming dropped, ∀ offs src info, c.2 ≠ .store offs src info)
    (hc : ∀ c ∈ notedCalls blobs.incoming dropped, Admitted content s.targets c) :
    Inv content (s.settle now blobs dropped) := by
  obtain ⟨hts,hin,hsame⟩ := settle_spec now s blobs dropped
  have ha := advanced_calls _ h.sound (notices_admitted _ h.sound hn hc)
  rw [← hts] at ha
  apply inv_advanced h ha hsame
  intro q hm
  rw [hin] at hm
  obtain ⟨r,hr,rfl⟩ := List.mem_map.mp hm
  obtain ⟨p,hp,hio,hd,hz⟩ := hq r hr
  exact transferOk_same (h.transfers p hp) ha hio hd hz

theorem inv_handleComplete (env : ConsumerEnv υ) (now : ℕ) (h : Inv content s) :
    Inv content (s.handleComplete env now) := by
  have hnoted : ∀ c ∈ notedCalls (s.blobs.handleComplete ⟨now,env.adjustedDuration⟩).1.incoming
      ((s.blobs.handleComplete ⟨now,env.adjustedDuration⟩).2.map ResourceConsumer.completionIo),
      ∃ p ∈ s.blobs.incoming, p.receivedEverything = true ∧ p.io = .shared c.1 [] ∧
        ∃ msgId age message info, c.2 = .finished msgId age message info := by
    intro c hc
    rcases mem_notedCalls.mp hc with ⟨io,hio,hc⟩ | ⟨p,hp,hc⟩
    · obtain ⟨done,hdone,rfl⟩ := List.mem_map.mp hio
      obtain ⟨p,hp,rfl⟩ := List.mem_map.mp hdone
      obtain ⟨hmem,hall⟩ := List.mem_filter.mp hp
      obtain ⟨hsh,hcall⟩ := noted_note (h.transfers p hmem).quiet hc
      exact ⟨p,hmem,hall,hsh,_,_,_,_,hcall⟩
    · have hmem := (mem_handleComplete hp).1
      rw [noted_quiet (h.transfers p hmem).quiet] at hc
      cases hc
  refine inv_settle now h ?_ ?_ ?_
  · intro q hq
    have hmem := (mem_handleComplete hq).1
    exact ⟨q,hmem,(h.transfers q hmem).quiet,rfl,rfl⟩
  · intro c hc offs src info he
    obtain ⟨_,_,_,_,_,_,_,_,hcall⟩ := hnoted c hc
    rw [hcall] at he
    cases he
  · intro c hc t ht io hio
    obtain ⟨p,hp,hall,hsh,_,_,_,_,hcall⟩ := hnoted c hc
    obtain ⟨t',ht',hcounts⟩ := (h.transfers p hp).shared _ _ hsh
    rw [ht] at ht'
    obtain rfl := Option.some.inj ht'
    rw [hcall]
    exact counts_received (h.sound t (List.mem_of_getElem? ht) io hio).tidy (hcounts io hio) hall

/-- The transfers that are left note nothing, those that are dropped are
cancelled. -/
theorem inv_cancelled (now : ℕ) {blobs : BlobManipulator BufferBlobIo TransferIo}
    {dropped : List TransferIo} (h : Inv content s)
    (hq : ∀ q ∈ blobs.incoming, ∃ p ∈ s.blobs.incoming, q.io = p.io ∧
      q.doneParts = p.doneParts ∧ q.info.totalSize = p.info.totalSize)
    (hd : ∀ io ∈ dropped, ∃ p ∈ s.blobs.incoming, io = p.io.note .cancelled) :
    Inv content (s.settle now blobs dropped) := by
  have hnoted : ∀ c ∈ notedCalls blobs.incoming dropped, c.2 = .cancelled := by
    intro c hc
    rcases mem_notedCalls.mp hc with ⟨io,hio,hc⟩ | ⟨q,hm,hc⟩
    · obtain ⟨p,hp,rfl⟩ := hd io hio
      exact (noted_note (h.transfers p hp).quiet hc).2
    · obtain ⟨p,hp,hio,_⟩ := hq q hm
      rw [hio, noted_quiet (h.transfers p hp).quiet] at hc
      cases hc
  refine inv_settle now h ?_ ?_ ?_
  · intro q hm
    obtain ⟨p,hp,hio,hparts,hz⟩ := hq q hm
    exact ⟨p,hp,by rw [hio]; exact (h.transfers p hp).quiet,hparts,hz⟩
  · intro c hc offs src info he
    rw [hnoted c hc] at he
    cases he
  · intro c hc t ht io hio
    rw [hnoted c hc]
    trivial

theorem inv_updateBlobs (env : ConsumerEnv υ) (now : ℕ) (h : Inv content s) :
    Inv content (s.updateBlobs env now) := by
  obtain ⟨hq,_,_⟩ := update_cases s.blobs env.serializer ⟨now,env.adjustedDuration⟩ env.doSend
    env.minConnectionDataSize
  have hs : Inv content (s.settle now
      (s.blobs.update env.serializer ⟨now,env.adjustedDuration⟩ env.doSend
        env.minConnectionDataSize).manipulator
      (s.blobs.update env.serializer ⟨now,env.adjustedDuration⟩ env.doSend
        env.minConnectionDataSize).cancelled) := by
    apply inv_cancelled now h
    · intro q hm
      rcases hq q hm with hp | ⟨p,hp,rfl⟩
      · exact ⟨q,hp,rfl,rfl,rfl⟩
      · exact ⟨p,hp,rfl,rfl,rfl⟩
    · intro io hio
      obtain ⟨p,hp,rfl⟩ := List.mem_map.mp hio
      exact ⟨p,(List.mem_filter.mp hp).1,rfl⟩
  exact inv_same hs rfl rfl (sameTargets_refl _)

theorem inv_resourceNotFound (now : ℕ) (message : MessageView) (h : Inv content s) :
    Inv content (s.handleResourceNotFound now message) := by
  rw [ResourceConsumer.handleResourceNotFound, cancelIncoming]
  cases hf : s.blobs.incoming.findIdx?
      (fun pending => pending.targetBlobId = message.sequenceNo) with
  | none =>
    apply inv_cancelled now h
    · exact fun q hq => ⟨q,hq,rfl,rfl,rfl⟩
    · intro io hio
      cases hio
  | some pos =>
    apply inv_cancelled now h
    · exact fun q hq => ⟨q,List.mem_of_mem_eraseIdx hq,rfl,rfl,rfl⟩
    · intro io hio
      obtain ⟨p,hp,rfl⟩ := Option.map_eq_some_iff.mp (Option.mem_toList.mp hio)
      exact ⟨p,List.mem_of_getElem? hp,rfl⟩

theorem preparing_noted (now : ℕ) (progress : ℚ) (hp : p.io.cleared = p.io) :
    ((p.handleTargetPreparing now progress).io = p.io ∨
      (p.handleTargetPreparing now progress).io = p.io.note (.prepared progress)) ∧
    (p.handleTargetPreparing now progress).io.cleared = p.io ∧
    (p.handleTargetPreparing now progress).doneParts = p.doneParts ∧
    (p.handleTargetPreparing now progress).info = p.info := by
  have hc : (p.io.note (.prepared progress)).cleared = p.io := by
    cases hio : p.io with
    | shared i calls =>
      rw [hio] at hp
      exact hp
    | buffer io => rfl
  rw [PendingBlob.handleTargetPreparing]
  split
  · exact ⟨Or.inr rfl,hc,rfl,rfl⟩
  · exact ⟨Or.inl rfl,hp,rfl,rfl⟩

theorem inv_resourcePrepare (env : ConsumerEnv υ) (now : ℕ) (message : MessageView)
    (h : Inv content s) : Inv content (s.handleResourcePrepare env now message) := by
  have hfrom : ∀ q ∈ (s.blobs.processPrepare env.serializer ⟨now,env.adjustedDuration⟩
      message).incoming, ∃ p ∈ s.blobs.incoming,
        (q.io = p.io ∨ ∃ progress, q.io = p.io.note (.prepared progress)) ∧
        q.io.cleared = p.io ∧ q.doneParts = p.doneParts ∧ q.info = p.info := by
    intro q hq
    have hsame : ∀ q ∈ s.blobs.incoming, ∃ p ∈ s.blobs.incoming,
        (q.io = p.io ∨ ∃ progress, q.io = p.io.note (.prepared progress)) ∧
        q.io.cleared = p.io ∧ q.doneParts = p.doneParts ∧ q.info = p.info :=
      fun q hq => ⟨q,hq,Or.inl rfl,(h.transfers q hq).quiet,rfl,rfl⟩
    rw [processPrepare] at hq
    split at hq
    · exact hsame q hq
    · split at hq
      · exact hsame q hq
      · rcases mem_modify hq with hq | ⟨p,hp,rfl⟩
        · exact hsame q hq
        · have hmem := List.mem_of_getElem? hp
          obtain ⟨hio,hc,hd,hi⟩ := preparing_noted now _ (h.transfers p hmem).quiet
          exact ⟨p,hmem,hio.imp id (fun hn => ⟨_,hn⟩),hc,hd,hi⟩
  have hnoted : ∀ c ∈ notedCalls (s.blobs.processPrepare env.serializer
      ⟨now,env.adjustedDuration⟩ message).incoming [], ∃ progress, c.2 = .prepared progress := by
    intro c hc
    rcases mem_notedCalls.mp hc with ⟨io,hio,_⟩ | ⟨q,hm,hc⟩
    · cases hio
    · obtain ⟨p,hp,hio | ⟨progress,hio⟩,_⟩ := hfrom q hm
      · rw [hio, noted_quiet (h.transfers p hp).quiet] at hc
        cases hc
      · rw [hio] at hc
        exact ⟨progress,(noted_note (h.transfers p hp).quiet hc).2⟩
  refine inv_settle now h ?_ ?_ ?_
  · intro q hm
    obtain ⟨p,hp,_,hc,hd,hi⟩ := hfrom q hm
    exact ⟨p,hp,hc,hd,by rw [hi]⟩
  · intro c hc offs src info he
    obtain ⟨_,hcall⟩ := hnoted c hc
    rw [hcall] at he
    cases he
  · intro c hc t ht io hio
    obtain ⟨_,hcall⟩ := hnoted c hc
    rw [hcall]
    trivial

end Invariant

/-! ## The arrival of a fragment -/

section Fragment

variable {content : υ → Block} {s : ResourceConsumer υ} {p q : PendingBlob TransferIo}
  {f : IncomingFragment}

theorem runIo_shared (info : BlobInfo) (i : ℕ) (calls : List TargetCall) (cs : List IoCall) :
    runIo info (TransferIo.shared i calls) cs = .shared i (calls ++ cs.map (callOf info)) := by
  induction cs generalizing calls with
  | nil => simp [runIo]
  | cons c cs ih =>
    have hone : (runCall info (TransferIo.shared i calls) c).2 =
        .shared i (calls ++ [callOf info c]) := by
      cases c <;> rfl
    rw [runIo, hone, ih, List.append_assoc]
    rfl

theorem runIo_buffer (info : BlobInfo) (io : BufferBlobIo) (cs : List IoCall) :
    ∃ io', runIo info (TransferIo.buffer io) cs = .buffer io' := by
  induction cs generalizing io with
  | nil => exact ⟨io,rfl⟩
  | cons c cs ih =>
    cases c with
    | store offs src => exact ih _
    | check offs blk => exact ih _

/-- What a transfer looks like before a fragment is merged into it. -/
structure Takes (f : IncomingFragment) (p q : PendingBlob TransferIo) : Prop where
  io : q.io = p.io
  parts : q.doneParts = p.doneParts
  size : q.info.totalSize = p.info.totalSize ∨
    acceptsFragment f q = true ∧ q.info.totalSize = f.totalSize

theorem takes_expected (h : Awaits f p) : Takes f p (updateExpected f p) := by
  refine ⟨rfl,rfl,Or.inr ⟨?_,rfl⟩⟩
  exact acceptsFragment_iff.mpr ⟨Or.inr rfl,h.1⟩

/-- A fragment goes to its taker, to a new buffer, or nowhere. -/
theorem push_cases (m : BlobManipulator BufferBlobIo TransferIo) (clk : Clock)
    (getIo : TargetIoGetter TransferIo) (f : IncomingFragment)
    (hb : ∀ msgId size io, getIo msgId size = some io → ∃ buf, io = .buffer buf) :
    (∃ pos p q g, m.incoming[pos]? = some p ∧ taker m f = some q ∧ Takes f p q ∧
      g p = mergeInto clk f q ∧
      (m.pushIncomingFragment clk getIo f).incoming = m.incoming.modify pos g) ∨
    (∃ buf, (m.pushIncomingFragment clk getIo f).incoming =
      m.incoming ++ [newIncoming clk f (.buffer buf)]) ∨
    (m.pushIncomingFragment clk getIo f).incoming = m.incoming := by
  rcases pushIncomingFragment_cases m clk getIo f with
    ⟨pos,p,hs,hp,_,he⟩ | ⟨pos,p,hs,ht,hp,ha,he⟩ | ⟨io,_,_,hg,_,he⟩ | ⟨_,_,he⟩
  · refine Or.inl ⟨pos,p,p,_,hp,?_,⟨rfl,rfl,Or.inl rfl⟩,rfl,by rw [he]⟩
    simp only [taker, hs]
    exact hp
  · refine Or.inl ⟨pos,p,updateExpected f p,_,hp,?_,takes_expected ha,rfl,by rw [he]⟩
    simp only [taker, hs, ht, hp, Option.map_some]
  · obtain ⟨buf,rfl⟩ := hb _ _ _ hg
    exact Or.inr (Or.inl ⟨buf,by rw [he]⟩)
  · exact Or.inr (Or.inr (by rw [he]))

theorem noted_modify {l : List (PendingBlob TransferIo)} {pos : ℕ}
    {g : PendingBlob TransferIo → PendingBlob TransferIo} (hp : l[pos]? = some p)
    (h : ∀ q ∈ l, q.io.noted = []) : notedCalls (l.modify pos g) [] = (g p).io.noted := by
  induction l generalizing pos with
  | nil => cases hp
  | cons d l ih =>
    cases pos with
    | zero =>
      obtain rfl : d = p := by simpa using hp
      have hl : (l.map (fun q => q.io)).flatMap TransferIo.noted = [] := by
        rw [List.flatMap_eq_nil_iff]
        intro io hio
        obtain ⟨q,hq,rfl⟩ := List.mem_map.mp hio
        exact h q (List.mem_cons_of_mem _ hq)
      simp [notedCalls, hl]
    | succ pos =>
      have hrest := ih (by simpa using hp) (fun q hq => h q (List.mem_cons_of_mem _ hq))
      simp only [notedCalls, List.nil_append] at hrest ⊢
      rw [List.modify_succ_cons, List.map_cons, List.flatMap_cons, h d (by simp), hrest]
      rfl

theorem destination_shared {t : SharedTarget υ} {i : ℕ} {calls : List TargetCall}
    (hq : taker s.blobs f = some q) (ha : acceptsFragment f q = true)
    (hio : q.io = .shared i calls) (ht : s.targets[i]? = some t) :
    (q,t) ∈ destination s f := by
  simp only [destination, hq, ha, if_true, hio, ht, Option.map_some, Option.mem_def]

/-- The calls of the merge of a fragment. -/
def fragmentCalls (clk : Clock) (f : IncomingFragment) (q : PendingBlob TransferIo) :
    List TargetCall :=
  (mergeCalls f.offset (f.offset+f.fragment.length) f.fragment false q.doneParts).map
    (callOf (refreshed clk f q).info)

theorem mergeAccepted_shared {i : ℕ} (clk : Clock) (hc : Canonical q.doneParts)
    (hio : q.io = .shared i []) :
    (mergeAccepted clk f q).io = .shared i (fragmentCalls clk f q) := by
  have hc' : Canonical (refreshed clk f q).doneParts := hc
  have hs := runIo_shared (refreshed clk f q).info i []
    (mergeCalls f.offset (f.offset+f.fragment.length) f.fragment false q.doneParts)
  rw [List.nil_append] at hs
  rw [mergeAccepted, mergeFragment_eq _ _ _ _ hc']
  change runIo _ q.io _ = _
  rw [hio]
  exact hs

theorem mergeAccepted_buffer {io : BufferBlobIo} (clk : Clock) (f : IncomingFragment)
    (hc : Canonical q.doneParts) (hio : q.io = .buffer io) :
    ∃ io', (mergeAccepted clk f q).io = .buffer io' := by
  have hc' : Canonical (refreshed clk f q).doneParts := hc
  rw [mergeAccepted, mergeFragment_eq _ _ _ _ hc']
  change ∃ io', runIo _ q.io _ = _
  rw [hio]
  exact runIo_buffer _ _ _

section Pieces

variable {data : Block} {io : BlobStreamIo} {clk : Clock}

/-- A merge whose pieces fit makes calls that are admitted. -/
theorem fragmentCalls_ok (hc : Canonical q.doneParts) (hn : f.fragment ≠ [])
    (hs : f.fragment = (data.drop f.offset).take f.fragment.length)
    (hf : AllFit (refreshed clk f q).info io
      (pieces f.offset (f.offset+f.fragment.length) f.fragment q.doneParts)) :
    CallsOk data io (fragmentCalls clk f q) := by
  have hst := stores_mergeCalls f.offset (f.offset+f.fragment.length) f.fragment q.doneParts
    (Nat.le_add_right _ _) hc
  have hslice : Slice data f.offset f.fragment := by
    rw [hs]
    exact slice_of_take _ _ _
  apply fit_callsOk
  · intro d hd
    rw [hst] at hd
    exact ⟨pieces_slice hc hslice hd,pieces_ne_nil hc hn hd⟩
  · rw [hst]
    exact hf

/-- The stream keeps what it kept and the places of the fragment. -/
theorem fragmentCalls_kept (hc : Canonical q.doneParts) (hsound : Sound data io)
    (hok : CallsOk data io (fragmentCalls clk f q))
    (hk : covered q.doneParts ⊆ covered (kept io)) :
    covered (insertInterval f.offset (f.offset+f.fragment.length) q.doneParts) ⊆
      covered (kept (callsIo io (fragmentCalls clk f q))) := by
  have hst := stores_mergeCalls f.offset (f.offset+f.fragment.length) f.fragment q.doneParts
    (Nat.le_add_right _ _) hc
  rw [covered_merge hc, ← hst]
  apply Set.union_subset (hk.trans (callsIo_grown _ hsound hok).kept)
  rintro x ⟨r,hr,hx⟩
  obtain ⟨d,hd,rfl⟩ := List.mem_map.mp hr
  exact callsIo_stored _ hsound hok (mem_stores hd) hx

end Pieces

section Merge

variable {clk : Clock}

/-- The targets after the calls of a merge. -/
def mergedTargets (clk : Clock) (s : ResourceConsumer υ) (f : IncomingFragment)
    (q : PendingBlob TransferIo) : List (SharedTarget υ) :=
  (mergeAccepted clk f q).io.noted.foldl applyCall s.targets

theorem mergedTargets_shared {i : ℕ} (hc : Canonical q.doneParts) (hio : q.io = .shared i []) :
    mergedTargets clk s f q = s.targets.modify i
      (fun t => { t with io := (fragmentCalls clk f q).foldl SharedIo.carryOut t.io }) := by
  rw [mergedTargets, mergeAccepted_shared clk hc hio, TransferIo.noted, applyCalls_one]

/-- The transfer and its target before the merge. -/
structure Merging (content : υ → Block) (clk : Clock) (s : ResourceConsumer υ)
    (f : IncomingFragment) (q : PendingBlob TransferIo) (i : ℕ) (t : SharedTarget υ) : Prop where
  io : q.io = .shared i []
  target : s.targets[i]? = some t
  size : f.totalSize = (content t.locator).length
  counts : ∀ io, t.io = .stream io → Sound (content t.locator) io ∧
    CallsOk (content t.locator) io (fragmentCalls clk f q) ∧
    (q.info.totalSize = 0 ∨ q.info.totalSize = (content t.locator).length) ∧
    covered q.doneParts ⊆ covered (kept io)

theorem merging_of_taker (h : Inv content s) (hp : p ∈ s.blobs.incoming)
    (hq : taker s.blobs f = some q) (ht : Takes f p q) (ha : acceptsFragment f q = true)
    (hserves : ServesPart content s f) (hfits : MergeFits clk s f) :
    (∃ io, q.io = .buffer io) ∨ ∃ i t, Merging content clk s f q i t := by
  have hok := h.transfers p hp
  cases hio : q.io with
  | buffer io => exact Or.inl ⟨io,rfl⟩
  | shared i calls =>
    have hquiet := hok.quiet
    rw [← ht.io, hio] at hquiet
    obtain rfl : [] = calls := by simpa [TransferIo.cleared] using hquiet
    obtain ⟨t,htarget,hcounts⟩ := hok.shared i [] (ht.io.symm.trans hio)
    have hd := destination_shared hq ha hio htarget
    obtain ⟨hsize,hne,hpart⟩ := hserves _ hd
    refine Or.inr ⟨i,t,hio,htarget,hsize,?_⟩
    intro io ho
    have hc : Canonical q.doneParts := by
      rw [ht.parts]
      exact hok.canonical
    have hcount := hcounts io ho
    refine ⟨h.sound t (List.mem_of_getElem? htarget) io ho,?_,?_,?_⟩
    · exact fragmentCalls_ok hc hne hpart (hfits _ hd io (by rw [ho]; rfl))
    · rcases ht.size with hz | ⟨-,hz⟩
      · rw [hz]
        exact hcount.size.imp And.left And.left
      · exact Or.inr (hz.trans hsize)
    · rw [ht.parts]
      exact hcount.kept

theorem merge_advanced {i : ℕ} {t : SharedTarget υ} (hc : Canonical q.doneParts)
    (hs : AllSound content s.targets) (hm : Merging content clk s f q i t) :
    Advanced content s.targets (mergedTargets clk s f q) := by
  rw [mergedTargets_shared hc hm.io]
  apply advanced_modify _ _ hs
  intro t' ht'
  rw [hm.target] at ht'
  obtain rfl := Option.some.inj ht'
  refine ⟨rfl,foldl_requestId _ _,?_⟩
  intro io' hio'
  obtain ⟨io,ho,rfl⟩ := foldl_stream _ hio'
  obtain ⟨hsound,hcalls,-⟩ := hm.counts io ho
  exact ⟨io,ho,callsIo_grown _ hsound hcalls⟩

theorem merge_transfer {i : ℕ} {t : SharedTarget υ} (hc : Canonical q.doneParts)
    (hm : Merging content clk s f q i t) :
    TransferOk content (mergedTargets clk s f q)
      { mergeAccepted clk f q with io := (mergeAccepted clk f q).io.cleared } := by
  have hdone := mergeAccepted_done clk f q hc
  rw [mergedTargets_shared hc hm.io, mergeAccepted_shared clk hc hm.io]
  refine ⟨?_,rfl,?_⟩
  · change Canonical (mergeAccepted clk f q).doneParts
    rw [hdone]
    exact insert_canonical _ _ (Nat.le_add_right _ _) _ hc
  · intro j calls hshared
    obtain ⟨rfl,-⟩ := TransferIo.shared.inj hshared
    refine ⟨_,by rw [List.getElem?_modify_eq, hm.target]; rfl,?_⟩
    intro io' hio'
    obtain ⟨io,ho,rfl⟩ := foldl_stream _ hio'
    obtain ⟨hsound,hcalls,hsize,hkept⟩ := hm.counts io ho
    refine ⟨Or.inr ⟨?_,?_⟩,?_⟩
    · change max q.info.totalSize f.totalSize = _
      rw [hm.size]
      rcases hsize with hz | hz <;> simp [hz]
    · change (mergeAccepted clk f q).doneParts ≠ []
      rw [hdone]
      exact insert_ne_nil _ _ _
    · change covered (mergeAccepted clk f q).doneParts ⊆ _
      rw [hdone]
      exact fragmentCalls_kept hc hsound hcalls hkept

theorem merge_buffer {io : BufferBlobIo} (clk : Clock) (f : IncomingFragment)
    (content : υ → Block) (targets : List (SharedTarget υ)) (hc : Canonical q.doneParts)
    (hio : q.io = .buffer io) :
    (mergeAccepted clk f q).io.noted = [] ∧ TransferOk content targets
      { mergeAccepted clk f q with io := (mergeAccepted clk f q).io.cleared } := by
  have hdone := mergeAccepted_done clk f q hc
  obtain ⟨io',hio'⟩ := mergeAccepted_buffer clk f hc hio
  rw [hio']
  refine ⟨rfl,?_,rfl,fun i calls hshared => by cases hshared⟩
  change Canonical (mergeAccepted clk f q).doneParts
  rw [hdone]
  exact insert_canonical _ _ (Nat.le_add_right _ _) _ hc

/-- The transfer that has taken a fragment, and the targets after its calls. -/
theorem merge_result (h : Inv content s) (hp : p ∈ s.blobs.incoming)
    (hq : taker s.blobs f = some q) (ht : Takes f p q) (ha : acceptsFragment f q = true)
    (hserves : ServesPart content s f) (hfits : MergeFits clk s f) :
    Advanced content s.targets (mergedTargets clk s f q) ∧
    TransferOk content (mergedTargets clk s f q)
      { mergeAccepted clk f q with io := (mergeAccepted clk f q).io.cleared } := by
  have hc : Canonical q.doneParts := by
    rw [ht.parts]
    exact (h.transfers p hp).canonical
  rcases merging_of_taker h hp hq ht ha hserves hfits with ⟨io,hio⟩ | ⟨i,t,hm⟩
  · obtain ⟨hnoted,hok⟩ := merge_buffer clk f content s.targets hc hio
    rw [mergedTargets, hnoted]
    exact ⟨advanced_refl h.sound,hok⟩
  · exact ⟨merge_advanced hc h.sound hm,merge_transfer hc hm⟩

/-- The consumer after a fragment has been merged. -/
theorem inv_merged (now : ℕ) {blobs : BlobManipulator BufferBlobIo TransferIo} {pos : ℕ}
    {g : PendingBlob TransferIo → PendingBlob TransferIo} (h : Inv content s)
    (hp : s.blobs.incoming[pos]? = some p) (hq : taker s.blobs f = some q) (ht : Takes f p q)
    (hg : g p = mergeInto clk f q) (hb : blobs.incoming = s.blobs.incoming.modify pos g)
    (hserves : ServesPart content s f) (hfits : MergeFits clk s f) :
    Inv content (s.settle now blobs []) := by
  have hmem := List.mem_of_getElem? hp
  have hfrom : ∀ r ∈ blobs.incoming, r ∈ s.blobs.incoming ∨ r = g p := by
    intro r hr
    rw [hb] at hr
    rcases mem_modify hr with hr | ⟨a,ha,rfl⟩
    · exact Or.inl hr
    · rw [hp] at ha
      obtain rfl := Option.some.inj ha
      exact Or.inr rfl
  by_cases ha : acceptsFragment f q = true
  · rw [mergeInto, if_pos ha] at hg
    obtain ⟨hadv,hok⟩ := merge_result h hmem hq ht ha hserves hfits
    obtain ⟨hts,hin,hsame⟩ := settle_spec now s blobs []
    rw [hb, noted_modify hp (fun r hr => noted_quiet (h.transfers r hr).quiet), hg] at hts
    change (s.settle now blobs []).targets = mergedTargets clk s f q at hts
    rw [← hts] at hadv hok
    apply inv_advanced h hadv hsame
    intro r hr
    rw [hin] at hr
    obtain ⟨r,hmerged,rfl⟩ := List.mem_map.mp hr
    rcases hfrom r hmerged with hr | rfl
    · exact transferOk_same (h.transfers r hr) hadv (h.transfers r hr).quiet rfl rfl
    · rw [hg]
      exact hok
  · rw [mergeInto, if_neg ha] at hg
    apply inv_cancelled now h
    · intro r hr
      rcases hfrom r hr with hr | rfl
      · exact ⟨r,hr,rfl,rfl,rfl⟩
      · rw [hg]
        exact ⟨p,hmem,ht.io,ht.parts,ht.size.resolve_right (fun hn => ha hn.1)⟩
    · intro io hio
      cases hio

/-- A transfer that nobody asked for touches no target. -/
theorem inv_unasked (now : ℕ) {blobs : BlobManipulator BufferBlobIo TransferIo}
    {buf : BufferBlobIo} (clk : Clock) (h : Inv content s)
    (hb : blobs.incoming = s.blobs.incoming ++ [newIncoming clk f (.buffer buf)]) :
    Inv content (s.settle now blobs []) := by
  have hc : Canonical (createIncoming clk f (TransferIo.buffer buf)).doneParts := canonical_nil
  obtain ⟨io',hio'⟩ : ∃ io', (newIncoming clk f (.buffer buf)).io = TransferIo.buffer io' := by
    rw [newIncoming, mergeFragment_eq _ _ _ _ hc]
    exact runIo_buffer _ _ _
  have hnoted : notedCalls blobs.incoming [] = [] := by
    rw [notedCalls, List.nil_append, List.flatMap_eq_nil_iff, hb]
    intro io hio
    obtain ⟨r,hr,rfl⟩ := List.mem_map.mp hio
    rcases List.mem_append.mp hr with hr | hr
    · exact noted_quiet (h.transfers r hr).quiet
    · rw [List.mem_singleton.mp hr, hio']
      rfl
  obtain ⟨hts,hin,hsame⟩ := settle_spec now s blobs []
  rw [hnoted] at hts
  have hadv : Advanced content s.targets (s.settle now blobs []).targets := by
    rw [hts]
    exact advanced_refl h.sound
  apply inv_advanced h hadv hsame
  intro r hr
  rw [hin] at hr
  obtain ⟨r,hnew,rfl⟩ := List.mem_map.mp hr
  rw [hb] at hnew
  rcases List.mem_append.mp hnew with hr | hr
  · exact transferOk_same (h.transfers r hr) hadv (h.transfers r hr).quiet rfl rfl
  · rw [List.mem_singleton.mp hr, hio']
    refine ⟨?_,rfl,fun i calls hshared => by cases hshared⟩
    change Canonical (newIncoming clk f (TransferIo.buffer buf)).doneParts
    rw [newIncoming_done]
    exact canonical_singleton _ _ (Nat.le_add_right _ _)

theorem inv_settled (now : ℕ) {blobs : BlobManipulator BufferBlobIo TransferIo}
    (h : Inv content s) (hb : blobs.incoming = s.blobs.incoming) :
    Inv content (s.settle now blobs []) := by
  apply inv_cancelled now h
  · rw [hb]
    exact fun q hq => ⟨q,hq,rfl,rfl,rfl⟩
  · intro io hio
    cases hio

theorem inv_resourceFragment (env : ConsumerEnv υ) (now : ℕ) (message : MessageView)
    (h : Inv content s)
    (hserves : ∀ f ∈ readFragment env.serializer message, ServesPart content s f)
    (hfits : ∀ f ∈ readFragment env.serializer message,
      MergeFits ⟨now,env.adjustedDuration⟩ s f) :
    Inv content (s.handleResourceFragment env now message) := by
  rw [ResourceConsumer.handleResourceFragment, processIncoming]
  cases hf : readFragment env.serializer message with
  | none => exact inv_settled now h rfl
  | some f =>
    have hbuf : ∀ msgId size io, s.makeTransferIo msgId size = some io →
        ∃ buf, io = TransferIo.buffer buf := by
      intro msgId size io hio
      obtain ⟨buf,_,rfl⟩ := Option.map_eq_some_iff.mp hio
      exact ⟨buf,rfl⟩
    rcases push_cases s.blobs ⟨now,env.adjustedDuration⟩ s.makeTransferIo f hbuf with
      ⟨pos,p,q,g,hp,hq,ht,hg,hb⟩ | ⟨buf,hb⟩ | hb
    · exact inv_merged now h hp hq ht hg hb (hserves f hf) (hfits f hf)
    · exact inv_unasked now _ h hb
    · exact inv_settled now h hb

end Merge

end Fragment

/-! ## Requests and servers -/

section Request

variable {content : υ → Block} {s : ResourceConsumer υ}

theorem same_mapValues (streams : OrderedMap ℕ (StreamedResourceInfo υ))
    (f : ℕ → StreamedResourceInfo υ → StreamedResourceInfo υ)
    (hf : ∀ k info, (f k info).resourceIo = info.resourceIo) :
    ∀ e' ∈ (streams.mapValues f).entries, ∃ e ∈ streams.entries,
      e'.2.resourceIo = e.2.resourceIo := by
  intro e' he'
  obtain ⟨e,he,rfl⟩ := List.mem_map.mp he'
  exact ⟨e,he,hf e.1 e.2⟩

theorem inv_serverLost (serverId : EndpointId) (h : Inv content s) :
    Inv content (s.handleServerLost serverId) := by
  refine inv_same h rfl rfl (same_mapValues _ _ ?_)
  intro k info
  split_ifs <;> rfl

theorem inv_missing [DecidableEq υ] (serverId : EndpointId) (locator : υ) (h : Inv content s) :
    Inv content (s.handleMissing serverId locator) := by
  refine inv_same h rfl rfl (same_mapValues _ _ ?_)
  intro k info
  split_ifs <;> rfl

theorem inv_subscribed (env : ConsumerEnv υ) (now : ℕ) (endpointId : EndpointId)
    (msgId : MessageId) (h : Inv content s) :
    Inv content (s.handleSubscribed env now endpointId msgId) := by
  rw [ResourceConsumer.handleSubscribed]
  split_ifs
  · cases hk : s.serverEndpoints.contains endpointId
    · exact inv_same h rfl rfl (sameTargets_refl s)
    · exact inv_same h rfl rfl (sameTargets_refl s)
  · exact h

theorem inv_unsubscribed (endpointId : EndpointId) (msgId : MessageId) (h : Inv content s) :
    Inv content (s.handleUnsubscribed endpointId msgId) := by
  rw [ResourceConsumer.handleUnsubscribed]
  split_ifs
  · rw [ResourceConsumer.removeServer]
    split_ifs
    · exact inv_same (inv_serverLost endpointId h) rfl rfl (sameTargets_refl _)
    · exact inv_same h rfl rfl (sameTargets_refl s)
  · exact h

theorem inv_pingTimeout (now : ℕ) (serverId : EndpointId) (h : Inv content s) :
    Inv content (s.handlePingTimeout now serverId) := by
  rw [ResourceConsumer.handlePingTimeout]
  split
  · exact h
  · split_ifs
    · exact inv_serverLost serverId h
    · exact h

/-- A request with a target of its own and an id that no other one has had. -/
theorem inv_queryResource (env : ConsumerEnv υ) (requestId : ℕ) (locator : υ)
    (maxTime : Option ℕ) (priority : Option MessagePriority) {io : SharedIo} (h : Inv content s)
    (hid : io.requestId = requestId) (hf : ∀ t ∈ s.targets, t.io.requestId ≠ requestId)
    (hio : ∀ stream, io = .stream stream → Sound (content locator) stream) :
    Inv content (s.queryResource env requestId locator maxTime priority io) := by
  have hnew : (s.queryResource env requestId locator maxTime priority io).targets =
    s.targets ++ [⟨locator,io⟩] := rfl
  refine ⟨?_,?_,?_,?_⟩
  · intro p hp
    have hok := h.transfers p hp
    refine ⟨hok.canonical,hok.quiet,?_⟩
    intro i calls hsh
    obtain ⟨t,ht,hc⟩ := hok.shared i calls hsh
    refine ⟨t,?_,hc⟩
    rw [hnew, List.getElem?_append_left (List.getElem?_eq_some_iff.mp ht).1]
    exact ht
  · intro t ht
    rw [hnew] at ht
    rcases List.mem_append.mp ht with ht | ht
    · exact h.sound t ht
    · rw [List.mem_singleton.mp ht]
      exact hio
  · intro e he
    rw [hnew, List.length_append]
    rcases OrderedMap.mem_assignIn he with rfl | he
    · simp
    · have := h.requests e he
      simp only [List.length_singleton]
      omega
  · rw [hnew, List.map_append, List.map_singleton]
    apply List.nodup_append.mpr
    refine ⟨h.ids,by simp,?_⟩
    intro a ha b hb
    obtain ⟨t,ht,rfl⟩ := List.mem_map.mp ha
    rw [List.mem_singleton.mp hb, hid]
    exact hf t ht

theorem inv_streamResource (env : ConsumerEnv υ) (locator : υ) (maxTime : Option ℕ)
    (priority : Option MessagePriority) (h : Inv content s) (hf : FreshId s) :
    Inv content (s.streamResource env locator maxTime priority) := by
  rw [ResourceConsumer.streamResource]
  cases hid : s.getRequestId with
  | none => exact h
  | some requestId =>
    refine inv_queryResource env requestId locator maxTime priority h rfl
      (hf requestId hid) ?_
    intro stream hs
    obtain rfl := SharedIo.stream.inj hs
    exact sound_fresh _ _

theorem inv_fetchResourceChunks (env : ConsumerEnv υ) (locator : υ) (maxTime : Option ℕ)
    (priority : Option MessagePriority) (chunkSize : ℕ) (h : Inv content s) (hf : FreshId s) :
    Inv content (s.fetchResourceChunks env locator maxTime priority chunkSize) := by
  rw [ResourceConsumer.fetchResourceChunks]
  cases hid : s.getRequestId with
  | none => exact h
  | some requestId =>
    refine inv_queryResource env requestId locator maxTime priority h rfl
      (hf requestId hid) ?_
    intro stream hs
    cases hs

/-- A transfer that has begun writes to the target of its request. -/
theorem inv_resourceFound [DecidableEq υ] (env : ConsumerEnv υ) (now : ℕ)
    (serverId : EndpointId) (locator : υ) (h : Inv content s) :
    Inv content (s.handleResourceFound env now serverId locator) := by
  rw [ResourceConsumer.handleResourceFound]
  split
  · exact h
  · rename_i requestId info hfind
    have hmem := List.mem_of_find?_eq_some hfind
    rw [ResourceConsumer.queryResourceContent]
    dsimp only
    generalize (if serverId = broadcastEndpointId then s.serverEndpointId env info.locator
      else serverId) = target
    by_cases hser : env.serializable info.locator = true
    · simp only [hser, if_true]
      refine ⟨?_,h.sound,?_,h.ids⟩
      · intro p hp
        rcases List.mem_append.mp hp with hp | hp
        · exact h.transfers p hp
        · rw [List.mem_singleton.mp hp]
          refine ⟨canonical_nil,rfl,?_⟩
          intro i calls hsh
          obtain ⟨rfl,-⟩ := TransferIo.shared.inj hsh
          refine ⟨_,List.getElem?_eq_getElem (h.requests _ hmem),?_⟩
          intro io _
          refine ⟨Or.inl ⟨rfl,rfl⟩,?_⟩
          change covered [] ⊆ _
          rw [covered_nil]
          exact Set.empty_subset _
      · intro e he
        rcases OrderedMap.mem_assignIn he with rfl | he
        · exact h.requests (requestId,info) hmem
        · exact h.requests e he
    · simp only [hser]
      exact h

theorem inv_search (env : ConsumerEnv υ) (now : ℕ) (h : Inv content s) :
    Inv content (s.searchResources env now) := by
  have hserver : ∀ (es : List (EndpointId × ResourceServerInfo)) (locator : υ)
      (s : ResourceConsumer υ), ∃ queries,
      es.foldl (fun s e => s.searchResource env e.1 locator) s = { s with queries } := by
    intro es locator
    induction es with
    | nil => exact fun s => ⟨_,rfl⟩
    | cons e es ih =>
      intro s
      obtain ⟨queries,hq⟩ := ih (s.searchResource env e.1 locator)
      rw [List.foldl_cons, hq, ResourceConsumer.searchResource]
      split_ifs
      · exact ⟨queries,rfl⟩
      · exact ⟨queries,rfl⟩
  have hall : ∀ (es : List (ℕ × StreamedResourceInfo υ)) (s : ResourceConsumer υ), ∃ queries,
      es.foldl (fun s e => s.searchServersFor env now e.2.locator) s = { s with queries } := by
    intro es
    induction es with
    | nil => exact fun s => ⟨_,rfl⟩
    | cons e es ih =>
      intro s
      obtain ⟨queries,hq⟩ := ih (s.searchServersFor env now e.2.locator)
      obtain ⟨queries',hq'⟩ := hserver _ e.2.locator s
      rw [List.foldl_cons, hq, ResourceConsumer.searchServersFor, hq']
      exact ⟨queries,rfl⟩
  obtain ⟨queries,hq⟩ := hall (s.streamedResources.entries.filter
    (fun e => ResourceConsumer.shouldSearchNow now e.2)) s
  rw [ResourceConsumer.searchResources, hq]
  refine inv_same h rfl rfl (same_mapValues _ _ ?_)
  intro k info
  split_ifs <;> rfl

theorem inv_update (env : ConsumerEnv υ) (now : ℕ) (h : Inv content s) :
    Inv content (s.updateAndProcessAll env now) := by
  have hcheck : Inv content (s.checkServers env now) :=
    inv_same h rfl rfl (fun e he => ⟨e,he,rfl⟩)
  have hblobs := inv_updateBlobs env now
    (inv_handleComplete env now (inv_search env now hcheck))
  rw [ResourceConsumer.updateAndProcessAll]
  generalize (((s.checkServers env now).searchResources env now).handleComplete env
    now).updateBlobs env now = s' at hblobs ⊢
  rw [ResourceConsumer.searchForServers]
  split_ifs
  · exact inv_same hblobs rfl rfl (sameTargets_refl s')
  · exact hblobs

theorem processResend_incoming (env : ConsumerEnv υ) (message : MessageView) :
    (s.blobs.processResend env.serializer message).incoming = s.blobs.incoming := by
  rw [processResend]
  split
  · rfl
  · split <;> rfl

theorem inv_step [DecidableEq υ] (env : ConsumerEnv υ)
    (e : ℕ × ResourceConsumer.ConsumerEvent υ) (h : Inv content s)
    (hserves : Serves content env s e) (hfits : Fitting env s e) : Inv content (s.step env e) := by
  obtain ⟨now,event⟩ := e
  cases event with
  | streamResource locator maxTime priority =>
    exact inv_streamResource env locator maxTime priority h (hfits.2 rfl)
  | fetchResourceChunks locator maxTime priority chunkSize =>
    exact inv_fetchResourceChunks env locator maxTime priority chunkSize h (hfits.2 rfl)
  | cancelResourceStream requestId => exact inv_same h rfl rfl (eraseStream_same s requestId)
  | alive endpointId => exact inv_same h rfl rfl (sameTargets_refl s)
  | subscribed endpointId msgId => exact inv_subscribed env now endpointId msgId h
  | unsubscribed endpointId msgId => exact inv_unsubscribed endpointId msgId h
  | hostnameReceived endpointId hostname =>
    rw [ResourceConsumer.step, ResourceConsumer.handleHostnameReceived]
    split_ifs
    · exact inv_same h rfl rfl (sameTargets_refl s)
    · exact h
  | hasResource message =>
    rw [ResourceConsumer.step]
    split
    · exact h
    · exact inv_resourceFound env now message.sourceId _ h
  | hasNotResource message =>
    rw [ResourceConsumer.step]
    split
    · exact h
    · exact inv_missing message.sourceId _ h
  | fragment message => exact inv_resourceFragment env now message h hserves hfits.1
  | resourceNotFound message => exact inv_resourceNotFound now message h
  | resourcePrepare message => exact inv_resourcePrepare env now message h
  | resourceResend message =>
    exact inv_same h rfl (processResend_incoming env message) (sameTargets_refl s)
  | pingResponse serverId => exact inv_same h rfl rfl (sameTargets_refl s)
  | pingTimeout serverId => exact inv_pingTimeout now serverId h
  | update => exact inv_update env now h
  | sequenceNoTaken => exact inv_same h rfl rfl (sameTargets_refl s)

theorem inv_start (content : υ → Block) : Inv content ({} : ResourceConsumer υ) := by
  refine ⟨?_,?_,?_,List.nodup_nil⟩
  · intro p hp
    cases hp
  · intro t ht
    cases ht
  · intro e he
    cases he

/-- Only one target emits for a request. -/
theorem emitted_of_nodup {t : SharedTarget υ} {targets : List (SharedTarget υ)}
    (hn : (targets.map (fun t => t.io.requestId)).Nodup) (ht : t ∈ targets) :
    (targets.filter (fun r => r.io.requestId = t.io.requestId)) = [t] := by
  induction targets with
  | nil => cases ht
  | cons d targets ih =>
    rw [List.map_cons, List.nodup_cons] at hn
    rcases List.mem_cons.mp ht with rfl | ht
    · rw [List.filter_cons_of_pos (by simp)]
      have hnone : targets.filter (fun r => r.io.requestId = t.io.requestId) = [] := by
        rw [List.filter_eq_nil_iff]
        intro r hr he
        exact hn.1 (List.mem_map.mpr ⟨r,hr,of_decide_eq_true he⟩)
      rw [hnone]
    · have hne : d.io.requestId ≠ t.io.requestId :=
        fun he => hn.1 (List.mem_map.mpr ⟨t,ht,he.symm⟩)
      rw [List.filter_cons_of_neg (by simpa using hne)]
      exact ih hn.2 ht

theorem inv_streamed (h : Inv content s) : AllStreamed content s := by
  intro t ht io hio
  have hs := h.sound t ht io hio
  have he : emitted s t.io.requestId = io.signals := by
    rw [emitted, emitted_of_nodup h.ids ht, List.flatMap_singleton, hio]
    rfl
  rw [he]
  refine ⟨?_,hs.tidy.offsets,hs.finished⟩
  change appended io <+: _
  rw [hs.tidy.front]
  exact List.take_prefix _ _

/-- While every piece that is stored fits into its stream and no request gets
the id of an earlier one, each stream hands on its resource from front to end
and finishes with the whole of it. -/
theorem failover_streamed [DecidableEq υ] (content : υ → Block) (env : ConsumerEnv υ)
    (es : List (ℕ × ResourceConsumer.ConsumerEvent υ))
    (h : StepRun.Steps (ResourceConsumer.step env)
      (fun s e => Serves content env s e ∧ Fitting env s e) {} es) :
    StepRun.Always (ResourceConsumer.step env) (AllStreamed content) {} es :=
  StepRun.always_mono (fun _ => inv_streamed)
    (StepRun.always_of_invariant (fun _ e hi hok => inv_step env e hi hok.1 hok.2)
      (inv_start content) h)

def sampleEnv : ConsumerEnv ℕ where
  serializable _ := true
  readLocator blk := blk.head?.map UInt8.toNat
  hasScheme _ _ := false
  host _ := none
  hostId _ := none
  serializer := sampleSerializer
  doSend _ _ _ := true
  adjustedDuration := id
  minConnectionDataSize := 4096
  serverCheckInterval := 3000
  serverResponseTimeout := 60000
  resourceSearchInterval := 3000
  resourceStreamTimeout := 3600000

/-- A fragment of the sample content from a server, sent for a query. -/
def sampleFragment (serverId blobId sequenceNo bgn size : ℕ) :
    ResourceConsumer.ConsumerEvent ℕ :=
  .fragment
    { sourceId := serverId
      data := sampleSerializer.header.encode ⟨resourceContentId.class_,resourceContentId.method,
        blobId,sequenceNo,bgn,sampleContent.length,0⟩ ++ (sampleContent.drop bgn).take size }

/-- The first server is lost after it has sent the front of the content; the
second one sends all of it in two fragments. -/
def failover (front second : ℕ) : List (ℕ × ResourceConsumer.ConsumerEvent ℕ) := [
  (0,.subscribed 5 getContentId),(0,.subscribed 6 getContentId),
  (0,.streamResource 7 none none),(1,.hasResource { sourceId := 5, data := [7] }),
  (2,sampleFragment 5 1 0 0 front),(3,.unsubscribed 5 getContentId),
  (4,.hasResource { sourceId := 6, data := [7] }),(5,sampleFragment 6 1 1 0 second),
  (6,sampleFragment 6 1 1 second 8),(7,.update)]

def sampleChunk (serverId offset size : ℕ) : BlobStreamSignal :=
  .dataAppended ⟨1,offset,[(sampleContent.drop offset).take size],
    { sourceId := serverId, totalSize := sampleContent.length }⟩

/-- The fragments of both servers are cut at the same place. -/
theorem failover_streamed_aligned :
    StepRun.Always (ResourceConsumer.step sampleEnv) (AllStreamed (fun _ => sampleContent)) {}
      (failover 4 4) ∧
    emitted (StepRun.run (ResourceConsumer.step sampleEnv) {} (failover 4 4)) 1 =
      [sampleChunk 5 0 4,sampleChunk 6 4 4,.finished 1] :=
  ⟨failover_streamed (fun _ => sampleContent) sampleEnv (failover 4 4) (by decide),by decide⟩

/-- The stream has all of the content but the end is out of its reach. -/
def stalledStream : BlobStreamIo where
  blobId := 1
  offsDone := 4
  unmerged := ⟨[(0,[10,20,30]),(3,[40,50,60,70,80])],by decide⟩
  signals := [sampleChunk 5 0 4,.finished 1]

theorem failover_stalls :
    ¬ ∀ es, StepRun.Steps (ResourceConsumer.step sampleEnv)
        (fun s e => Serves (fun _ => sampleContent) sampleEnv s e ∧
          (beginsRequest e.2 = true → FreshId s)) {} es →
      StepRun.Always (ResourceConsumer.step sampleEnv) (AllStreamed (fun _ => sampleContent)) {}
        es := by
  intro h
  have hlast := StepRun.always_last (h (failover 4 3) (by decide))
  have htargets : (StepRun.run (ResourceConsumer.step sampleEnv) {} (failover 4 3)).targets =
    [⟨7,.stream stalledStream⟩] := by decide
  have hemitted : emitted (StepRun.run (ResourceConsumer.step sampleEnv) {} (failover 4 3)) 1 =
    [sampleChunk 5 0 4] ++ .finished 1::[] := by decide
  have hs := hlast ⟨7,.stream stalledStream⟩ (by rw [htargets]; simp) stalledStream rfl
  exact absurd (hs.whole _ _ _ hemitted) (by decide)

end Request

end MsgBus.StreamFailover
