import Mathlib.Data.List.Nodup
import MsgBus.BlobIntegrity

/-!
# How often a blob is handed over

The manipulator keeps no record of a blob once it is complete. A copy of a
fragment that arrives later starts the blob anew, so the blob can be handed
over again, but only after all of it has arrived again. The history decides
this: what arrived since the last hand over justifies the next one, and it
justifies each resend request.
-/

set_option autoImplicit false

namespace MsgBus.BlobDelivery

open IntervalList FragmentMerge BlobManipulator ManipulatorRules BlobTransfer BlobIntegrity

def fragmentPart (f : IncomingFragment) : Part := (f.offset,f.offset+f.fragment.length)

/-- The part of the blob that the message brings. -/
def broughtPart (ser : BlobSerializer) (key : BlobKey) (message : MessageView) : List Part :=
  match readFragment ser message with
  | none => []
  | some f => if fragmentKey f = key then [fragmentPart f] else []

/-- The message requests a part of the blob. -/
def Requests (ser : BlobSerializer) (key : BlobKey) (message : MessageView) : Prop :=
  message.targetId = key.1 ∧
    ∃ part rest, ser.resend.decode message.data = some ((key.2,part),rest)

/-- The parts of the blob that arrived since it was last handed over. -/
def arrivedSince (ser : BlobSerializer) (key : BlobKey) : List Happening → List Part
  | [] => []
  | .arrived message::older => broughtPart ser key message ++ arrivedSince ser key older
  | .handedOver c::older => if keyOf c.pending = key then [] else arrivedSince ser key older
  | .requested _::older => arrivedSince ser key older

/-- A hand over needs the whole blob to have arrived since the one before, a
request needs some of it. -/
def Justified (ser : BlobSerializer) (older : List Happening) : Happening → Prop
  | .arrived _ => True
  | .handedOver c => 0 < c.pending.info.totalSize ∧
      Set.Ico 0 c.pending.info.totalSize ⊆ covered (arrivedSince ser (keyOf c.pending) older)
  | .requested message => ∀ key, Requests ser key message → arrivedSince ser key older ≠ []

def Orderly (ser : BlobSerializer) : List Happening → Prop
  | [] => True
  | e::older => Justified ser older e ∧ Orderly ser older

theorem orderly_append {ser : BlobSerializer} {newer older : List Happening}
    (h : Orderly ser (newer++older)) : Orderly ser older := by
  induction newer with
  | nil => exact h
  | cons e newer ih => exact ih h.2

/-- Without an arrival since the hand over of a blob, nothing of it counts as
arrived. -/
theorem arrivedSince_handedOver {ser : BlobSerializer} {c : Completion Received}
    {newer older : List Happening}
    (h : ∀ message, .arrived message ∈ newer → broughtPart ser (keyOf c.pending) message = []) :
    arrivedSince ser (keyOf c.pending) (newer ++ .handedOver c::older) = [] := by
  induction newer with
  | nil => simp [arrivedSince]
  | cons e newer ih =>
    have hi := ih (fun message hm => h message (List.mem_cons_of_mem _ hm))
    cases e with
    | arrived message => simp [arrivedSince, h message (by simp), hi]
    | handedOver c' => simp [arrivedSince, hi]
    | requested message => simpa [arrivedSince] using hi

/-- A blob of which nothing arrives after its hand over is not handed over
again, and no part of it is requested. -/
theorem orderly_once {ser : BlobSerializer} {c : Completion Received}
    {newer older : List Happening} (ho : Orderly ser (newer ++ .handedOver c::older))
    (h : ∀ message, .arrived message ∈ newer → broughtPart ser (keyOf c.pending) message = []) :
    (∀ c', .handedOver c' ∈ newer → keyOf c'.pending ≠ keyOf c.pending) ∧
    ∀ message, .requested message ∈ newer → ¬ Requests ser (keyOf c.pending) message := by
  constructor
  · intro c' hc' hk
    obtain ⟨front,back,rfl⟩ := List.append_of_mem hc'
    rw [List.append_assoc] at ho
    obtain ⟨⟨hpos,hcov⟩,_⟩ := orderly_append ho
    have hnone : arrivedSince ser (keyOf c.pending) (back ++ .handedOver c::older) = [] :=
      arrivedSince_handedOver (fun message hm => h message (by simp [hm]))
    change Set.Ico 0 _ ⊆ covered (arrivedSince ser (keyOf c'.pending)
      (back ++ .handedOver c::older)) at hcov
    rw [hk, hnone] at hcov
    obtain ⟨_,hp,_⟩ := hcov ⟨le_rfl,hpos⟩
    simp at hp
  · intro message hm hreq
    obtain ⟨front,back,rfl⟩ := List.append_of_mem hm
    rw [List.append_assoc] at ho
    obtain ⟨hj,_⟩ := orderly_append ho
    exact hj _ hreq (arrivedSince_handedOver (fun message hm => h message (by simp [hm])))

/-- The receiver holds each blob once, and what it holds of it arrived since
the last hand over. -/
structure Tracked (ser : BlobSerializer) (t : Transfer) : Prop where
  nodup : (t.receiver.incoming.map keyOf).Nodup
  recent : ∀ p ∈ t.receiver.incoming,
    covered p.doneParts ⊆ covered (arrivedSince ser (keyOf p) t.history) ∧
    arrivedSince ser (keyOf p) t.history ≠ []
  orderly : Orderly ser t.history

section Steps

variable {ser : BlobSerializer} {sourceId : EndpointId} {t : Transfer}

theorem broughtPart_read {message : MessageView} {f : IncomingFragment}
    (h : readFragment ser message = some f) (key : BlobKey) :
    broughtPart ser key message = if fragmentKey f = key then [fragmentPart f] else [] := by
  rw [broughtPart, h]

theorem tracked_arrival (hi : Inv ser sourceId t) (h : Tracked ser t) (clk : Clock)
    {message : MessageView} (hm : message ∈ t.fragments) :
    Tracked ser { t with
      receiver := (t.receiver.processIncoming ser clk (getIo t.receiver) message).2
      history := .arrived message::t.history } := by
  obtain ⟨r,hr,f,hf,hcut,hcase⟩ := arrival_cases hi clk hm
  have hsup : ∀ key, covered (arrivedSince ser key (.arrived message::t.history)) =
      covered (broughtPart ser key message) ∪ covered (arrivedSince ser key t.history) :=
    fun key => covered_append _ _
  have hkept : ∀ p ∈ t.receiver.incoming,
      covered p.doneParts ⊆ covered (arrivedSince ser (keyOf p) (.arrived message::t.history)) ∧
      arrivedSince ser (keyOf p) (.arrived message::t.history) ≠ [] := by
    intro p hp
    obtain ⟨hc,hne⟩ := h.recent p hp
    rw [hsup]
    exact ⟨hc.trans Set.subset_union_right,by simp [arrivedSince, hne]⟩
  rcases hcase with ⟨pos,p,hp,ho,hrec,he⟩ | ⟨hn,he⟩ | he
  · have hkey : ∀ a, t.receiver.incoming[pos]? = some a → keyOf (mergeInto clk f a) = keyOf a := by
      intro a _
      rw [mergeInto]
      split <;> rfl
    have hbrought : broughtPart ser (keyOf p) message = [fragmentPart f] := by
      rw [broughtPart_read hf, if_pos (by simp [fragmentKey, keyOf, ho.1, ho.2])]
    refine ⟨?_,?_,⟨trivial,h.orderly⟩⟩
    · rw [he, map_modify _ _ _ _ hkey]
      exact h.nodup
    · intro q hq
      rw [he] at hq
      rcases mem_modify hq with hq | ⟨a,ha,rfl⟩
      · exact hkept q hq
      · obtain rfl := Option.some.inj (hp.symm.trans ha)
        rw [hkey p hp, mergeInto, if_pos (receives_accepts hrec hcut),
          mergeAccepted_done clk f p hrec.canonical,
          covered_insert _ _ (Nat.le_add_right _ _) _ hrec.canonical.1, hsup, hbrought]
        refine ⟨Set.union_subset_union ?_ (h.recent p (List.mem_of_getElem? hp)).1,
          by simp [arrivedSince, hbrought]⟩
        simp [fragmentPart]
  · have hbrought : broughtPart ser (fragmentKey f) message = [fragmentPart f] := by
      rw [broughtPart_read hf, if_pos rfl]
    refine ⟨?_,?_,⟨trivial,h.orderly⟩⟩
    · rw [he, List.map_append]
      refine List.nodup_append.mpr ⟨h.nodup,List.nodup_singleton _,?_⟩
      rintro key hk key' hk' rfl
      obtain ⟨p,hp,rfl⟩ := List.mem_map.mp hk
      have he' : keyOf p = fragmentKey f := List.mem_singleton.mp hk'
      exact hn p hp ⟨congrArg Prod.fst he',congrArg Prod.snd he'⟩
    · intro q hq
      rw [he] at hq
      rcases List.mem_append.mp hq with hq | hq
      · exact hkept q hq
      · obtain rfl := List.mem_singleton.mp hq
        rw [newIncoming_done, hsup]
        change _ ⊆ covered (broughtPart ser (fragmentKey f) message) ∪ _ ∧
          broughtPart ser (fragmentKey f) message ++ _ ≠ []
        rw [hbrought]
        exact ⟨Set.subset_union_left,by simp⟩
  · rw [he]
    exact ⟨h.nodup,hkept,⟨trivial,h.orderly⟩⟩

/-- Hand overs of other blobs do not touch what has arrived of a blob. -/
theorem arrivedSince_others {key : BlobKey} {newer older : List Happening}
    (h : ∀ e ∈ newer, (∃ c, e = .handedOver c ∧ keyOf c.pending ≠ key) ∨
      ∃ message, e = .requested message) :
    arrivedSince ser key (newer++older) = arrivedSince ser key older := by
  induction newer with
  | nil => rfl
  | cons e newer ih =>
    have hi := ih (fun e he => h e (List.mem_cons_of_mem _ he))
    rcases h e (by simp) with ⟨c,rfl,hk⟩ | ⟨message,rfl⟩
    · simp [arrivedSince, hk, hi]
    · simpa [arrivedSince] using hi

theorem handOver_orderly (cs : List (Completion Received)) (older : List Happening)
    (hn : (cs.map (fun c => keyOf c.pending)).Nodup)
    (h : ∀ c ∈ cs, Justified ser older (.handedOver c)) (ho : Orderly ser older) :
    Orderly ser ((cs.map Happening.handedOver).reverse ++ older) := by
  induction cs generalizing older with
  | nil => exact ho
  | cons c cs ih =>
    obtain ⟨hc,hcs⟩ := List.nodup_cons.mp hn
    rw [List.map_cons, List.reverse_cons, List.append_assoc]
    refine ih (.handedOver c::older) hcs ?_ ⟨h c (by simp),ho⟩
    intro c' hc'
    have hk : keyOf c.pending ≠ keyOf c'.pending := fun he =>
      hc (List.mem_map.mpr ⟨c',hc',he.symm⟩)
    have hj := h c' (List.mem_cons_of_mem _ hc')
    simpa [Justified, arrivedSince, hk] using hj

theorem tracked_handOver (hi : Inv ser sourceId t) (h : Tracked ser t)
    (r : BlobManipulator BufferBlobIo Received × List (Completion Received))
    (hkeep : r.1.incoming = t.receiver.incoming.filter (fun p => !p.receivedEverything))
    (hdone : r.2.map (fun c => c.pending) =
      t.receiver.incoming.filter (fun p => p.receivedEverything)) :
    Tracked ser (handOver t r) := by
  have hsource : ∀ c ∈ r.2, c.pending ∈ t.receiver.incoming ∧
      c.pending.receivedEverything = true := by
    intro c hc
    have hm : c.pending ∈ r.2.map (fun c => c.pending) := List.mem_map_of_mem hc
    rw [hdone] at hm
    exact List.mem_filter.mp hm
  have hkeys : (r.2.map (fun c => keyOf c.pending)).Nodup := by
    have he : r.2.map (fun c => keyOf c.pending) =
        (t.receiver.incoming.filter (fun p => p.receivedEverything)).map keyOf := by
      rw [← hdone, List.map_map]
      rfl
    rw [he]
    exact h.nodup.sublist (List.filter_sublist.map keyOf)
  refine ⟨?_,?_,?_⟩
  · change (r.1.incoming.map keyOf).Nodup
    rw [hkeep]
    exact h.nodup.sublist (List.filter_sublist.map keyOf)
  · intro p hp
    have hp' : p ∈ r.1.incoming := hp
    rw [hkeep] at hp'
    obtain ⟨hin,hnot⟩ := List.mem_filter.mp hp'
    change covered p.doneParts ⊆ covered (arrivedSince ser (keyOf p)
      ((r.2.map Happening.handedOver).reverse ++ t.history)) ∧ arrivedSince ser (keyOf p)
      ((r.2.map Happening.handedOver).reverse ++ t.history) ≠ []
    rw [arrivedSince_others]
    · exact h.recent p hin
    · intro e he
      obtain ⟨c,hc,rfl⟩ := List.mem_map.mp (List.mem_reverse.mp he)
      refine Or.inl ⟨c,rfl,fun hk => ?_⟩
      obtain ⟨hcin,hall⟩ := hsource c hc
      have heq := List.inj_on_of_nodup_map h.nodup hcin hin hk
      rw [heq] at hall
      simp [hall] at hnot
  · refine handOver_orderly r.2 t.history hkeys ?_ h.orderly
    intro c hc
    obtain ⟨hin,hall⟩ := hsource c hc
    obtain ⟨b,_,hrec⟩ := hi.receiving c.pending hin
    have hd := receives_everything hrec hall
    have hcov := (h.recent c.pending hin).1
    rw [hd, covered_cons, covered_nil, Set.union_empty] at hcov
    refine ⟨?_,by rw [hrec.totalSize]; exact hcov⟩
    rw [PendingBlob.receivedEverything, hd] at hall
    simp only [Bool.decide_and, Bool.and_eq_true, decide_eq_true_eq] at hall
    exact Nat.pos_of_ne_zero hall.2.1

theorem requestResends_keys (m : BlobManipulator BufferBlobIo Received) (clk : Clock)
    (doSend : SendHandler) (maxMessageSize : ℕ) (ps : List (PendingBlob Received))
    (log : List SendAttempt) :
    (m.requestResends ser clk doSend maxMessageSize ps log).1.map keyOf = ps.map keyOf := by
  induction ps generalizing log with
  | nil => rfl
  | cons p ps ih =>
    rw [requestResends]
    split
    · rw [List.map_cons, List.map_cons, ih]
      rfl
    · rw [List.map_cons, List.map_cons, ih]

theorem requests_key {p : PendingBlob Received} {maxMessageSize : ℕ} {key : BlobKey}
    (h : Requests ser key (resendRequest ser p maxMessageSize)) : key = keyOf p := by
  obtain ⟨ht,part,rest,hd⟩ := h
  have hr := ser.resend.decode_encode
    (p.sourceBlobId,doneBeginEnd p.doneParts p.info.totalSize maxMessageSize) []
  rw [List.append_nil] at hr
  have he := (Option.some.inj (hr.symm.trans hd))
  exact Prod.ext ht.symm (congrArg (fun x => x.1.1) he).symm

theorem tracked_update (h : Tracked ser t) (clk : Clock) (doSend : SendHandler)
    (maxMessageSize : ℕ) :
    Tracked ser (step ser sourceId t (.updateReceiver clk doSend maxMessageSize)) := by
  obtain ⟨hin,hsends,_⟩ := update_cases t.receiver ser clk doSend maxMessageSize
  have hnewer : ∀ e ∈ ((offered (t.receiver.update ser clk doSend maxMessageSize).sends).map
      Happening.requested).reverse, ∃ p ∈ t.receiver.incoming,
        e = .requested (resendRequest ser p maxMessageSize) := by
    intro e he
    obtain ⟨message,hm,rfl⟩ := List.mem_map.mp (List.mem_reverse.mp he)
    obtain ⟨a,ha,rfl⟩ := List.mem_map.mp hm
    obtain ⟨p,hp,_,_,hmsg⟩ := hsends a ha
    exact ⟨p,hp,by rw [hmsg]⟩
  have hsame : ∀ key newer, (∀ e ∈ newer, ∃ p ∈ t.receiver.incoming,
      e = .requested (resendRequest ser p maxMessageSize)) →
      arrivedSince ser key (newer++t.history) = arrivedSince ser key t.history := by
    intro key newer hn
    apply arrivedSince_others
    intro e he
    obtain ⟨p,_,rfl⟩ := hn e he
    exact Or.inr ⟨_,rfl⟩
  refine ⟨?_,?_,?_⟩
  · change ((requestResends _ ser clk doSend maxMessageSize _ []).1.map keyOf).Nodup
    rw [requestResends_keys]
    exact h.nodup.sublist (List.filter_sublist.map keyOf)
  · intro q hq
    change covered q.doneParts ⊆ covered (arrivedSince ser (keyOf q) (_ ++ t.history)) ∧
      arrivedSince ser (keyOf q) (_ ++ t.history) ≠ []
    rw [hsame (keyOf q) _ hnewer]
    rcases hin q hq with hq | ⟨p,hp,rfl⟩
    · exact h.recent q hq
    · exact h.recent p hp
  · change Orderly ser (_ ++ t.history)
    generalize ((offered _).map Happening.requested).reverse = newer at hnewer ⊢
    induction newer with
    | nil => exact h.orderly
    | cons e newer ih =>
      refine ⟨?_,ih (fun e he => hnewer e (List.mem_cons_of_mem _ he))⟩
      obtain ⟨p,hp,rfl⟩ := hnewer e (by simp)
      intro key hkey
      rw [requests_key hkey]
      change arrivedSince ser (keyOf p) (newer ++ t.history) ≠ []
      rw [hsame (keyOf p) newer (fun e he => hnewer e (List.mem_cons_of_mem _ he))]
      exact (h.recent p hp).2

theorem tracked_start (fragmentMsgId resendMsgId prepareMsgId : MessageId) (maxBlobSize : ℕ) :
    Tracked ser (start fragmentMsgId resendMsgId prepareMsgId maxBlobSize) := by
  constructor <;> simp [start, Orderly]

theorem completions_pending (m : BlobManipulator BufferBlobIo Received) (clk : Clock) :
    (m.fetchAll clk).2.map (fun c => c.pending) =
      m.incoming.filter (fun p => p.receivedEverything) ∧
    (m.handleComplete clk).2.map (fun c => c.pending) =
      m.incoming.filter (fun p => p.receivedEverything) :=
  ⟨(List.map_map ..).trans (List.map_id _),(List.map_map ..).trans (List.map_id _)⟩

/-- One admitted event keeps the receiver tracked. -/
theorem tracked_step (hi : Inv ser sourceId t) (h : Tracked ser t) (e : Event) :
    Tracked ser (step ser sourceId t e) := by
  have hsame : ∀ t' : Transfer, t'.receiver = t.receiver → t'.history = t.history →
      Tracked ser t' := by
    intro t' hr hh
    exact ⟨hr ▸ h.nodup,by rw [hr, hh]; exact h.recent,hh ▸ h.orderly⟩
  cases e with
  | pushOutgoing clk msgId targetId targetBlobId src maxTime options priority =>
    apply hsame <;> simp only [step, push] <;> split <;> rfl
  | processOutgoing clk doSend maxMessageSize maxMessages => exact hsame _ rfl rfl
  | updateSender clk doSend maxMessageSize => exact hsame _ rfl rfl
  | updateReceiver clk doSend maxMessageSize => exact tracked_update h clk doSend maxMessageSize
  | processResend i => apply hsame <;> simp only [step] <;> split <;> rfl
  | processIncoming clk i =>
    simp only [step]
    split
    · exact h
    · rename_i message hget
      exact tracked_arrival hi h clk (List.mem_of_getElem? hget)
  | fetchAll clk =>
    exact tracked_handOver hi h _ rfl (completions_pending t.receiver clk).1
  | handleComplete clk =>
    exact tracked_handOver hi h _ rfl (completions_pending t.receiver clk).2

/-- Each hand over is of a blob that arrived anew as a whole, each request for
one of which some arrived anew; so after a hand over without further arrivals
of the blob there is neither. -/
structure Renewed (ser : BlobSerializer) (t : Transfer) : Prop where
  orderly : Orderly ser t.history
  once : ∀ newer c older, t.history = newer ++ .handedOver c::older →
    (∀ message, .arrived message ∈ newer → broughtPart ser (keyOf c.pending) message = []) →
    (∀ c', .handedOver c' ∈ newer → keyOf c'.pending ≠ keyOf c.pending) ∧
    ∀ message, .requested message ∈ newer → ¬ Requests ser (keyOf c.pending) message

theorem delivery_renewed (ser : BlobSerializer) (sourceId : EndpointId)
    (fragmentMsgId resendMsgId prepareMsgId : MessageId) (maxBlobSize : ℕ) (es : List Event)
    (h : StepRun.Steps (step ser sourceId) Admitted
      (start fragmentMsgId resendMsgId prepareMsgId maxBlobSize) es) :
    StepRun.Always (step ser sourceId) (Renewed ser)
      (start fragmentMsgId resendMsgId prepareMsgId maxBlobSize) es := by
  have hinv : StepRun.Always (step ser sourceId) (fun t => Inv ser sourceId t ∧ Tracked ser t)
      (start fragmentMsgId resendMsgId prepareMsgId maxBlobSize) es :=
    StepRun.always_of_invariant
      (fun _ e hi ha => ⟨inv_step hi.1 e ha,tracked_step hi.1 hi.2 e⟩)
      ⟨inv_start fragmentMsgId resendMsgId prepareMsgId maxBlobSize,
        tracked_start fragmentMsgId resendMsgId prepareMsgId maxBlobSize⟩ h
  refine StepRun.always_mono (fun t ht => ⟨ht.2.orderly,?_⟩) hinv
  intro newer c older he hnone
  exact orderly_once (he ▸ ht.2.orderly) hnone

/-- Both fragments arrive, the blob is fetched, and late copies of both make
it complete a second time. -/
def lateCopies : List Event := samplePush ++ [
  .processIncoming sampleClock 0,.processIncoming sampleClock 1,.fetchAll sampleClock,
  .processIncoming sampleClock 0,.processIncoming sampleClock 1,.fetchAll sampleClock]

theorem delivery_renewed_late :
    StepRun.Always (step sampleSerializer 5) (Renewed sampleSerializer) sampleStart lateCopies :=
  delivery_renewed sampleSerializer 5 (msgbusId .blobFrgmnt) (msgbusId .blobResend)
    (msgbusId .blobPrpare) 100 lateCopies (by decide)

theorem delivered_twice :
    ¬ ∀ es, StepRun.Steps (step sampleSerializer 5) Admitted sampleStart es →
      ((reports (StepRun.run (step sampleSerializer 5) sampleStart es)).map
        (fun c => keyOf c.pending)).Nodup := by
  intro h
  exact absurd (h lateCopies (by decide)) (by decide)

end Steps

end MsgBus.BlobDelivery
