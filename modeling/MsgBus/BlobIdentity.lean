import MsgBus.ReceiverRun
import MsgBus.SampleSerializer

/-!
# Fragments of different blobs in one pending blob

A pending blob that was found by its target takes over the ids of the
fragment, whether or not it has already received fragments of another blob.
Blobs stay apart exactly as long as only blobs without any fragment are found
that way.
-/

set_option autoImplicit false

namespace MsgBus.BlobIdentity

open IntervalList FragmentMerge BlobManipulator ManipulatorRules ReceiverRun

variable {ς τ : Type}

/-- All fragments merged into a pending blob have the same ids. -/
def Unmixed (s : Receiver ς τ) : Prop :=
  ∀ p ∈ s.manipulator.incoming, ∀ key ∈ p.io.merged, ∀ key' ∈ p.io.merged, key = key'

instance (s : Receiver ς τ) : Decidable (Unmixed s) :=
  inferInstanceAs (Decidable (∀ p ∈ s.manipulator.incoming, ∀ key ∈ p.io.merged,
    ∀ key' ∈ p.io.merged, key = key'))

/-- A fragment whose ids no pending blob carries meets, by its target, only a
pending blob that has not received anything. -/
def MeetsUnstarted (s : Receiver ς τ) : Event τ → Prop
  | .pushIncomingFragment _ _ f => s.manipulator.findBySource f = none →
      ∀ (pos : ℕ) p, s.manipulator.findByTarget f = some pos →
        s.manipulator.incoming[pos]? = some p → p.doneParts = []
  | _ => True

/-- What was merged into a pending blob has the ids the blob carries. -/
structure Labelled (p : PendingBlob (StoreLog τ)) : Prop where
  canonical : Canonical p.doneParts
  own : ∀ key ∈ p.io.merged, key = keyOf p
  started : p.io.merged = [] ↔ p.doneParts = []

def Inv (s : Receiver ς τ) : Prop := ∀ p ∈ s.manipulator.incoming, Labelled p

theorem inv_unmixed {s : Receiver ς τ} (h : Inv s) : Unmixed s :=
  fun p hp key hk key' hk' => ((h p hp).own key hk).trans ((h p hp).own key' hk').symm

theorem labelled_retained {p q : PendingBlob (StoreLog τ)} (hp : Labelled p)
    (h : Retains p q) : Labelled q := by
  refine ⟨h.done ▸ hp.canonical,?_,by rw [h.merged, h.done]; exact hp.started⟩
  rw [h.merged, keyOf, h.info, h.sourceBlobId]
  exact hp.own

theorem labelled_unstarted {q : PendingBlob (StoreLog τ)} (h : Unstarted q) : Labelled q :=
  ⟨h.done ▸ canonical_nil,by simp [h.merged],by simp [h.merged, h.done]⟩

/-- The pending blob just before the merge carries the ids of the fragment, and
so does what was merged into it, unless it was found by its target in
progress. -/
theorem site_labelled {m : BlobManipulator ς (StoreLog τ)} {clk : Clock}
    {getIo : TargetIoGetter τ} {f : IncomingFragment} {pos : ℕ} {p : PendingBlob (StoreLog τ)}
    (h : ∀ p ∈ m.incoming, Labelled p)
    (hok : m.findBySource f = none → ∀ (pos : ℕ) p, m.findByTarget f = some pos →
      m.incoming[pos]? = some p → p.doneParts = [])
    (hs : mergeSite m clk (noted getIo) f = some (pos,p)) :
    keyOf p = fragmentKey f ∧ Labelled p := by
  rcases mergeSite_cases hs with ⟨p₀,hp,ho,_,rfl⟩ | ⟨p₀,hn,ht,hp,ha,rfl⟩ | ⟨io,_,_,hio,rfl⟩
  · have hl := h p₀ (List.mem_of_getElem? hp)
    exact ⟨owns_iff.mp ho,hl.canonical,hl.own,hl.started⟩
  · have hl := h p₀ (List.mem_of_getElem? hp)
    have hd := hok hn pos p₀ ht hp
    have hm := hl.started.mpr hd
    refine ⟨?_,hl.canonical,by simp [refreshed, updateExpected, hm],hl.started⟩
    rcases ha.2.2 with hsrc | hsrc <;> simp [keyOf, fragmentKey, refreshed, updateExpected, hsrc]
  · obtain ⟨io',_,rfl⟩ := Option.map_eq_some_iff.mp hio
    exact ⟨rfl,canonical_nil,by simp [createIncoming, StoreLog.fresh],
      by simp [createIncoming, StoreLog.fresh, PendingBlob.doneParts]⟩

theorem inv_start (fragmentMsgId resendMsgId prepareMsgId : MessageId) :
    Inv (start ς τ fragmentMsgId resendMsgId prepareMsgId) := by
  simp [Inv, start]

variable [TargetBlobIo τ]

theorem labelled_merge {clk : Clock} {f : IncomingFragment} {p : PendingBlob (StoreLog τ)}
    (hk : keyOf p = fragmentKey f) (hp : Labelled p) : Labelled (mergeNoted clk f p) := by
  have hdone : (mergeNoted clk f p).doneParts =
      insertInterval f.offset (f.offset+f.fragment.length) p.doneParts :=
    mergeFragment_done p clk.now f.offset f.fragment hp.canonical
  have hmerged : (mergeNoted clk f p).io.merged = p.io.merged ++ [fragmentKey f] :=
    congrArg (· ++ [fragmentKey f])
      (StoreLog.merge_merged p clk.now f.offset f.fragment hp.canonical)
  have hkey : keyOf (mergeNoted clk f p) = keyOf p := rfl
  refine ⟨?_,?_,?_⟩
  · rw [hdone]
    exact insert_canonical _ _ (Nat.le_add_right _ _) _ hp.canonical
  · intro key hm
    rw [hmerged] at hm
    rw [hkey]
    rcases List.mem_append.mp hm with hm | hm
    · exact hp.own key hm
    · rw [List.mem_singleton.mp hm, hk]
  · simp [hmerged, hdone, insert_ne_nil]

variable [SourceBlobIo ς] {s : Receiver ς τ}

theorem inv_step (h : Inv s) (e : Event τ) (hok : MeetsUnstarted s e) : Inv (step s e) := by
  intro q hq
  rcases mem_step hq with ⟨p,hp,hr⟩ | hu | ⟨clk,getIo,f,pos,p,rfl,hs,rfl⟩
  · exact labelled_retained (h p hp) hr
  · exact labelled_unstarted hu
  · obtain ⟨hk,hl⟩ := site_labelled h hok hs
    exact labelled_merge hk hl

/-- A blob in progress that is found by its target ends up with fragments of
two blobs. -/
theorem meets_of_unmixed (h : Inv s) (e : Event τ) (hu : Unmixed (step s e)) :
    MeetsUnstarted s e := by
  cases e with
  | pushIncomingFragment clk getIo f =>
    intro hn pos p ht hp
    by_contra hd
    have hl := h p (List.mem_of_getElem? hp)
    have hs : mergeSite s.manipulator clk (noted getIo) f =
        some (pos,refreshed clk f (updateExpected f p)) := by
      simp [mergeSite, hn, ht, hp]
    have hmerged : (mergeNoted clk f (refreshed clk f (updateExpected f p))).io.merged =
        p.io.merged ++ [fragmentKey f] :=
      congrArg (· ++ [fragmentKey f]) (StoreLog.merge_merged
        (refreshed clk f (updateExpected f p)) clk.now f.offset f.fragment hl.canonical)
    have hq : mergeNoted clk f (refreshed clk f (updateExpected f p)) ∈
        (step s (.pushIncomingFragment clk getIo f)).manipulator.incoming := by
      simp only [step, pushNoted_site, hs]
      exact placed_mem _ _ _
    obtain ⟨key,hkey⟩ := List.exists_mem_of_ne_nil _ (fun hm => hd (hl.started.mp hm))
    have heq := hu _ hq key (by rw [hmerged]; simp [hkey]) (fragmentKey f) (by simp [hmerged])
    exact findBySource_none hn p (List.mem_of_getElem? hp)
      (owns_iff.mpr ((hl.own key hkey).symm.trans heq))
  | _ => trivial

/-- A fragment leaves every blob in progress that it does not belong to as it
is. -/
def Undisturbed (s : Receiver ς τ) : Event τ → Prop
  | .pushIncomingFragment clk getIo f => ∀ (i : ℕ) p, s.manipulator.incoming[i]? = some p →
      p.doneParts ≠ [] → ¬ Owns f p →
      (step s (.pushIncomingFragment clk getIo f)).manipulator.incoming[i]? = some p
  | _ => True

theorem undisturbed_of_meets (e : Event τ) (hok : MeetsUnstarted s e) : Undisturbed s e := by
  cases e with
  | pushIncomingFragment clk getIo f =>
    intro i p hp hd ho
    simp only [step, pushNoted_site]
    split
    · exact hp
    · rename_i pos q hs
      refine place_getElem_ne hp ?_
      intro hpos
      rcases mergeSite_cases hs with ⟨p₀,hp₀,ho₀,_⟩ | ⟨p₀,hn,ht,hp₀,_⟩ | ⟨_,hlen,_⟩
      · obtain rfl := Option.some.inj (hpos.symm.trans hp₀)
        exact ho ho₀
      · exact hd (hok hn pos p ht hpos)
      · rw [hlen] at hpos
        simp at hpos
  | _ => trivial

/-- Blobs are never mixed in a run exactly if no fragment meets, by its target,
a blob that is already in progress. -/
theorem unmixed_iff (fragmentMsgId resendMsgId prepareMsgId : MessageId) (es : List (Event τ)) :
    (StepRun.Always step Unmixed
        (start ς τ fragmentMsgId resendMsgId prepareMsgId) es ∧
      StepRun.Steps step Undisturbed (start ς τ fragmentMsgId resendMsgId prepareMsgId) es) ↔
    StepRun.Steps step MeetsUnstarted
      (start ς τ fragmentMsgId resendMsgId prepareMsgId) es := by
  have hiff : StepRun.Always step Unmixed
        (start ς τ fragmentMsgId resendMsgId prepareMsgId) es ↔
      StepRun.Steps step MeetsUnstarted (start ς τ fragmentMsgId resendMsgId prepareMsgId) es :=
    StepRun.always_iff_steps (fun (s : Receiver ς τ) (hi : Inv s) => inv_unmixed hi)
      (fun _ e hi hok => inv_step hi e hok)
      (fun _ e hi hu => meets_of_unmixed hi e hu)
      (inv_start fragmentMsgId resendMsgId prepareMsgId)
  exact ⟨fun h => hiff.mp h.1,fun h => ⟨hiff.mpr h,
    StepRun.steps_mono (fun _ e hok => undisturbed_of_meets e hok) h⟩⟩

/-- One endpoint sends two blobs of the same message under the same target
id; the second fragment is from the second blob. -/
def crossing : List (Event BufferBlobIo) :=
  let fragment (sourceBlobId : BlobId) (offset : ℕ) (data : Block) : IncomingFragment :=
    ⟨⟨.other 1,.other 2⟩,5,sourceBlobId,3,offset,4,data,0,.normal⟩
  [.pushIncomingFragment sampleClock (fun _ size => some (.ofSize size)) (fragment 1 0 [10,20]),
    .pushIncomingFragment sampleClock (fun _ size => some (.ofSize size)) (fragment 2 2 [33,44])]

theorem crossing_mixes :
    ¬ StepRun.Always step Unmixed (start BufferBlobIo BufferBlobIo (msgbusId .blobFrgmnt)
      (msgbusId .blobResend) (msgbusId .blobPrpare)) crossing :=
  fun h => absurd (StepRun.always_last h) (by decide)

end MsgBus.BlobIdentity
