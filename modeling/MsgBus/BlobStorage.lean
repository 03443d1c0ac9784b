import MsgBus.ReceiverRun
import MsgBus.SampleSerializer

/-!
# Received places and stored places

A merge notes the whole of a fragment as received, whatever the target has
answered to the stores it was asked for; the answers are only reported. The
received places are stored ones exactly as long as no store of a nonempty
piece fails.
-/

set_option autoImplicit false

namespace MsgBus.BlobStorage

open IntervalList FragmentMerge BlobManipulator ManipulatorRules ReceiverRun

variable {ς τ : Type}

/-- Received places have been stored, so a complete blob is stored as a
whole, and so is every blob that was handed over. -/
structure Stored (s : Receiver ς τ) : Prop where
  pending : ∀ p ∈ s.manipulator.incoming, covered p.doneParts ⊆ covered p.io.stored
  complete : ∀ p ∈ s.manipulator.incoming, p.receivedEverything = true →
    Set.Ico 0 p.info.totalSize ⊆ covered p.io.stored
  handed : ∀ c ∈ s.handed, Set.Ico 0 c.pending.info.totalSize ⊆ covered c.pending.io.stored

section Calls

variable [TargetBlobIo τ]

/-- The target accepts every store of a nonempty piece among the calls. -/
def storesAccepted (info : BlobInfo) : τ → List IoCall → Bool
  | _, [] => true
  | io, .store offs src::cs =>
    (src.isEmpty || (TargetBlobIo.storeFragment io offs src info).1) &&
      storesAccepted info (TargetBlobIo.storeFragment io offs src info).2 cs
  | io, .check offs blk::cs => storesAccepted info (TargetBlobIo.checkStored io offs blk).2 cs

theorem note_covered (l : StoreLog τ) (offs : ℕ) (src : Block) (info : BlobInfo)
    (h : (src.isEmpty || (TargetBlobIo.storeFragment l offs src info).1) = true) :
    covered (TargetBlobIo.storeFragment l offs src info).2.stored =
      covered l.stored ∪ Set.Ico offs (offs+src.length) := by
  cases hr : (TargetBlobIo.storeFragment l.io offs src info).1 with
  | true => exact StoreLog.covered_note l offs src _ hr
  | false =>
    have hf : (TargetBlobIo.storeFragment l offs src info).1 = false := hr
    have hsame : (TargetBlobIo.storeFragment l offs src info).2.stored = l.stored :=
      if_neg (by simp [hr])
    rw [hf, Bool.or_false, List.isEmpty_iff] at h
    rw [hsame, h]
    simp

theorem note_outside (l : StoreLog τ) (offs : ℕ) (src : Block) (info : BlobInfo) {x : ℕ}
    (hx : x ∉ covered l.stored) (ho : x ∉ Set.Ico offs (offs+src.length)) :
    x ∉ covered (TargetBlobIo.storeFragment l offs src info).2.stored := by
  cases hr : (TargetBlobIo.storeFragment l.io offs src info).1 with
  | true =>
    have hc : covered (TargetBlobIo.storeFragment l offs src info).2.stored =
        covered l.stored ∪ Set.Ico offs (offs+src.length) :=
      StoreLog.covered_note l offs src _ hr
    rw [hc]
    exact fun h => h.elim hx ho
  | false =>
    have hsame : (TargetBlobIo.storeFragment l offs src info).2.stored = l.stored :=
      if_neg (by simp [hr])
    rwa [hsame]

theorem runIo_accepted (info : BlobInfo) (l : StoreLog τ) (cs : List IoCall)
    (h : storesAccepted info l cs = true) :
    covered (runIo info l cs).stored = covered l.stored ∪ covered (ranges (stores cs)) := by
  induction cs generalizing l with
  | nil => simp [runIo, stores, ranges]
  | cons c cs ih =>
    cases c with
    | store offs src =>
      obtain ⟨ha,hr⟩ := Bool.and_eq_true_iff.mp h
      have hi := ih _ hr
      rw [note_covered l offs src info ha] at hi
      simpa [runIo, runCall, stores, ranges, Set.union_assoc] using hi
    | check offs blk => exact ih _ h

theorem runIo_outside (info : BlobInfo) (l : StoreLog τ) (cs : List IoCall) {x : ℕ}
    (hx : x ∉ covered l.stored)
    (ho : ∀ d ∈ stores cs, x ∉ Set.Ico d.1 (d.1+d.2.length)) :
    x ∉ covered (runIo info l cs).stored := by
  induction cs generalizing l with
  | nil => exact hx
  | cons c cs ih =>
    cases c with
    | store offs src =>
      exact ih _ (note_outside l offs src info hx (ho (offs,src) (by simp [stores])))
        (fun d hd => ho d (by simp [stores, hd]))
    | check offs blk => exact ih _ hx ho

/-- If a store of a nonempty piece is refused, the place where that piece
starts stays unstored. -/
theorem runIo_refused (info : BlobInfo) (l : StoreLog τ) (cs : List IoCall)
    (h : storesAccepted info l cs = false) (hf : ∀ d ∈ stores cs, d.1 ∉ covered l.stored)
    (ha : (stores cs).Pairwise Apart) :
    ∃ d ∈ stores cs, d.2 ≠ [] ∧ d.1 ∉ covered (runIo info l cs).stored := by
  induction cs generalizing l with
  | nil => simp [storesAccepted] at h
  | cons c cs ih =>
    cases c with
    | store offs src =>
      obtain ⟨hd,hrest⟩ := List.pairwise_cons.mp ha
      by_cases hacc : (src.isEmpty || (TargetBlobIo.storeFragment l offs src info).1) = true
      · simp only [storesAccepted, hacc, Bool.true_and] at h
        have hfree : ∀ d ∈ stores cs,
            d.1 ∉ covered (TargetBlobIo.storeFragment l offs src info).2.stored :=
          fun d hm => note_outside l offs src info (hf d (List.mem_cons_of_mem _ hm)) (hd d hm).2
        obtain ⟨d,hm,hn,hout⟩ := ih _ h hfree hrest
        exact ⟨d,List.mem_cons_of_mem _ hm,hn,hout⟩
      · simp only [Bool.or_eq_true, not_or, Bool.not_eq_true, List.isEmpty_eq_false_iff] at hacc
        have hsame : (TargetBlobIo.storeFragment l offs src info).2.stored = l.stored := by
          have hr : (TargetBlobIo.storeFragment l.io offs src info).1 = false := hacc.2
          exact if_neg (by simp [hr])
        refine ⟨(offs,src),by simp [stores],hacc.1,?_⟩
        refine runIo_outside info _ cs ?_ (fun d hm => (hd d hm).1)
        change offs ∉ covered (TargetBlobIo.storeFragment l offs src info).2.stored
        rw [hsame]
        exact hf (offs,src) (by simp [stores])
    | check offs blk => exact ih _ h hf ha

end Calls

/-- The pending blob has stored exactly what it has received. -/
structure Kept (p : PendingBlob (StoreLog τ)) : Prop where
  canonical : Canonical p.doneParts
  unsized : p.doneParts = [] → p.info.totalSize = 0
  stored : covered p.doneParts = covered p.io.stored

structure Inv (s : Receiver ς τ) : Prop where
  kept : ∀ p ∈ s.manipulator.incoming, Kept p
  handed : ∀ c ∈ s.handed, Set.Ico 0 c.pending.info.totalSize ⊆ covered c.pending.io.stored

theorem kept_complete {p : PendingBlob (StoreLog τ)} (h : Kept p)
    (he : p.receivedEverything = true) : Set.Ico 0 p.info.totalSize ⊆ covered p.io.stored := by
  rw [← h.stored]
  rw [PendingBlob.receivedEverything] at he
  match hd : p.doneParts with
  | [] =>
    rw [hd] at he
    simp [h.unsized hd] at he
  | [(bgn,fin)] =>
    rw [hd] at he
    simp only [Bool.decide_and, Bool.and_eq_true, decide_eq_true_eq] at he
    obtain ⟨rfl,_,hfin⟩ := he
    simpa using Set.Ico_subset_Ico_right hfin
  | _::_::_ =>
    rw [hd] at he
    simp at he

theorem inv_stored {s : Receiver ς τ} (h : Inv s) : Stored s :=
  ⟨fun p hp => (h.kept p hp).stored.le,fun p hp he => kept_complete (h.kept p hp) he,h.handed⟩

theorem inv_start (fragmentMsgId resendMsgId prepareMsgId : MessageId) :
    Inv (start ς τ fragmentMsgId resendMsgId prepareMsgId) := by
  constructor <;> simp [start]

theorem kept_retained {p q : PendingBlob (StoreLog τ)} (hp : Kept p) (h : Retains p q) :
    Kept q := by
  refine ⟨h.done ▸ hp.canonical,?_,by rw [h.stored, h.done]; exact hp.stored⟩
  rw [h.done, h.info]
  exact hp.unsized

/-- The pending blob just before a merge. -/
structure Ready (p : PendingBlob (StoreLog τ)) : Prop where
  canonical : Canonical p.doneParts
  stored : covered p.doneParts = covered p.io.stored

theorem site_ready {m : BlobManipulator ς (StoreLog τ)} {clk : Clock} {getIo : TargetIoGetter τ}
    {f : IncomingFragment} {pos : ℕ} {p : PendingBlob (StoreLog τ)}
    (h : ∀ p ∈ m.incoming, Kept p) (hs : mergeSite m clk (noted getIo) f = some (pos,p)) :
    Ready p := by
  rcases mergeSite_cases hs with ⟨p₀,hp,_,_,rfl⟩ | ⟨p₀,_,_,hp,_,rfl⟩ | ⟨io,_,_,hio,rfl⟩
  · exact ⟨(h p₀ (List.mem_of_getElem? hp)).canonical,(h p₀ (List.mem_of_getElem? hp)).stored⟩
  · exact ⟨(h p₀ (List.mem_of_getElem? hp)).canonical,(h p₀ (List.mem_of_getElem? hp)).stored⟩
  · obtain ⟨io',_,rfl⟩ := Option.map_eq_some_iff.mp hio
    exact ⟨canonical_nil,rfl⟩

section Merge

variable {clk : Clock} {f : IncomingFragment} {p : PendingBlob (StoreLog τ)}

/-- The calls the merge of a fragment makes. -/
def callsOf (f : IncomingFragment) (p : PendingBlob (StoreLog τ)) : List IoCall :=
  mergeCalls f.offset (f.offset+f.fragment.length) f.fragment false p.doneParts

theorem stores_callsOf (hp : Ready p) : stores (callsOf f p) =
    pieces f.offset (f.offset+f.fragment.length) f.fragment p.doneParts :=
  stores_mergeCalls _ _ _ _ (Nat.le_add_right _ _) hp.canonical

variable [TargetBlobIo τ]

theorem mergeNoted_done (hp : Ready p) : (mergeNoted clk f p).doneParts =
    insertInterval f.offset (f.offset+f.fragment.length) p.doneParts :=
  mergeFragment_done p clk.now f.offset f.fragment hp.canonical

theorem mergeNoted_stored (hp : Ready p) :
    (mergeNoted clk f p).io.stored = (runIo p.info p.io (callsOf f p)).stored := by
  have he := mergeFragment_eq p clk.now f.offset f.fragment hp.canonical
  exact congrArg (fun r => r.2.io.stored) he

theorem mergeNoted_covered (hp : Ready p) : covered (mergeNoted clk f p).doneParts =
    covered p.io.stored ∪ covered (ranges (stores (callsOf f p))) := by
  rw [mergeNoted_done hp, covered_merge hp.canonical, stores_callsOf hp, hp.stored]

theorem kept_merge (hp : Ready p) (h : storesAccepted p.info p.io (callsOf f p) = true) :
    Kept (mergeNoted clk f p) := by
  refine ⟨?_,?_,?_⟩
  · rw [mergeNoted_done hp]
    exact insert_canonical _ _ (Nat.le_add_right _ _) _ hp.canonical
  · rw [mergeNoted_done hp]
    exact fun he => absurd he (insert_ne_nil _ _ _)
  · rw [mergeNoted_covered hp, mergeNoted_stored hp, runIo_accepted _ _ _ h]

/-- A refused piece starts at a place that is received but not stored. -/
theorem merge_refused (clk : Clock) (hp : Ready p)
    (h : storesAccepted p.info p.io (callsOf f p) = false) :
    ¬ covered (mergeNoted clk f p).doneParts ⊆ covered (mergeNoted clk f p).io.stored := by
  have hst := stores_callsOf (f := f) hp
  obtain ⟨d,hd,hn,hout⟩ := runIo_refused p.info p.io (callsOf f p) h
    (by rw [hst, ← hp.stored]; exact fun d hd => pieces_fresh hp.canonical hd)
    (by rw [hst]; exact pieces_apart hp.canonical)
  intro hsub
  have hin : d.1 ∈ covered (mergeNoted clk f p).doneParts := by
    rw [mergeNoted_covered hp]
    have hpos := List.length_pos_of_ne_nil hn
    exact Or.inr ⟨_,List.mem_map_of_mem hd,le_rfl,by simp only; omega⟩
  have hs := hsub hin
  rw [mergeNoted_stored hp] at hs
  exact hout hs

end Merge

section Runs

variable [SourceBlobIo ς] [TargetBlobIo τ] {s : Receiver ς τ}

/-- The target of the blob that takes the fragment accepts every nonempty
piece the merge asks it to store. -/
def StoresSucceed (s : Receiver ς τ) : Event τ → Prop
  | .pushIncomingFragment clk getIo f => ∀ (pos : ℕ) p,
      mergeSite s.manipulator clk (noted getIo) f = some (pos,p) →
        storesAccepted p.info p.io (callsOf f p) = true
  | _ => True

theorem inv_step (h : Inv s) (e : Event τ) (hok : StoresSucceed s e) : Inv (step s e) := by
  constructor
  · intro q hq
    rcases mem_step hq with ⟨p,hp,hr⟩ | hu | ⟨clk,getIo,f,pos,p,rfl,hs,rfl⟩
    · exact kept_retained (h.kept p hp) hr
    · exact ⟨hu.done ▸ canonical_nil,fun _ => hu.totalSize,by rw [hu.done, hu.stored]⟩
    · exact kept_merge (site_ready h.kept hs) (hok pos p hs)
  · intro c hc
    rcases mem_handed hc with hc | ⟨hp,he⟩
    · exact h.handed c hc
    · exact kept_complete (h.kept c.pending hp) he

theorem succeed_of_stored (h : Inv s) (e : Event τ) (hg : Stored (step s e)) :
    StoresSucceed s e := by
  cases e with
  | pushIncomingFragment clk getIo f =>
    intro pos p hs
    by_contra hno
    have hrefused := (Bool.not_eq_true _).mp hno
    refine merge_refused clk (site_ready h.kept hs) hrefused (hg.pending _ ?_)
    simp only [step, pushNoted_site, hs]
    exact placed_mem _ _ _
  | _ => trivial

/-- Received places are stored ones throughout a run, and only blobs stored as
a whole are handed over, exactly if each merge finds its stores accepted. -/
theorem stored_iff (fragmentMsgId resendMsgId prepareMsgId : MessageId) (es : List (Event τ)) :
    StepRun.Always step Stored (start ς τ fragmentMsgId resendMsgId prepareMsgId) es ↔
      StepRun.Steps step StoresSucceed (start ς τ fragmentMsgId resendMsgId prepareMsgId) es :=
  StepRun.always_iff_steps (fun (s : Receiver ς τ) (hi : Inv s) => inv_stored hi)
    (fun _ e hi hok => inv_step hi e hok) (fun _ e hi hg => succeed_of_stored hi e hg)
    (inv_start fragmentMsgId resendMsgId prepareMsgId)

/-- A blob of eight bytes is expected into a buffer of four. -/
def shortTarget : List (Event BufferBlobIo) :=
  let fragment (offset : ℕ) (data : Block) : IncomingFragment :=
    ⟨⟨.other 1,.other 2⟩,5,1,3,offset,8,data,0,.normal⟩
  [.expectIncoming sampleClock ⟨.other 1,.other 2⟩ 5 3 (.ofSize 4) 60000,
    .pushIncomingFragment sampleClock (fun _ _ => none) (fragment 0 [10,20,30,40]),
    .pushIncomingFragment sampleClock (fun _ _ => none) (fragment 4 [50,60,70,80]),
    .fetchAll sampleClock]

theorem shortTarget_loses :
    ¬ StepRun.Always step Stored (start BufferBlobIo BufferBlobIo (msgbusId .blobFrgmnt)
      (msgbusId .blobResend) (msgbusId .blobPrpare)) shortTarget := by
  intro h
  have hs := (StepRun.always_last h).handed
  have hm : ((8,[(0,4)]) : ℕ × List Part) ∈ ((StepRun.run step (start BufferBlobIo BufferBlobIo
      (msgbusId .blobFrgmnt) (msgbusId .blobResend) (msgbusId .blobPrpare)) shortTarget).handed.map
        (fun c => (c.pending.info.totalSize,c.pending.io.stored))) := by decide
  obtain ⟨c,hc,he⟩ := List.mem_map.mp hm
  obtain ⟨hsize,hstored⟩ := Prod.mk.inj he
  have hsub := hs c hc
  rw [hsize, hstored] at hsub
  have h5 : 5 ∈ covered [((0,4) : Part)] := hsub (by simp)
  simp at h5

end Runs

end MsgBus.BlobStorage
