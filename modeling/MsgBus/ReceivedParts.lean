import MsgBus.FragmentMerge

/-!
# The received parts of a blob

Fragments are merged one after another into a blob whose target notes the
blocks that are passed to it. The list of received parts is canonical without
empty intervals after each merge, and what was received was passed on.
-/

set_option autoImplicit false

namespace MsgBus

open IntervalList FragmentMerge

/-- A target and the blocks that were passed to `store_fragment`. -/
structure PassedLog (τ : Type) where
  io : τ
  passed : List (ℕ × Block) := []

namespace PassedLog

variable {τ : Type}

instance [TargetBlobIo τ] : TargetBlobIo (PassedLog τ) where
  handlePrepared l progress := { l with io := TargetBlobIo.handlePrepared l.io progress }
  handleFinished l msgId age message info :=
    { l with io := TargetBlobIo.handleFinished l.io msgId age message info }
  handleCancelled l := { l with io := TargetBlobIo.handleCancelled l.io }
  storeFragment l offs src info :=
    ((TargetBlobIo.storeFragment l.io offs src info).1,
      { l with
        io := (TargetBlobIo.storeFragment l.io offs src info).2
        passed := l.passed ++ [(offs,src)] })
  checkStored l offs blk :=
    ((TargetBlobIo.checkStored l.io offs blk).1,
      { l with io := (TargetBlobIo.checkStored l.io offs blk).2 })
  targetBuffer l := TargetBlobIo.targetBuffer l.io

/-- The notes do not change what the target does. -/
theorem runIo_eq [TargetBlobIo τ] (info : BlobInfo) (l : PassedLog τ) (cs : List IoCall) :
    runIo info l cs = ⟨runIo info l.io cs,l.passed ++ stores cs⟩ := by
  induction cs generalizing l with
  | nil => simp [runIo, stores]
  | cons c cs ih =>
    cases c with
    | store offs src =>
      rw [runIo, ih, stores]
      exact congrArg (PassedLog.mk _) (List.append_assoc l.passed [(offs,src)] (stores cs))
    | check offs blk =>
      rw [runIo, ih]
      rfl

end PassedLog

structure ReceivedFragment where
  now : ℕ := 0
  bgn : ℕ
  fragment : Block

namespace ReceivedFragment

variable {ι : Type} [TargetBlobIo ι]

def part (f : ReceivedFragment) : Part := (f.bgn,f.bgn+f.fragment.length)

def mergeInto (f : ReceivedFragment) (p : PendingBlob ι) : PendingBlob ι :=
  (p.mergeFragment f.now f.bgn f.fragment).2

def mergeAllInto (fragments : List ReceivedFragment) (p : PendingBlob ι) : PendingBlob ι :=
  fragments.foldl (fun p f => f.mergeInto p) p

/-- Intervals that are not empty, ascending, neither overlapping nor touching. -/
def Intervals (parts : List Part) : Prop :=
  (∀ p ∈ parts, p.1 < p.2) ∧ parts.Pairwise (fun p q => p.2 < q.1)

theorem Intervals.canonical {parts : List Part} (h : Intervals parts) : Canonical parts :=
  ⟨fun p hp => (h.1 p hp).le,h.2⟩

variable {f : ReceivedFragment} {p : PendingBlob ι}

theorem mergeInto_doneParts (hc : Canonical p.doneParts) :
    (f.mergeInto p).doneParts = insertInterval f.bgn (f.bgn+f.fragment.length) p.doneParts := by
  rw [mergeInto, mergeFragment_eq p f.now f.bgn f.fragment hc]
  rfl

theorem mergeInto_intervals (hf : f.fragment ≠ []) (h : Intervals p.doneParts) :
    Intervals (f.mergeInto p).doneParts := by
  have hlt : f.bgn < f.bgn+f.fragment.length :=
    Nat.lt_add_of_pos_right (List.length_pos_of_ne_nil hf)
  rw [mergeInto_doneParts h.canonical]
  exact ⟨insert_proper _ _ hlt _ h.1,(insert_canonical _ _ hlt.le _ h.canonical).2⟩

theorem mergeInto_covered (h : Canonical p.doneParts) :
    covered (f.mergeInto p).doneParts = covered p.doneParts ∪ covered [f.part] := by
  rw [mergeInto_doneParts h, covered_insert _ _ (Nat.le_add_right _ _) _ h.1, covered_cons,
    covered_nil, Set.union_empty, Set.union_comm]
  rfl

theorem mergeInto_canonical (h : Canonical p.doneParts) : Canonical (f.mergeInto p).doneParts := by
  rw [mergeInto_doneParts h]
  exact insert_canonical _ _ (Nat.le_add_right _ _) _ h

/-- Merging fragments keeps the list canonical and adds just the fragments. -/
theorem mergeAllInto_covered (fragments : List ReceivedFragment) (h : Canonical p.doneParts) :
    Canonical (mergeAllInto fragments p).doneParts ∧
      covered (mergeAllInto fragments p).doneParts =
        covered p.doneParts ∪ covered (fragments.map part) := by
  induction fragments generalizing p with
  | nil =>
    rw [List.map_nil, covered_nil, Set.union_empty]
    exact ⟨h,rfl⟩
  | cons f fragments ih =>
    obtain ⟨hc,hcov⟩ := ih (mergeInto_canonical (f := f) h)
    refine ⟨hc,hcov.trans ?_⟩
    rw [mergeInto_covered h, Set.union_assoc, ← covered_append]
    rfl

/-- Fragments that are not empty leave no empty intervals. -/
theorem mergeAllInto_doneParts {fragments : List ReceivedFragment}
    (hf : ∀ f ∈ fragments, f.fragment ≠ []) (h : Intervals p.doneParts) :
    Intervals (mergeAllInto fragments p).doneParts ∧
      covered (mergeAllInto fragments p).doneParts =
        covered p.doneParts ∪ covered (fragments.map part) := by
  refine ⟨?_,(mergeAllInto_covered fragments h.canonical).2⟩
  induction fragments generalizing p with
  | nil => exact h
  | cons f fragments ih =>
    exact ih (fun g hg => hf g (by simp [hg])) (mergeInto_intervals (hf f (by simp)) h)

/-- A merge passes on what of the fragment was not received before. -/
theorem mergeInto_passed {τ : Type} [TargetBlobIo τ] {p : PendingBlob (PassedLog τ)}
    (hc : Canonical p.doneParts) : (f.mergeInto p).io.passed =
      p.io.passed ++ pieces f.bgn (f.bgn+f.fragment.length) f.fragment p.doneParts := by
  rw [mergeInto, mergeFragment_eq p f.now f.bgn f.fragment hc]
  simp only [PassedLog.runIo_eq,
    stores_mergeCalls _ _ _ _ (Nat.le_add_right f.bgn f.fragment.length) hc]

/-- After any fragments the received parts are proper intervals, exactly those
of the fragments; and of a further fragment every byte that was not received
is in a range that its merge passes to the target. -/
theorem received_parts {τ : Type} [TargetBlobIo τ] (fragments : List ReceivedFragment)
    (hf : ∀ f ∈ fragments, f.fragment ≠ []) (p : PendingBlob (PassedLog τ))
    (hp : p.doneParts = []) :
    let received := mergeAllInto fragments p
    Intervals received.doneParts ∧
      (∀ x, x ∈ covered received.doneParts ↔
        ∃ f ∈ fragments, f.bgn ≤ x ∧ x < f.bgn+f.fragment.length) ∧
      ∀ f : ReceivedFragment, f.fragment ≠ [] → ∃ passed,
        (f.mergeInto received).io.passed = received.io.passed ++ passed ∧
        ∀ x, f.bgn ≤ x → x < f.bgn+f.fragment.length →
          x ∈ covered received.doneParts ∨ x ∈ covered (ranges passed) := by
  have hstart : Intervals p.doneParts := by
    rw [hp]
    exact ⟨by simp,List.Pairwise.nil⟩
  obtain ⟨hi,hcov⟩ := mergeAllInto_doneParts hf hstart
  refine ⟨hi,fun x => ?_,fun f _ => ⟨_,mergeInto_passed hi.canonical,fun x hl hr => ?_⟩⟩
  · rw [hcov, hp, covered_nil, Set.empty_union]
    simp [covered, part]
  · exact fragment_covered hi.canonical ⟨hl,hr⟩

theorem received_parts_three :
    let p : PendingBlob (PassedLog BufferBlobIo) :=
      { msgId := msgbusId .ping, io := ⟨.ofSize 9,[]⟩ }
    let received := mergeAllInto [⟨0,4,[5,6]⟩,⟨0,0,[1]⟩,⟨0,1,[2,3,4,5,6,7]⟩] p
    Intervals received.doneParts ∧ (6 ∈ covered received.doneParts) := by
  have h := received_parts [⟨0,4,[5,6]⟩,⟨0,0,[1]⟩,⟨0,1,[2,3,4,5,6,7]⟩] (by simp)
    { msgId := msgbusId .ping, io := (⟨.ofSize 9,[]⟩ : PassedLog BufferBlobIo) } rfl
  exact ⟨h.1,(h.2.1 6).mpr ⟨⟨0,1,[2,3,4,5,6,7]⟩,by simp,by decide,by decide⟩⟩

end ReceivedFragment

end MsgBus
