import Mathlib.Data.Set.Card
import MsgBus.ReceivedParts
import MsgBus.ReceiverRun

/-!
# The range that is requested again

For a blob that has received something but not everything a request names the
front of its first gap. Answers that are exactly what is requested fill the
gaps from the front, so that a bounded number of rounds completes the blob.
-/

set_option autoImplicit false

namespace MsgBus.ResendRange

open IntervalList FragmentMerge BlobManipulator ReceivedFragment StepRun

/-- The front of the first gap: no byte of it is received and all before it
are; it ends where the blob does or a later part begins, or before that. -/
structure FirstGap (done : List Part) (totalSize maxMessageSize : ℕ) (range : Part) : Prop where
  nonempty : range.1 < range.2
  first : ∀ x < range.1, x ∈ covered done
  missing : ∀ x, range.1 ≤ x → x < range.2 → x ∉ covered done
  inside : range.2 ≤ totalSize ∨ ∃ part ∈ done, range.2 ≤ part.1
  short : 3*(range.2-range.1) ≤ 2*maxMessageSize

theorem doneBeginEnd_firstGap {done : List Part} {totalSize maxMessageSize : ℕ}
    (hc : Canonical done) (hbegun : done ≠ [])
    (hinc : ∀ fin, done = [(0,fin)] → fin < totalSize) (hmax : 2 ≤ maxMessageSize) :
    FirstGap done totalSize maxMessageSize (doneBeginEnd done totalSize maxMessageSize) := by
  match done with
  | [] => exact absurd rfl hbegun
  | (bgn,fin)::rest =>
    obtain ⟨-,hlt,hrest⟩ := canonical_cons.mp hc
    simp only [doneBeginEnd]
    split_ifs with hbgn
    · -- the front of the blob is missing
      have hlen : 0 < min bgn (2*maxMessageSize/3) := lt_min hbgn (by omega)
      refine ⟨hlen,fun x hx => absurd hx (Nat.not_lt_zero x),fun x _ hx => ?_,
        Or.inr ⟨(bgn,fin),by simp,min_le_left _ _⟩,?_⟩
      · exact not_covered_below hc (hx.trans_le (min_le_left _ _))
      · simp only
        omega
    · obtain rfl : bgn = 0 := by omega
      have hfirst : ∀ x < fin, x ∈ covered ((0,fin)::rest) := fun x hx =>
        ⟨(0,fin),by simp,Nat.zero_le x,hx⟩
      match rest with
      | [] =>
        have hfin := hinc fin rfl
        refine ⟨?_,hfirst,fun x hl _ => ?_,Or.inl ?_,?_⟩
        · simp only
          omega
        · rw [covered_cons, covered_nil, Set.union_empty]
          exact fun hx => not_lt.mpr hl hx.2
        · simp only
          omega
        · simp only
          omega
      | (next,fin')::rest =>
        have hgap : fin < next := hlt (next,fin') (by simp)
        refine ⟨?_,hfirst,fun x hl hx => ?_,Or.inr ⟨(next,fin'),by simp,?_⟩,?_⟩
        · simp only
          omega
        · simp only at hx
          rw [covered_cons]
          rintro (hin | hin)
          · exact not_lt.mpr hl hin.2
          · exact not_covered_below hrest (by simp only; omega) hin
        · simp only
          omega
        · simp only
          omega

example : doneBeginEnd [(0,4),(10,12)] 20 6 = (4,8) ∧ doneBeginEnd [(0,12)] 14 6 = (12,14) := by
  decide

/-! ## Rounds -/

/-- What the fragments of an answer cover is just what was requested. -/
structure Answers (fragments : List ReceivedFragment) (range : Part) : Prop where
  nonempty : ∀ f ∈ fragments, f.fragment ≠ []
  exactly : covered (fragments.map part) = Set.Ico range.1 range.2

structure ResendRound where
  maxMessageSize : ℕ
  answer : List ReceivedFragment

variable {ι : Type}

/-- The range named by the request that `update` sends. -/
def requestedRange (p : PendingBlob ι) (maxMessageSize : ℕ) : Part :=
  doneBeginEnd p.doneParts p.info.totalSize maxMessageSize

/-- Something is received of a blob whose size is known. -/
structure Begun (p : PendingBlob ι) : Prop where
  canonical : Canonical p.doneParts
  begun : p.doneParts ≠ []
  sized : p.info.totalSize ≠ 0

/-- The request of the round is sent for an incomplete blob and answered. -/
structure Answered (p : PendingBlob ι) (r : ResendRound) : Prop where
  size : 2 ≤ r.maxMessageSize
  incomplete : p.receivedEverything = false
  answers : Answers r.answer (requestedRange p r.maxMessageSize)

/-- The size of the blob or, if parts were received beyond it, their end. -/
def extent (p : PendingBlob ι) : ℕ :=
  (p.doneParts.map Prod.snd).foldr max p.info.totalSize

def missing (p : PendingBlob ι) : Set ℕ := {x | x < extent p ∧ x ∉ covered p.doneParts}

section Blob

variable {p q : PendingBlob ι} {r : ResendRound} {maxMessageSize : ℕ}

theorem complete_iff (h : p.doneParts ≠ []) (hsized : p.info.totalSize ≠ 0) :
    p.receivedEverything = true ↔ ∃ fin, p.doneParts = [(0,fin)] ∧ p.info.totalSize ≤ fin := by
  rw [PendingBlob.receivedEverything]
  match hp : p.doneParts with
  | [] => exact absurd hp h
  | [(bgn,fin)] =>
    simp only [hsized, ne_eq, not_false_eq_true, true_and, decide_eq_true_eq, List.cons.injEq,
      Prod.mk.injEq, and_true]
    constructor
    · rintro ⟨rfl,hle⟩
      exact ⟨fin,⟨rfl,rfl⟩,hle⟩
    · rintro ⟨_,⟨rfl,rfl⟩,hle⟩
      exact ⟨rfl,hle⟩
  | _::_::_ => simp

theorem requestedRange_firstGap (h : Begun p) (hinc : p.receivedEverything = false)
    (hmax : 2 ≤ maxMessageSize) : FirstGap p.doneParts p.info.totalSize maxMessageSize
      (requestedRange p maxMessageSize) := by
  refine doneBeginEnd_firstGap h.canonical h.begun (fun fin hp => ?_) hmax
  by_contra hle
  have hdone := (complete_iff h.begun h.sized).mpr ⟨fin,hp,not_lt.mp hle⟩
  rw [hinc] at hdone
  cases hdone

theorem foldr_max_le {ns : List ℕ} {n top : ℕ} :
    ns.foldr max n ≤ top ↔ n ≤ top ∧ ∀ m ∈ ns, m ≤ top := by
  induction ns with
  | nil => simp
  | cons m ns ih =>
    simp only [List.foldr_cons, max_le_iff, ih, List.forall_mem_cons]
    tauto

theorem extent_le {top : ℕ} :
    extent p ≤ top ↔ p.info.totalSize ≤ top ∧ ∀ part ∈ p.doneParts, part.2 ≤ top := by
  rw [extent, foldr_max_le, List.forall_mem_map]

theorem FirstGap.le_extent {range : Part}
    (h : FirstGap p.doneParts p.info.totalSize maxMessageSize range) (hc : Canonical p.doneParts) :
    range.2 ≤ extent p := by
  obtain ⟨hsize,hparts⟩ := extent_le.mp (le_refl (extent p))
  rcases h.inside with hle | ⟨part,hpart,hle⟩
  · exact hle.trans hsize
  · exact hle.trans ((hc.1 part hpart).trans (hparts part hpart))

/-- The parts of a blob without any beyond its size end with it. -/
theorem extent_eq (h : ∀ part ∈ p.doneParts, part.2 ≤ p.info.totalSize) :
    extent p = p.info.totalSize :=
  le_antisymm (extent_le.mpr ⟨le_refl _,h⟩) (extent_le.mp (le_refl _)).1

theorem missing_finite (p : PendingBlob ι) : (missing p).Finite :=
  (Set.finite_lt_nat (extent p)).subset fun _ hx => hx.1

/-- While the blob is incomplete its request can be answered. -/
theorem exists_answered (h : Begun p) (hinc : p.receivedEverything = false) :
    ∃ r, Answered p r := by
  set range := requestedRange p 2 with hrange
  have hgap : FirstGap p.doneParts p.info.totalSize 2 range :=
    requestedRange_firstGap h hinc (le_refl 2)
  refine ⟨⟨2,[⟨0,range.1,List.replicate (range.2-range.1) 0⟩]⟩,le_refl 2,hinc,?_,?_⟩
  · intro f hf
    rw [List.mem_singleton.mp hf]
    have hlt := hgap.nonempty
    simp only [ne_eq, List.replicate_eq_nil_iff]
    omega
  · have hle := hgap.nonempty.le
    rw [List.map_singleton, covered_cons, covered_nil, Set.union_empty, part]
    simp only [List.length_replicate, Nat.add_sub_cancel' hle]
    rw [hrange]

end Blob

section Rounds

variable [TargetBlobIo ι]

/-- The blob with the answer of a round merged into it. -/
def afterRound (p : PendingBlob ι) (r : ResendRound) : PendingBlob ι := mergeAllInto r.answer p

def requests : PendingBlob ι → List ResendRound → List Part
  | _, [] => []
  | p, r::rounds => requestedRange p r.maxMessageSize::requests (afterRound p r) rounds

/-- How the rounds of a blob go: each asks for what is still missing, behind
what was asked before; there are no more of them than missing bytes, and when
none can follow the blob is whole. -/
structure Filling (p : PendingBlob ι) (rounds : List ResendRound) : Prop where
  bounded : rounds.length ≤ (missing p).ncard
  ascending : (requests p rounds).Pairwise (fun range range' => range.2 ≤ range'.1)
  asked : covered (requests p rounds) ⊆ missing p
  received : covered (run afterRound p rounds).doneParts =
    covered p.doneParts ∪ covered (requests p rounds)
  goesOn : (run afterRound p rounds).receivedEverything = false →
    ∃ r, Answered (run afterRound p rounds) r
  filled : (run afterRound p rounds).receivedEverything = true →
    covered (requests p rounds) = missing p ∧
      (run afterRound p rounds).doneParts = [(0,extent p)]
  whole : (∀ part ∈ p.doneParts, part.2 ≤ p.info.totalSize) → extent p = p.info.totalSize

variable {p q : PendingBlob ι} {r : ResendRound} {rounds : List ResendRound}

theorem mergeAllInto_info (fragments : List ReceivedFragment) (p : PendingBlob ι) :
    (mergeAllInto fragments p).info = p.info := by
  induction fragments generalizing p with
  | nil => rfl
  | cons f fragments ih => exact ih (f.mergeInto p)

theorem mergeAllInto_top (fragments : List ReceivedFragment) (hc : Canonical p.doneParts)
    {top : ℕ} (hp : ∀ part ∈ p.doneParts, part.2 ≤ top)
    (hf : ∀ f ∈ fragments, f.bgn+f.fragment.length ≤ top) :
    ∀ part ∈ (mergeAllInto fragments p).doneParts, part.2 ≤ top := by
  induction fragments generalizing p with
  | nil => exact hp
  | cons f fragments ih =>
    refine ih (mergeInto_canonical hc) ?_ (fun g hg => hf g (by simp [hg]))
    rw [mergeInto_doneParts hc]
    exact insert_top top _ _ (hf f (by simp)) _ hp

theorem mergeAllInto_absorbs (fragments : List ReceivedFragment) (hc : Canonical p.doneParts) :
    ∀ part ∈ p.doneParts,
      ∃ part' ∈ (mergeAllInto fragments p).doneParts, part.2 ≤ part'.2 := by
  induction fragments generalizing p with
  | nil => exact fun part hp => ⟨part,hp,le_refl _⟩
  | cons f fragments ih =>
    intro part hp
    have hmerged := mergeInto_doneParts (f := f) hc
    obtain ⟨d,hd,-,hle⟩ := insert_absorbs f.bgn (f.bgn+f.fragment.length) p.doneParts part
      (List.mem_cons_of_mem _ hp)
    obtain ⟨d',hd',hle'⟩ := ih (mergeInto_canonical (f := f) hc) d (by rw [hmerged]; exact hd)
    exact ⟨d',hd',hle.trans hle'⟩

/-- A fragment of an answer ends where the range does or before. -/
theorem Answers.inside {fragments : List ReceivedFragment} {range : Part}
    (h : Answers fragments range) :
    ∀ f ∈ fragments, f.bgn+f.fragment.length ≤ range.2 := by
  intro f hf
  have hpos := List.length_pos_of_ne_nil (h.nonempty f hf)
  have hlast : f.bgn+f.fragment.length-1 ∈ covered (fragments.map part) :=
    ⟨f.part,List.mem_map_of_mem hf,by simp only [part]; omega,by simp only [part]; omega⟩
  rw [h.exactly] at hlast
  have hlt := hlast.2
  omega

/-- What an answered round does to the blob. -/
structure RoundDone (p : PendingBlob ι) (range : Part) (q : PendingBlob ι) : Prop where
  begun : Begun q
  extent : extent q = extent p
  received : covered q.doneParts = covered p.doneParts ∪ Set.Ico range.1 range.2

theorem afterRound_done (h : Begun p) (ha : Answered p r) :
    RoundDone p (requestedRange p r.maxMessageSize) (afterRound p r) := by
  obtain ⟨hc,hcov⟩ := mergeAllInto_covered r.answer h.canonical
  have hgap := requestedRange_firstGap h ha.incomplete ha.size
  have hinfo := mergeAllInto_info r.answer p
  obtain ⟨hsize,hparts⟩ := extent_le.mp (le_refl (extent p))
  obtain ⟨hsize',hparts'⟩ := extent_le.mp (le_refl (extent (mergeAllInto r.answer p)))
  have habsorbs := mergeAllInto_absorbs r.answer h.canonical
  refine ⟨⟨hc,fun hnil => ?_,?_⟩,le_antisymm ?_ ?_,?_⟩
  · obtain ⟨part,hpart⟩ := List.exists_mem_of_ne_nil _ h.begun
    obtain ⟨part',hpart',-⟩ := habsorbs part hpart
    have hnil' : (mergeAllInto r.answer p).doneParts = [] := hnil
    rw [hnil'] at hpart'
    cases hpart'
  · rw [afterRound, hinfo]
    exact h.sized
  · refine extent_le.mpr ⟨?_,?_⟩
    · rw [afterRound, hinfo]
      exact hsize
    · exact mergeAllInto_top r.answer h.canonical hparts
        (fun f hf => (ha.answers.inside f hf).trans (hgap.le_extent h.canonical))
  · refine extent_le.mpr ⟨?_,fun part hpart => ?_⟩
    · rw [← hinfo]
      exact hsize'
    · obtain ⟨part',hpart',hle⟩ := habsorbs part hpart
      exact hle.trans (hparts' part' hpart')
  · exact hcov.trans (by rw [ha.answers.exactly])

/-- The requested bytes are missing before the round and no more after it. -/
theorem round_missing (h : Begun p) (ha : Answered p r) :
    Set.Ico (requestedRange p r.maxMessageSize).1 (requestedRange p r.maxMessageSize).2 ⊆
        missing p ∧
      missing (afterRound p r) = missing p \
        Set.Ico (requestedRange p r.maxMessageSize).1 (requestedRange p r.maxMessageSize).2 := by
  have hgap := requestedRange_firstGap h ha.incomplete ha.size
  have hdone := afterRound_done h ha
  constructor
  · rintro x ⟨hl,hr⟩
    exact ⟨hr.trans_le (hgap.le_extent h.canonical),hgap.missing x hl hr⟩
  · ext x
    simp only [missing, hdone.extent, hdone.received, Set.mem_ofPred_eq, Set.mem_union,
      Set.mem_sdiff, not_or, and_assoc]

theorem round_lowers (h : Begun p) (ha : Answered p r) :
    (missing (afterRound p r)).ncard < (missing p).ncard := by
  obtain ⟨hsub,hless⟩ := round_missing h ha
  have hgap := requestedRange_firstGap h ha.incomplete ha.size
  have hfirst := hsub ⟨le_refl _,hgap.nonempty⟩
  refine Set.ncard_lt_ncard ⟨?_,fun hback => ?_⟩ (missing_finite p)
  · rw [hless]
    exact Set.sdiff_subset
  · have hin := hback hfirst
    rw [hless] at hin
    exact hin.2 ⟨le_refl _,hgap.nonempty⟩

theorem rounds_kept (h : Begun p) (hs : Steps afterRound Answered p rounds) :
    Begun (run afterRound p rounds) ∧ extent (run afterRound p rounds) = extent p := by
  induction rounds generalizing p with
  | nil => exact ⟨h,rfl⟩
  | cons r rounds ih =>
    have hdone := afterRound_done h hs.1
    obtain ⟨hbegun,hextent⟩ := ih hdone.begun hs.2
    exact ⟨hbegun,hextent.trans hdone.extent⟩

/-- The requests of the rounds are proper ranges that begin at bytes which were
missing before the rounds. -/
theorem rounds_ranges (h : Begun p) (hs : Steps afterRound Answered p rounds) :
    ∀ range ∈ requests p rounds, range.1 < range.2 ∧ range.1 ∉ covered p.doneParts := by
  induction rounds generalizing p with
  | nil => exact fun range hrange => by cases hrange
  | cons r rounds ih =>
    have hdone := afterRound_done h hs.1
    have hgap := requestedRange_firstGap h hs.1.incomplete hs.1.size
    intro range hrange
    rcases List.mem_cons.mp hrange with rfl | hrange
    · exact ⟨hgap.nonempty,hgap.missing _ (le_refl _) hgap.nonempty⟩
    · obtain ⟨hlt,hout⟩ := ih hdone.begun hs.2 range hrange
      rw [hdone.received] at hout
      exact ⟨hlt,fun hin => hout (Or.inl hin)⟩

theorem rounds_received (h : Begun p) (hs : Steps afterRound Answered p rounds) :
    covered (run afterRound p rounds).doneParts =
      covered p.doneParts ∪ covered (requests p rounds) := by
  induction rounds generalizing p with
  | nil => rw [requests, covered_nil, Set.union_empty, run]
  | cons r rounds ih =>
    have hdone := afterRound_done h hs.1
    rw [run, ih hdone.begun hs.2, requests, covered_cons, hdone.received, Set.union_assoc]

theorem rounds_asked (h : Begun p) (hs : Steps afterRound Answered p rounds) :
    covered (requests p rounds) ⊆ missing p := by
  induction rounds generalizing p with
  | nil => simp [requests]
  | cons r rounds ih =>
    obtain ⟨hsub,hless⟩ := round_missing h hs.1
    have hrest := ih (afterRound_done h hs.1).begun hs.2
    rw [hless] at hrest
    rw [requests, covered_cons]
    exact Set.union_subset hsub (hrest.trans Set.sdiff_subset)

/-- A later request begins at a byte that is missing then, so not below what
was asked before. -/
theorem rounds_ascending (h : Begun p) (hs : Steps afterRound Answered p rounds) :
    (requests p rounds).Pairwise (fun range range' => range.2 ≤ range'.1) := by
  induction rounds generalizing p with
  | nil => exact List.Pairwise.nil
  | cons r rounds ih =>
    have hdone := afterRound_done h hs.1
    have hgap := requestedRange_firstGap h hs.1.incomplete hs.1.size
    refine List.pairwise_cons.mpr ⟨fun range hrange => ?_,ih hdone.begun hs.2⟩
    have hnext := (rounds_ranges hdone.begun hs.2 range hrange).2
    by_contra hlt
    refine hnext ?_
    rw [hdone.received]
    rcases Nat.lt_or_ge range.1 (requestedRange p r.maxMessageSize).1 with hlow | hhigh
    · exact Or.inl (hgap.first _ hlow)
    · exact Or.inr ⟨hhigh,not_le.mp hlt⟩

theorem rounds_fill (h : Begun p) (hs : Steps afterRound Answered p rounds) :
    Filling p rounds := by
  obtain ⟨hbegun,hextent⟩ := rounds_kept h hs
  have hreceived := rounds_received h hs
  have hasked := rounds_asked h hs
  refine ⟨?_,rounds_ascending h hs,hasked,hreceived,exists_answered hbegun,fun hdone => ?_,
    extent_eq⟩
  · have hlen := length_of_lowers (fun q => (missing q).ncard)
      (fun _ _ h ha => (afterRound_done h ha).begun) (fun _ _ h ha => round_lowers h ha) h hs
    exact (Nat.le_add_right _ _).trans hlen
  · obtain ⟨fin,hparts,hle⟩ := (complete_iff hbegun.begun hbegun.sized).mp hdone
    have hfin : extent p = fin := by
      rw [← hextent, extent, hparts]
      simpa using hle
    refine ⟨Set.Subset.antisymm hasked fun x hx => ?_,by rw [hfin, hparts]⟩
    have hin : x ∈ covered (run afterRound p rounds).doneParts := by
      rw [hparts, covered_cons, covered_nil, Set.union_empty, ← hfin]
      exact ⟨Nat.zero_le x,hx.1⟩
    rw [hreceived] at hin
    exact hin.resolve_left hx.2

/-- What merging fragments passes on lies in them, and with what was received
before it covers them. -/
theorem mergeAllInto_passed {τ : Type} [TargetBlobIo τ] (fragments : List ReceivedFragment)
    {p : PendingBlob (PassedLog τ)} (hc : Canonical p.doneParts) :
    ∃ passed, (mergeAllInto fragments p).io.passed = p.io.passed ++ passed ∧
      covered (ranges passed) ⊆ covered (fragments.map part) ∧
      covered (fragments.map part) ⊆ covered p.doneParts ∪ covered (ranges passed) := by
  induction fragments generalizing p with
  | nil => exact ⟨[],(List.append_nil _).symm,by simp [ranges],by simp⟩
  | cons f fragments ih =>
    obtain ⟨passed,hpassed,hsub,hcov⟩ := ih (mergeInto_canonical (f := f) hc)
    have hsplit : covered ((f::fragments).map part) =
        covered [f.part] ∪ covered (fragments.map part) := by
      rw [List.map_cons, ← covered_append]
      rfl
    have hpart : covered [f.part] = Set.Ico f.bgn (f.bgn+f.fragment.length) := by
      rw [covered_cons, covered_nil, Set.union_empty]
      rfl
    refine ⟨pieces f.bgn (f.bgn+f.fragment.length) f.fragment p.doneParts ++ passed,?_,?_,?_⟩
    · rw [← List.append_assoc, ← mergeInto_passed hc]
      exact hpassed
    · rw [ranges, List.map_append, covered_append, hsplit, hpart]
      exact Set.union_subset_union (pieces_covered hc) hsub
    · rw [mergeInto_covered hc] at hcov
      rw [ranges, List.map_append, covered_append, hsplit]
      refine Set.union_subset ?_ ?_
      · rw [hpart]
        exact (fragment_covered hc).trans
          (Set.union_subset_union_right _ Set.subset_union_left)
      · refine hcov.trans ?_
        rintro x ((hx | hx) | hx)
        · exact Or.inl hx
        · rw [hpart] at hx
          exact (fragment_covered hc hx).imp_right Or.inl
        · exact Or.inr (Or.inr hx)

/-- A round passes exactly the requested bytes to the target. -/
theorem round_passed {τ : Type} [TargetBlobIo τ] {p : PendingBlob (PassedLog τ)} (h : Begun p)
    (ha : Answered p r) : ∃ passed, (afterRound p r).io.passed = p.io.passed ++ passed ∧
      covered (ranges passed) =
        Set.Ico (requestedRange p r.maxMessageSize).1 (requestedRange p r.maxMessageSize).2 := by
  obtain ⟨passed,hpassed,hsub,hcov⟩ := mergeAllInto_passed r.answer h.canonical
  rw [ha.answers.exactly] at hsub hcov
  refine ⟨passed,hpassed,Set.Subset.antisymm hsub fun x hx => ?_⟩
  have hgap := requestedRange_firstGap h ha.incomplete ha.size
  exact (hcov hx).resolve_left (hgap.missing x hx.1 hx.2)

end Rounds

/-! ## Reachable blobs -/

section Reachable

open ReceiverRun ManipulatorRules

variable {ς τ : Type} [SourceBlobIo ς] [TargetBlobIo τ]

def AllCanonical (s : Receiver ς τ) : Prop :=
  ∀ p ∈ s.manipulator.incoming, Canonical p.doneParts

theorem step_canonical {s : Receiver ς τ} (e : Event τ) (h : AllCanonical s) :
    AllCanonical (ReceiverRun.step s e) := by
  intro q hq
  rcases mem_step hq with ⟨p,hp,hr⟩ | hu | ⟨clk,getIo,f,pos,p,rfl,hs,rfl⟩
  · rw [hr.done]
    exact h p hp
  · rw [hu.done]
    exact canonical_nil
  · have hc : Canonical p.doneParts := by
      rcases mergeSite_cases hs with ⟨p₀,hp,-,-,rfl⟩ | ⟨p₀,-,-,hp,-,rfl⟩ | ⟨io,-,-,-,rfl⟩
      · exact h p₀ (List.mem_of_getElem? hp)
      · exact h p₀ (List.mem_of_getElem? hp)
      · exact canonical_nil
    have hmerged := mergeFragment_done p clk.now f.offset f.fragment hc
    exact hmerged ▸ insert_canonical _ _ (Nat.le_add_right _ _) _ hc

/-- The requests for the incomplete blobs of a receiver name the front of the
first gap, and answering them fills the blob. -/
structure RequestsFill (s : Receiver ς τ) : Prop where
  gap : ∀ p ∈ s.manipulator.incoming, p.doneParts ≠ [] → p.info.totalSize ≠ 0 →
    p.receivedEverything = false → ∀ maxMessageSize, 2 ≤ maxMessageSize →
      FirstGap p.doneParts p.info.totalSize maxMessageSize (requestedRange p maxMessageSize)
  rounds : ∀ p ∈ s.manipulator.incoming, p.doneParts ≠ [] → p.info.totalSize ≠ 0 →
    ∀ rounds, Steps afterRound Answered p rounds → Filling p rounds
  sends : ∀ ser clk doSend maxMessageSize,
    ∀ a ∈ (s.manipulator.update ser clk doSend maxMessageSize).sends,
      ∃ p ∈ s.manipulator.incoming, p.doneParts ≠ [] ∧
        a.message =
          { targetId := p.info.sourceId
            data := ser.resend.encode (p.sourceBlobId,requestedRange p maxMessageSize) }

theorem canonical_requestsFill {s : Receiver ς τ} (h : AllCanonical s) : RequestsFill s where
  gap := fun p hp hbegun hsized hinc _ hmax =>
    requestedRange_firstGap ⟨h p hp,hbegun,hsized⟩ hinc hmax
  rounds := fun p hp hbegun hsized _ hs => rounds_fill ⟨h p hp,hbegun,hsized⟩ hs
  sends := by
    intro ser clk doSend maxMessageSize a ha
    obtain ⟨p,hp,hask,-,hmessage⟩ :=
      (update_cases s.manipulator ser clk doSend maxMessageSize).2.1 a ha
    refine ⟨p,hp,fun hnil => ?_,hmessage⟩
    rw [shouldRequestResend, hnil] at hask
    cases hask

/-- In every run of a receiver, whatever fragments of whatever blobs arrive, a
request for an incomplete blob names the front of its first gap, and the
answers fill it in a bounded number of rounds. -/
theorem requests_fill_gaps (fragmentMsgId resendMsgId prepareMsgId : MessageId)
    (es : List (Event τ)) :
    Always ReceiverRun.step RequestsFill
      (start ς τ fragmentMsgId resendMsgId prepareMsgId) es := by
  exact always_mono (fun _ h => canonical_requestsFill h)
    (always_of_kept (fun _ e h => step_canonical e h) es (fun p hp => by cases hp))

end Reachable

end MsgBus.ResendRange
