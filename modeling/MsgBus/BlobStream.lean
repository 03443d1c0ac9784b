import Mathlib.Order.Interval.Set.LinearOrder
import MsgBus.Lib.StepRun
import MsgBus.FragmentMerge

/-!
# Streams of blob data

A stream target hands on what follows the data handed on before and holds back
the rest. It keeps up with the interval list as long as the held back pieces
do not overlap. They do overlap when a fragment reaches beyond the first
received interval it meets into a further one: what the merge stores behind
the first interval repeats what is already held back.
-/

set_option autoImplicit false

namespace MsgBus.BlobStream

open IntervalList ByteBlock FragmentMerge BlobStreamIo

def chunks (io : BlobStreamIo) : List BlobStreamChunk :=
  io.signals.filterMap (fun
    | .dataAppended chunk => some chunk
    | _ => none)

/-- All data handed on so far. -/
def appended (io : BlobStreamIo) : Block := ((chunks io).map (fun c => c.data.flatten)).flatten

/-- Each chunk starts where the data before it ended. -/
def Consecutive : ℕ → List BlobStreamChunk → Prop
  | _, [] => True
  | n, c::cs => c.offset = n ∧ Consecutive (n+c.data.flatten.length) cs

instance decidableConsecutive : (n : ℕ) → (cs : List BlobStreamChunk) →
    Decidable (Consecutive n cs)
  | _, [] => inferInstanceAs (Decidable True)
  | n, c::cs =>
    haveI := decidableConsecutive (n+c.data.flatten.length) cs
    inferInstanceAs (Decidable (_ ∧ _))

/-- The end of the received interval that starts at the front of the blob. -/
def frontEnd : List Part → ℕ
  | [] => 0
  | (bgn,fin)::_ => if bgn = 0 then fin else 0

/-- The blob is handed on up to the end of its front interval, in order and
without gaps, and as a whole when it is complete. -/
structure InOrder (content : Block) (p : PendingBlob BlobStreamIo) : Prop where
  front : appended p.io = content.take (frontEnd p.doneParts)
  offsets : Consecutive 0 (chunks p.io)
  complete : p.receivedEverything = true → appended p.io = content

theorem consecutive_append (n : ℕ) (cs : List BlobStreamChunk) (c : BlobStreamChunk) :
    Consecutive n (cs++[c]) ↔ Consecutive n cs ∧
      c.offset = n+((cs.map (fun c => c.data.flatten)).flatten).length := by
  induction cs generalizing n with
  | nil => simp [Consecutive]
  | cons d cs ih => simp [Consecutive, ih, and_assoc, Nat.add_assoc]

/-- The held back pieces, first to last, without overlap. -/
def Spaced (es : List (ℕ × Block)) : Prop := es.Pairwise (fun a b => a.1+a.2.length ≤ b.1)

/-- The target has handed on the places below `offsDone` and holds back the
other stored places. -/
structure Holds (content : Block) (io : BlobStreamIo) (s : Set ℕ) : Prop where
  front : appended io = content.take io.offsDone
  bound : io.offsDone ≤ content.length
  offsets : Consecutive 0 (chunks io)
  slices : ∀ e ∈ io.unmerged.entries, Slice content e.1 e.2 ∧ e.2 ≠ []
  ahead : ∀ e ∈ io.unmerged.entries, io.offsDone < e.1
  spaced : Spaced io.unmerged.entries
  places : s = Set.Ico 0 io.offsDone ∪ covered (ranges io.unmerged.entries)

theorem holds_fresh (content : Block) (blobId : BlobId) :
    Holds content (makeTargetBlobStreamIo blobId) ∅ := by
  constructor <;>
    simp [makeTargetBlobStreamIo, appended, chunks, Consecutive, OrderedMap.empty, Spaced, ranges]

theorem chunks_append (io : BlobStreamIo) (offset : ℕ) (data : List Block) (info : BlobInfo) :
    chunks (io.append offset data info) = chunks io ++ [⟨io.blobId,offset,data,info⟩] := by
  simp [chunks, append, emit]

theorem appended_append (io : BlobStreamIo) (offset : ℕ) (data : List Block) (info : BlobInfo) :
    appended (io.append offset data info) = appended io ++ data.flatten := by
  simp [appended, chunks_append]

/-- What is handed on next starts where the data before it ended. -/
theorem offsets_append {content : Block} {io : BlobStreamIo} (data : List Block) (info : BlobInfo)
    (hf : appended io = content.take io.offsDone) (hb : io.offsDone ≤ content.length)
    (ho : Consecutive 0 (chunks io)) :
    Consecutive 0 (chunks (io.append io.offsDone data info)) := by
  have hl := congrArg List.length hf
  rw [List.length_take_of_le hb] at hl
  rw [chunks_append, consecutive_append]
  exact ⟨ho,by rw [Nat.zero_add]; exact hl.symm⟩

/-- The pieces taken over are the front of the held back ones; they follow
each other, and the next one does not follow. -/
theorem consecutive_spec (content : Block) (fin : ℕ) (es : List (ℕ × Block)) (hs : Spaced es)
    (hfin : ∀ e ∈ es, fin ≤ e.1) (hsl : ∀ e ∈ es, Slice content e.1 e.2 ∧ e.2 ≠ [])
    (hb : fin ≤ content.length) :
    content.take fin ++ (consecutive fin es).1.flatten = content.take (consecutive fin es).2 ∧
    fin ≤ (consecutive fin es).2 ∧ (consecutive fin es).2 ≤ content.length ∧
    (∀ e ∈ es.drop (consecutive fin es).1.length, (consecutive fin es).2 < e.1) ∧
    Set.Ico fin (consecutive fin es).2 ∪ covered (ranges (es.drop (consecutive fin es).1.length)) =
      covered (ranges es) := by
  induction es generalizing fin with
  | nil => simp [consecutive, ranges, hb]
  | cons e es ih =>
    obtain ⟨hlt,hes⟩ := List.pairwise_cons.mp hs
    have he := hfin e (by simp)
    obtain ⟨hslice,hne⟩ := hsl e (by simp)
    rw [consecutive]
    split
    · rename_i hgap
      refine ⟨by simp,le_rfl,hb,?_,by simp⟩
      intro d hd
      have hpos := List.length_pos_of_ne_nil hne
      rcases List.mem_cons.mp hd with rfl | hd
      · omega
      · have := hlt d hd
        omega
    · rename_i hnext
      obtain rfl : e.1 = fin := not_not.mp hnext
      obtain ⟨htake,hle,hbound,hahead,hcov⟩ := ih (e.1+e.2.length) hes hlt
        (fun d hd => hsl d (List.mem_cons_of_mem _ hd)) (slice_bound hslice hne)
      dsimp only
      refine ⟨?_,by omega,hbound,hahead,?_⟩
      · rw [List.flatten_cons, ← List.append_assoc, take_append_slice hslice, htake]
      · simp only [List.length_cons, List.drop_succ_cons]
        have hr : ranges (e::es) = (e.1,e.1+e.2.length)::ranges es := rfl
        rw [hr, covered_cons, ← hcov, ← Set.union_assoc,
          Set.Ico_union_Ico_eq_Ico (Nat.le_add_right _ _) hle]

/-- A block that overlaps none of the pieces keeps them spaced. -/
theorem assign_spaced (k : ℕ) (v : Block) (es : List (ℕ × Block)) (hs : Spaced es)
    (hv : v ≠ []) (h : ∀ e ∈ es, e.2 ≠ [] ∧ (e.1+e.2.length ≤ k ∨ k+v.length ≤ e.1)) :
    Spaced (OrderedMap.assignIn k v es) ∧
    covered (ranges (OrderedMap.assignIn k v es)) =
      Set.Ico k (k+v.length) ∪ covered (ranges es) := by
  have hpos := List.length_pos_of_ne_nil hv
  induction es with
  | nil => simp [OrderedMap.assignIn, Spaced, ranges]
  | cons d es ih =>
    obtain ⟨hd,hes⟩ := List.pairwise_cons.mp hs
    obtain ⟨hne,hapart⟩ := h d (by simp)
    have hdpos := List.length_pos_of_ne_nil hne
    obtain ⟨hsp,hcov⟩ := ih hes (fun e he => h e (List.mem_cons_of_mem _ he))
    rw [OrderedMap.assignIn]
    split_ifs with h1 h2
    · refine ⟨List.pairwise_cons.mpr ⟨?_,hs⟩,by simp [ranges]⟩
      intro e he
      rcases List.mem_cons.mp he with rfl | he
      · simp only
        omega
      · have := hd e he
        simp only
        omega
    · refine ⟨List.pairwise_cons.mpr ⟨?_,hsp⟩,?_⟩
      · intro e he
        rcases OrderedMap.mem_assignIn he with rfl | he
        · simp only
          omega
        · exact hd e he
      · have hr : ∀ es, ranges (d::es) = (d.1,d.1+d.2.length)::ranges es := fun _ => rfl
        rw [hr, hr, covered_cons, covered_cons, hcov]
        exact Set.union_left_comm _ _ _
    · omega

section Store

variable {content : Block} {io : BlobStreamIo} {s : Set ℕ} {offs : ℕ} {src : Block}

theorem entry_places (h : Holds content io s) {e : ℕ × Block} (he : e ∈ io.unmerged.entries) :
    Set.Ico e.1 (e.1+e.2.length) ⊆ s := by
  rw [h.places]
  exact fun x hx => Or.inr ⟨_,List.mem_map_of_mem he,hx.1,hx.2⟩

/-- A block outside of the stored places starts behind what was handed on and
overlaps no held back piece. -/
theorem outside_entries (h : Holds content io s) (hn : src ≠ [])
    (hd : Disjoint s (Set.Ico offs (offs+src.length))) :
    io.offsDone ≤ offs ∧ ∀ e ∈ io.unmerged.entries,
      e.2 ≠ [] ∧ (e.1+e.2.length ≤ offs ∨ offs+src.length ≤ e.1) := by
  have hpos := List.length_pos_of_ne_nil hn
  have hfirst : offs ∉ s := fun hx => Set.disjoint_left.mp hd hx ⟨le_rfl,by omega⟩
  constructor
  · by_contra hlt
    exact hfirst (h.places ▸ Or.inl ⟨Nat.zero_le _,not_le.mp hlt⟩)
  · intro e he
    have hepos := List.length_pos_of_ne_nil (h.slices e he).2
    refine ⟨(h.slices e he).2,?_⟩
    by_contra hno
    obtain ⟨h1,h2⟩ := not_or.mp hno
    rcases le_or_gt e.1 offs with hle | hgt
    · exact hfirst (entry_places h he ⟨hle,by omega⟩)
    · exact Set.disjoint_left.mp hd (entry_places h he ⟨le_rfl,by omega⟩) ⟨hgt.le,by omega⟩

theorem holds_store (info : BlobInfo) (h : Holds content io s) (hs : Slice content offs src)
    (hn : src ≠ []) (hd : Disjoint s (Set.Ico offs (offs+src.length))) :
    Holds content (io.storeFragment offs src info) (s ∪ Set.Ico offs (offs+src.length)) := by
  obtain ⟨hle,hout⟩ := outside_entries h hn hd
  have hb := slice_bound hs hn
  rw [BlobStreamIo.storeFragment]
  split
  · rename_i hnext
    subst hnext
    split
    · rename_i hempty
      have hnil : io.unmerged.entries = [] := List.isEmpty_iff.mp hempty
      refine ⟨?_,hb,offsets_append _ info h.front h.bound h.offsets,h.slices,?_,h.spaced,?_⟩
      · change appended (io.append _ _ _) = _
        rw [appended_append, h.front, List.flatten_cons, List.flatten_nil, List.append_nil,
          take_append_slice hs]
      · intro e he
        change e ∈ io.unmerged.entries at he
        rw [hnil] at he
        cases he
      · change _ = Set.Ico 0 (io.offsDone+src.length) ∪ covered (ranges io.unmerged.entries)
        rw [h.places, hnil, ← Set.Ico_union_Ico_eq_Ico (Nat.zero_le _) (Nat.le_add_right _ _),
          Set.union_right_comm]
    · have hfin : ∀ e ∈ io.unmerged.entries, io.offsDone+src.length ≤ e.1 := by
        intro e he
        have := h.ahead e he
        rcases (hout e he).2 with h1 | h1
        · omega
        · exact h1
      obtain ⟨htake,hge,hbound,hahead,hcov⟩ := consecutive_spec content (io.offsDone+src.length)
        io.unmerged.entries h.spaced hfin h.slices hb
      refine ⟨?_,hbound,offsets_append _ info h.front h.bound h.offsets,
        fun e he => h.slices e (List.mem_of_mem_drop he),hahead,
        h.spaced.sublist (List.drop_sublist _ _),?_⟩
      · change appended (io.append _ _ _) = _
        rw [appended_append, h.front, List.flatten_cons, ← List.append_assoc,
          take_append_slice hs]
        exact htake
      · change _ = Set.Ico 0 (consecutive _ _).2 ∪ covered (ranges (io.unmerged.entries.drop _))
        rw [← Set.Ico_union_Ico_eq_Ico (Nat.zero_le (io.offsDone+src.length)) hge, Set.union_assoc,
          hcov, h.places, ← Set.Ico_union_Ico_eq_Ico (Nat.zero_le _) (Nat.le_add_right _ _),
          Set.union_right_comm]
  · rename_i hgap
    obtain ⟨hsp,hcov⟩ := assign_spaced offs src io.unmerged.entries h.spaced hn hout
    refine ⟨h.front,h.bound,h.offsets,?_,?_,hsp,?_⟩
    · intro e he
      rcases OrderedMap.mem_assignIn he with rfl | he
      · exact ⟨hs,hn⟩
      · exact h.slices e he
    · intro e he
      rcases OrderedMap.mem_assignIn he with rfl | he
      · exact lt_of_le_of_ne hle (Ne.symm hgap)
      · exact h.ahead e he
    · change _ = Set.Ico 0 io.offsDone ∪ covered (ranges (OrderedMap.assignIn _ _ _))
      rw [hcov, h.places, Set.union_assoc, Set.union_comm (covered _)]

end Store

section Run

/-- A fragment and the time of its arrival. -/
structure Arrival where
  now : ℕ
  bgn : ℕ
  fragment : Block
  deriving DecidableEq, Repr

def step (p : PendingBlob BlobStreamIo) (a : Arrival) : PendingBlob BlobStreamIo :=
  (p.mergeFragment a.now a.bgn a.fragment).2

/-- A pending blob of this content before its first fragment. -/
def start (content : Block) (msgId : MessageId) (info : BlobInfo) (blobId : BlobId) :
    PendingBlob BlobStreamIo where
  msgId := msgId
  info := { info with totalSize := content.length }
  io := makeTargetBlobStreamIo blobId

/-- The fragment is a nonempty part of the content. -/
def PartOf (content : Block) (a : Arrival) : Prop :=
  a.fragment ≠ [] ∧ a.fragment = (content.drop a.bgn).take a.fragment.length

instance (content : Block) (a : Arrival) : Decidable (PartOf content a) :=
  inferInstanceAs (Decidable (_ ∧ _))

/-- The fragment overlaps no received interval but the first one that it
overlaps or touches. -/
def ReachesOne (p : PendingBlob BlobStreamIo) (a : Arrival) : Prop :=
  ∀ q ∈ p.doneParts, ∀ r ∈ p.doneParts, a.bgn ≤ q.2 → q.2 < r.1 →
    a.bgn+a.fragment.length ≤ r.1

instance (p : PendingBlob BlobStreamIo) (a : Arrival) : Decidable (ReachesOne p a) :=
  inferInstanceAs (Decidable (∀ q ∈ p.doneParts, ∀ r ∈ p.doneParts, a.bgn ≤ q.2 → q.2 < r.1 →
    a.bgn+a.fragment.length ≤ r.1))

structure Inv (content : Block) (p : PendingBlob BlobStreamIo) : Prop where
  totalSize : p.info.totalSize = content.length
  canonical : Canonical p.doneParts
  holds : Holds content p.io (covered p.doneParts)

theorem inv_start (content : Block) (msgId : MessageId) (info : BlobInfo) (blobId : BlobId) :
    Inv content (start content msgId info blobId) :=
  ⟨rfl,canonical_nil,by
    change Holds content _ (covered [])
    rw [covered_nil]
    exact holds_fresh content blobId⟩

variable {content : Block} {p : PendingBlob BlobStreamIo} {a : Arrival}

theorem part_slice (h : PartOf content a) : Slice content a.bgn a.fragment := by
  rw [h.2]
  exact slice_of_take _ _ _

theorem inv_step (h : Inv content p) (hp : PartOf content a) (hone : ReachesOne p a) :
    Inv content (step p a) := by
  have hdone : (step p a).doneParts =
      insertInterval a.bgn (a.bgn+a.fragment.length) p.doneParts := by
    rw [step, mergeFragment_eq p a.now a.bgn a.fragment h.canonical]
    rfl
  have hio : (step p a).io = runIo p.info p.io
      (mergeCalls a.bgn (a.bgn+a.fragment.length) a.fragment false p.doneParts) := by
    rw [step, mergeFragment_eq p a.now a.bgn a.fragment h.canonical]
  have hst := stores_mergeCalls a.bgn (a.bgn+a.fragment.length) a.fragment p.doneParts
    (Nat.le_add_right _ _) h.canonical
  have hslice := part_slice hp
  refine ⟨h.totalSize,?_,?_⟩
  · rw [hdone]
    exact insert_canonical _ _ (Nat.le_add_right _ _) _ h.canonical
  · rw [hdone, hio, covered_merge h.canonical, ← hst]
    apply runIo_disjoint (Holds content) p.info _ (fun _ _ _ _ hh => hh)
    · intro io s d hd hdis hh
      rw [hst] at hd
      exact holds_store p.info hh (pieces_slice h.canonical hslice hd)
        (pieces_ne_nil h.canonical hp.1 hd) hdis
    · rw [hst]
      exact pieces_pairwise_disjoint h.canonical
    · intro d hd
      rw [hst] at hd
      exact pieces_disjoint h.canonical hone hd
    · exact h.holds

/-- The target has handed on exactly the front interval. -/
theorem front_offsDone (h : Inv content p) : frontEnd p.doneParts = p.io.offsDone := by
  have hplaces := h.holds.places
  have hoffs : p.io.offsDone ∉ covered p.doneParts := by
    rw [hplaces]
    rintro (hx | ⟨r,hr,hl,_⟩)
    · exact lt_irrefl _ hx.2
    · obtain ⟨e,he,rfl⟩ := List.mem_map.mp hr
      exact absurd hl (not_le.mpr (h.holds.ahead e he))
  have hin : Set.Ico 0 p.io.offsDone ⊆ covered p.doneParts :=
    hplaces ▸ Set.subset_union_left
  have hfront : Set.Ico 0 (frontEnd p.doneParts) ⊆ covered p.doneParts ∧
      frontEnd p.doneParts ∉ covered p.doneParts := by
    have hc := h.canonical
    match hd : p.doneParts with
    | [] => simp [frontEnd]
    | (bgn,fin)::ps =>
      rw [hd] at hc
      obtain ⟨hle,hlt,hps⟩ := canonical_cons.mp hc
      by_cases hz : bgn = 0
      · subst hz
        refine ⟨by simp [frontEnd],?_⟩
        exact end_not_covered hc (p := (0,fin)) (by simp)
      · refine ⟨by simp [frontEnd, hz],?_⟩
        rw [frontEnd, if_neg hz]
        rintro ⟨q,hq,hl,_⟩
        rcases List.mem_cons.mp hq with rfl | hq
        · exact hz (Nat.le_zero.mp hl)
        · have := hlt q hq
          omega
  apply le_antisymm
  · by_contra hlt
    exact hoffs (hfront.1 ⟨Nat.zero_le _,not_le.mp hlt⟩)
  · by_contra hlt
    exact hfront.2 (hin ⟨Nat.zero_le _,not_le.mp hlt⟩)

theorem inv_inOrder (h : Inv content p) (hs : p.doneParts ≠ []) : InOrder content p := by
  have hfront : appended p.io = content.take (frontEnd p.doneParts) := by
    rw [front_offsDone h, h.holds.front]
  refine ⟨hfront,h.holds.offsets,?_⟩
  intro he
  rw [PendingBlob.receivedEverything] at he
  match hd : p.doneParts with
  | [] => exact absurd hd hs
  | [(bgn,fin)] =>
    rw [hd] at he hfront
    simp only [Bool.decide_and, Bool.and_eq_true, decide_eq_true_eq] at he
    obtain ⟨rfl,_,hfin⟩ := he
    rw [h.totalSize] at hfin
    rw [hfront, frontEnd, if_pos rfl, List.take_of_length_le hfin]
  | _::_::_ =>
    rw [hd] at he
    simp at he

/-- After each fragment of a run whose fragments reach one received interval
at most, the data is in order. -/
theorem stream_inOrder (content : Block) (msgId : MessageId) (info : BlobInfo) (blobId : BlobId)
    (es : List Arrival)
    (h : StepRun.Steps step (fun p a => PartOf content a ∧ ReachesOne p a)
      (start content msgId info blobId) es) :
    StepRun.Steps step (fun p a => InOrder content (step p a))
      (start content msgId info blobId) es := by
  refine StepRun.steps_of_invariant (fun p a hi hok => inv_step hi hok.1 hok.2) ?_
    (inv_start content msgId info blobId) h
  intro p a hi hok
  refine inv_inOrder (inv_step hi hok.1 hok.2) ?_
  rw [step, mergeFragment_eq p a.now a.bgn a.fragment hi.canonical]
  exact insert_ne_nil _ _ _

def sampleContent : Block := [10,20,30,40,50,60,70,80]

theorem stream_inOrder_late :
    StepRun.Steps step (fun p a => InOrder sampleContent (step p a))
      (start sampleContent (msgbusId .blobFrgmnt) {} 1)
      [⟨0,2,[30]⟩,⟨1,5,[60,70,80]⟩,⟨2,0,[10,20,30,40,50]⟩] :=
  stream_inOrder sampleContent (msgbusId .blobFrgmnt) {} 1
    [⟨0,2,[30]⟩,⟨1,5,[60,70,80]⟩,⟨2,0,[10,20,30,40,50]⟩] (by decide)

/-- The last fragment reaches across the first received interval into the
second: all is received, but the last two bytes are never handed on. -/
theorem stream_stalls :
    ¬ ∀ es, StepRun.Steps step (fun _ a => PartOf sampleContent a)
        (start sampleContent (msgbusId .blobFrgmnt) {} 1) es →
      StepRun.Steps step (fun p a => InOrder sampleContent (step p a))
        (start sampleContent (msgbusId .blobFrgmnt) {} 1) es := by
  intro h
  have hlast := (h [⟨0,2,[30]⟩,⟨1,5,[60,70,80]⟩,⟨2,0,[10,20,30,40,50,60]⟩] (by decide)).2.2.1
  exact absurd (hlast.complete (by decide)) (by decide)

end Run

end MsgBus.BlobStream
