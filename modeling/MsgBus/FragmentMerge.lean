import MsgBus.Lib.IntervalList
import MsgBus.PendingBlob

/-!
# What a merge does to the interval list and to the target

Both merge loops of a pending blob build the canonical insertion of the new
interval. The fragment merge besides calls its target; the calls are listed
here without a target, so that the stored pieces can be read off: each is a
slice of the fragment, starts outside the old intervals, and together with
them the pieces cover the fragment.
-/

set_option autoImplicit false

namespace MsgBus.FragmentMerge

open IntervalList ByteBlock PendingBlob

theorem resend_foldl_above (bgn fin : ℕ) (pre : List Part) (src : List Part)
    (h : ∀ q ∈ src, bgn < q.1 ∧ fin < q.1) :
    src.foldl (PartMerge.resendPart bgn fin) ⟨pre,true⟩ = ⟨pre++src,true⟩ := by
  induction src generalizing pre with
  | nil => simp
  | cons p src ih =>
    have hp := h p (by simp)
    rw [List.foldl_cons]
    have hstep : PartMerge.resendPart bgn fin ⟨pre,true⟩ p = ⟨pre++[p],true⟩ := by
      simp [PartMerge.resendPart, PartMerge.emplaceBack, hp.1, hp.2]
    rw [hstep, ih (pre++[p]) (fun q hq => h q (by simp [hq]))]
    simp

/-- Once placed, the new interval absorbs what it reaches; the interval at
the back of the list is the one under construction. -/
theorem resend_foldl_placed (bgn fin c : ℕ) (pre : List Part) (src : List Part)
    (hc : c ≤ bgn) (hs : Canonical src) (h : ∀ q ∈ src, bgn < q.1) :
    src.foldl (PartMerge.resendPart bgn fin) ⟨pre++[(c,fin)],true⟩ =
      ⟨pre++insertInterval c fin src,true⟩ := by
  induction src generalizing pre with
  | nil => simp [insertInterval]
  | cons p src ih =>
    obtain ⟨hle,hlt,hsrc⟩ := canonical_cons.mp hs
    have hb := h p (by simp)
    have hrest : ∀ q ∈ src, bgn < q.1 := fun q hq => h q (by simp [hq])
    rw [List.foldl_cons]
    by_cases h1 : fin < p.1
    · have hstep : PartMerge.resendPart bgn fin ⟨pre++[(c,fin)],true⟩ p =
          ⟨(pre++[(c,fin)])++[p],true⟩ := by
        simp [PartMerge.resendPart, PartMerge.emplaceBack, hb, h1]
      have hfin : ∀ q ∈ src, fin < q.1 := fun q hq => h1.trans (hle.trans_lt (hlt q hq))
      rw [hstep, resend_foldl_above bgn fin _ src (fun q hq => ⟨hrest q hq,hfin q hq⟩),
        insertInterval, if_pos h1]
      simp
    · have hcp : ¬ p.2 < c := by omega
      have hmin : min c p.1 = c := by omega
      by_cases h2 : fin ≤ p.2
      · have hstep : PartMerge.resendPart bgn fin ⟨pre++[(c,fin)],true⟩ p =
            ⟨pre++[(c,p.2)],true⟩ := by
          simp [PartMerge.resendPart, hb, h1, h2]
        have habove : ∀ q ∈ src, bgn < q.1 ∧ fin < q.1 :=
          fun q hq => ⟨hrest q hq,h2.trans_lt (hlt q hq)⟩
        rw [hstep, resend_foldl_above bgn fin _ src habove, insertInterval, if_neg h1, if_neg hcp,
          hmin, max_eq_right h2, insert_below c p.2 src hlt]
        simp
      · have hstep : PartMerge.resendPart bgn fin ⟨pre++[(c,fin)],true⟩ p =
            ⟨pre++[(c,fin)],true⟩ := by
          simp [PartMerge.resendPart, hb, h1, h2]
        rw [hstep, ih pre hsrc hrest, insertInterval, if_neg h1, if_neg hcp, hmin,
          max_eq_left (by omega)]

theorem resend_foldl (bgn fin : ℕ) (pre : List Part) (src : List Part)
    (hf : bgn ≤ fin) (hs : Canonical src) :
    ((src.foldl (PartMerge.resendPart bgn fin) ⟨pre,false⟩).finish bgn fin).dst =
      pre++insertInterval bgn fin src := by
  induction src generalizing pre with
  | nil => simp [PartMerge.finish, PartMerge.emplaceBack, insertInterval]
  | cons p src ih =>
    obtain ⟨hle,hlt,hsrc⟩ := canonical_cons.mp hs
    rw [List.foldl_cons]
    by_cases hb : bgn < p.1
    · have hrest : ∀ q ∈ src, bgn < q.1 := fun q hq => hb.trans (hle.trans_lt (hlt q hq))
      have hpb : ¬ p.2 < bgn := by omega
      have hmin : min bgn p.1 = bgn := by omega
      by_cases h1 : fin < p.1
      · have hstep : PartMerge.resendPart bgn fin ⟨pre,false⟩ p =
            ⟨(pre++[(bgn,fin)])++[p],true⟩ := by
          simp [PartMerge.resendPart, PartMerge.emplaceBack, PartMerge.placed, hb, h1]
        have hfin : ∀ q ∈ src, fin < q.1 := fun q hq => h1.trans (hle.trans_lt (hlt q hq))
        rw [hstep, resend_foldl_above bgn fin _ src (fun q hq => ⟨hrest q hq,hfin q hq⟩),
          insertInterval, if_pos h1]
        simp
      · by_cases h2 : fin ≤ p.2
        · have hstep : PartMerge.resendPart bgn fin ⟨pre,false⟩ p = ⟨pre++[(bgn,p.2)],true⟩ := by
            simp [PartMerge.resendPart, PartMerge.emplaceBack, PartMerge.placed, hb, h1, h2]
          have habove : ∀ q ∈ src, bgn < q.1 ∧ fin < q.1 :=
            fun q hq => ⟨hrest q hq,h2.trans_lt (hlt q hq)⟩
          rw [hstep, resend_foldl_above bgn fin _ src habove, insertInterval, if_neg h1, if_neg hpb,
            hmin, max_eq_right h2, insert_below bgn p.2 src hlt]
          simp
        · have hstep : PartMerge.resendPart bgn fin ⟨pre,false⟩ p = ⟨pre++[(bgn,fin)],true⟩ := by
            simp [PartMerge.resendPart, PartMerge.emplaceBack, PartMerge.placed, hb, h1, h2]
          rw [hstep, resend_foldl_placed bgn fin bgn pre src le_rfl hsrc hrest, insertInterval,
            if_neg h1, if_neg hpb, hmin, max_eq_left (by omega)]
          simp
    · have h1 : ¬ fin < p.1 := by omega
      by_cases hpb : p.2 < bgn
      · have hstep : PartMerge.resendPart bgn fin ⟨pre,false⟩ p = ⟨pre++[p],false⟩ := by
          simp [PartMerge.resendPart, PartMerge.emplaceBack, hb, not_le.mpr hpb]
        rw [hstep, ih (pre++[p]) hsrc, insertInterval, if_neg h1, if_pos hpb]
        simp
      · have hrest : ∀ q ∈ src, bgn < q.1 := fun q hq => (not_lt.mp hpb).trans_lt (hlt q hq)
        have hmin : min bgn p.1 = p.1 := by omega
        by_cases h2 : fin ≤ p.2
        · have hstep : PartMerge.resendPart bgn fin ⟨pre,false⟩ p = ⟨pre++[p],true⟩ := by
            simp [PartMerge.resendPart, PartMerge.emplaceBack, PartMerge.placed, hb,
              not_lt.mp hpb, h2]
          have habove : ∀ q ∈ src, bgn < q.1 ∧ fin < q.1 :=
            fun q hq => ⟨hrest q hq,h2.trans_lt (hlt q hq)⟩
          rw [hstep, resend_foldl_above bgn fin _ src habove, insertInterval, if_neg h1, if_neg hpb,
            hmin, max_eq_right h2, insert_below p.1 p.2 src hlt]
          simp
        · have hstep : PartMerge.resendPart bgn fin ⟨pre,false⟩ p =
              ⟨pre++[(p.1,fin)],true⟩ := by
            simp [PartMerge.resendPart, PartMerge.emplaceBack, PartMerge.placed, hb,
              not_lt.mp hpb, h2]
          rw [hstep, resend_foldl_placed bgn fin p.1 pre src (by omega) hsrc hrest, insertInterval,
            if_neg h1, if_neg hpb, hmin, max_eq_left (by omega)]
          simp

theorem mergeResendRequest_todo {ι : Type} (p : PendingBlob ι) (bgn fin : ℕ)
    (hf : bgn < if fin = 0 then p.info.totalSize else fin) (hc : Canonical p.todoParts) :
    (p.mergeResendRequest bgn fin).todoParts =
      insertInterval bgn (if fin = 0 then p.info.totalSize else fin) p.todoParts := by
  simp only [PendingBlob.mergeResendRequest, if_pos hf]
  exact resend_foldl bgn _ [] p.todoParts (le_of_lt hf) hc

inductive IoCall where
  | store (offs : ℕ) (src : Block)
  | check (offs : ℕ) (blk : Block)
  deriving DecidableEq, Repr

/-- The calls of one turn of the loop; they do not depend on the answers. -/
def partCalls (bgn fin : ℕ) (fragment : Block) (newDone : Bool) (p : Part) : List IoCall :=
  if bgn < p.1 then
    if fin < p.1 then if !newDone then [.store bgn fragment] else []
    else if fin ≤ p.2 then
      (if newDone then [] else [.store bgn (fragment.take (p.1-bgn))]) ++
        [.check p.1 (fragment.drop (p.1-bgn))]
    else
      (if !newDone then
        [.store bgn (fragment.take (p.1-bgn)),.store p.2 (fragment.drop (p.2-bgn))] else []) ++
        [.check p.1 ((fragment.drop (p.1-bgn)).take (p.2-p.1))]
  else if bgn ≤ p.2 then
    if fin ≤ p.2 then [.check bgn fragment]
    else [.store p.2 (fragment.drop (p.2-bgn)),.check bgn (fragment.take (p.2-bgn))]
  else []

def stores : List IoCall → List (ℕ × Block)
  | [] => []
  | .store offs src::cs => (offs,src)::stores cs
  | .check _ _::cs => stores cs

theorem stores_append (cs ds : List IoCall) : stores (cs++ds) = stores cs ++ stores ds := by
  induction cs with
  | nil => rfl
  | cons c cs ih => cases c <;> simp [stores, ih]

def ranges (ds : List (ℕ × Block)) : List Part := ds.map (fun d => (d.1,d.1+d.2.length))

def partDone (bgn : ℕ) (newDone : Bool) (p : Part) : Bool := newDone || bgn < p.1 || bgn ≤ p.2

def mergeCalls (bgn fin : ℕ) (fragment : Block) : Bool → List Part → List IoCall
  | newDone, [] => if newDone then [] else [.store bgn fragment]
  | newDone, p::ps => partCalls bgn fin fragment newDone p ++
      mergeCalls bgn fin fragment (partDone bgn newDone p) ps

/-- What is stored of a fragment: at most one piece before and one behind the
first old interval that it reaches. -/
def pieces (bgn fin : ℕ) (fragment : Block) : List Part → List (ℕ × Block)
  | [] => [(bgn,fragment)]
  | p::ps =>
    if fin < p.1 then [(bgn,fragment)]
    else if p.2 < bgn then pieces bgn fin fragment ps
    else (if bgn < p.1 then [(bgn,fragment.take (p.1-bgn))] else []) ++
      (if p.2 < fin then [(p.2,fragment.drop (p.2-bgn))] else [])

theorem stores_placed (bgn fin : ℕ) (fragment : Block) (src : List Part)
    (h : ∀ q ∈ src, bgn < q.1) : stores (mergeCalls bgn fin fragment true src) = [] := by
  induction src with
  | nil => simp [mergeCalls, stores]
  | cons p src ih =>
    have hb := h p (by simp)
    rw [mergeCalls, stores_append]
    have hd : partDone bgn true p = true := by simp [partDone]
    rw [hd, ih (fun q hq => h q (by simp [hq])), partCalls, if_pos hb]
    split_ifs <;> simp_all [stores]

theorem stores_mergeCalls (bgn fin : ℕ) (fragment : Block) (src : List Part)
    (hf : bgn ≤ fin) (hs : Canonical src) :
    stores (mergeCalls bgn fin fragment false src) = pieces bgn fin fragment src := by
  induction src with
  | nil => simp [mergeCalls, stores, pieces]
  | cons p src ih =>
    obtain ⟨hle,hlt,hsrc⟩ := canonical_cons.mp hs
    rw [mergeCalls, stores_append, pieces]
    by_cases hp : p.2 < bgn
    · have hd : partDone bgn false p = false := by simp [partDone]; omega
      have hc : partCalls bgn fin fragment false p = [] := by
        rw [partCalls, if_neg (by omega), if_neg (by omega)]
      rw [hd, hc, ih hsrc, if_neg (by omega), if_pos hp]
      rfl
    · have hd : partDone bgn false p = true := by simp [partDone]; omega
      have hrest : ∀ q ∈ src, bgn < q.1 := fun q hq => (not_lt.mp hp).trans_lt (hlt q hq)
      rw [hd, stores_placed bgn fin fragment src hrest, List.append_nil, partCalls]
      by_cases hb : bgn < p.1
      · by_cases h1 : fin < p.1
        · simp [hb, h1, stores]
        · by_cases h2 : fin ≤ p.2
          · simp [hb, h1, h2, hp, stores]
          · simp [hb, h1, h2, hp, stores, not_le.mp h2]
      · have h1 : ¬ fin < p.1 := by omega
        by_cases h2 : fin ≤ p.2
        · simp [hb, h1, h2, hp, stores, not_lt.mp hp]
        · simp [hb, h1, h2, hp, stores, not_lt.mp hp, not_le.mp h2]

/-- The first old interval a fragment reaches decides its pieces. -/
theorem mem_pieces {bgn fin : ℕ} {fragment : Block} {src : List Part} {d : ℕ × Block}
    (hs : Canonical src) (hd : d ∈ pieces bgn fin fragment src) :
    (d = (bgn,fragment) ∧ ∀ p ∈ src, p.2 < bgn ∨ fin < p.1) ∨
    ∃ p ∈ src, (∀ q ∈ src, q.2 < p.1 → q.2 < bgn) ∧ bgn ≤ p.2 ∧ p.1 ≤ fin ∧
      ((bgn < p.1 ∧ d = (bgn,fragment.take (p.1-bgn))) ∨
        (p.2 < fin ∧ d = (p.2,fragment.drop (p.2-bgn)))) := by
  induction src with
  | nil => exact Or.inl ⟨by simpa [pieces] using hd,by simp⟩
  | cons p src ih =>
    obtain ⟨hle,hlt,hsrc⟩ := canonical_cons.mp hs
    rw [pieces] at hd
    split_ifs at hd with h1 h2
    · refine Or.inl ⟨by simpa using hd,?_⟩
      intro q hq
      rcases List.mem_cons.mp hq with rfl | hq
      · exact Or.inr h1
      · exact Or.inr (h1.trans (hle.trans_lt (hlt q hq)))
    · rcases ih hsrc hd with ⟨hd,hr⟩ | ⟨q,hq,hfirst,hr⟩
      · refine Or.inl ⟨hd,?_⟩
        intro q hq
        rcases List.mem_cons.mp hq with rfl | hq
        · exact Or.inl h2
        · exact hr q hq
      · refine Or.inr ⟨q,List.mem_cons_of_mem _ hq,?_,hr⟩
        intro r hr
        rcases List.mem_cons.mp hr with rfl | hr
        · exact fun _ => h2
        · exact hfirst r hr
    all_goals
      refine Or.inr ⟨p,by simp,?_,by omega,by omega,by simp at hd <;> tauto⟩
      intro q hq hqp
      rcases List.mem_cons.mp hq with rfl | hq
      · omega
      · exact absurd hqp (by have := hlt q hq; have := hsrc.1 q hq; omega)

section Pieces

variable {bgn : ℕ} {fragment : Block} {src : List Part} {d : ℕ × Block}

theorem pieces_slice {content : Block} (hc : Canonical src) (hs : Slice content bgn fragment)
    (hd : d ∈ pieces bgn (bgn+fragment.length) fragment src) : Slice content d.1 d.2 := by
  rcases mem_pieces hc hd with ⟨rfl,_⟩ | ⟨p,_,_,hle,_,⟨_,rfl⟩ | ⟨_,rfl⟩⟩
  · exact hs
  · exact slice_take _ _ _ _ hs
  · have h := slice_drop _ _ _ (p.2-bgn) hs
    rwa [Nat.add_sub_cancel' hle] at h

theorem pieces_inside (hc : Canonical src)
    (hd : d ∈ pieces bgn (bgn+fragment.length) fragment src) :
    bgn ≤ d.1 ∧ d.1+d.2.length ≤ bgn+fragment.length := by
  rcases mem_pieces hc hd with ⟨rfl,_⟩ | ⟨p,_,_,hle,_,⟨_,rfl⟩ | ⟨_,rfl⟩⟩
  · exact ⟨le_rfl,le_rfl⟩
  · simp only [List.length_take]
    omega
  · simp only [List.length_drop]
    omega

theorem pieces_ne_nil (hc : Canonical src) (hf : fragment ≠ [])
    (hd : d ∈ pieces bgn (bgn+fragment.length) fragment src) : d.2 ≠ [] := by
  have hpos := List.length_pos_of_ne_nil hf
  apply List.ne_nil_of_length_pos
  rcases mem_pieces hc hd with ⟨rfl,_⟩ | ⟨p,_,_,hle,_,⟨_,rfl⟩ | ⟨_,rfl⟩⟩
  · exact hpos
  · simp only [List.length_take]
    omega
  · simp only [List.length_drop]
    omega

/-- A stored piece starts at a place that was not yet received. -/
theorem pieces_fresh (hc : Canonical src)
    (hd : d ∈ pieces bgn (bgn+fragment.length) fragment src) : d.1 ∉ covered src := by
  rcases mem_pieces hc hd with ⟨rfl,hout⟩ | ⟨p,hp,hfirst,hle,_,⟨hb,rfl⟩ | ⟨_,rfl⟩⟩
  · rintro ⟨q,hq,hl,hr⟩
    have := hout q hq
    simp only at hl hr
    omega
  · rintro ⟨q,hq,hl,hr⟩
    have hskip := hfirst q hq
    simp only at hl hr
    rcases separated hc hp hq with rfl | h | h
    · omega
    · have := hc.1 q hq
      omega
    · omega
  · exact end_not_covered hc hp

/-- Neither of two blocks starts within the other. -/
def Apart (d e : ℕ × Block) : Prop :=
  d.1 ∉ Set.Ico e.1 (e.1+e.2.length) ∧ e.1 ∉ Set.Ico d.1 (d.1+d.2.length)

theorem pieces_apart (hc : Canonical src) :
    (pieces bgn (bgn+fragment.length) fragment src).Pairwise Apart := by
  induction src with
  | nil => simp [pieces]
  | cons p src ih =>
    obtain ⟨hle,_,hsrc⟩ := canonical_cons.mp hc
    rw [pieces]
    split_ifs with h1 h2 h3 h4
    · simp
    · exact ih hsrc
    · simp only [List.cons_append, List.nil_append, List.pairwise_cons, List.mem_singleton,
        forall_eq, Apart, Set.mem_Ico, List.length_take, List.length_drop, List.not_mem_nil,
        false_implies, implies_true, List.Pairwise.nil, and_true]
      omega
    · simp
    · simp
    · simp

theorem pieces_pairwise_disjoint (hc : Canonical src) :
    (pieces bgn (bgn+fragment.length) fragment src).Pairwise (fun d e =>
      Disjoint (Set.Ico d.1 (d.1+d.2.length)) (Set.Ico e.1 (e.1+e.2.length))) := by
  refine (pieces_apart hc).imp ?_
  rintro d e ⟨hd,he⟩
  refine Set.disjoint_left.mpr (fun x hx hx' => ?_)
  simp only [Set.mem_Ico, not_and, not_lt] at hd he hx hx'
  omega

/-- A fragment that overlaps no interval behind the first one it reaches has
only pieces outside of the old intervals. -/
theorem pieces_disjoint (hc : Canonical src)
    (hone : ∀ p ∈ src, ∀ q ∈ src, bgn ≤ p.2 → p.2 < q.1 → bgn+fragment.length ≤ q.1)
    (hd : d ∈ pieces bgn (bgn+fragment.length) fragment src) :
    Disjoint (covered src) (Set.Ico d.1 (d.1+d.2.length)) := by
  refine Set.disjoint_left.mpr ?_
  rintro x ⟨q,hq,hl,hr⟩ ⟨hdl,hdr⟩
  have hi := pieces_inside hc hd
  rcases mem_pieces hc hd with ⟨rfl,hout⟩ | ⟨p,hp,hfirst,hle,_,⟨hb,rfl⟩ | ⟨_,rfl⟩⟩
  · have := hout q hq
    simp only at hdl hdr
    omega
  · have hskip := hfirst q hq
    simp only [List.length_take] at hdl hdr
    rcases separated hc hp hq with rfl | h | h
    · omega
    · have := hc.1 p hp
      omega
    · omega
  · simp only at hdl hdr hi
    rcases separated hc hp hq with rfl | h | h
    · omega
    · have := hone p hp q hq hle h
      omega
    · have := hc.1 p hp
      omega

theorem fragment_covered (hc : Canonical src) :
    Set.Ico bgn (bgn+fragment.length) ⊆
      covered src ∪ covered (ranges (pieces bgn (bgn+fragment.length) fragment src)) := by
  induction src with
  | nil => simp [pieces, ranges]
  | cons p src ih =>
    obtain ⟨hle,hlt,hsrc⟩ := canonical_cons.mp hc
    intro x hx
    have hxl := hx.1
    have hxr := hx.2
    rw [pieces, covered_cons]
    split_ifs with h1 h2 h3 h4 h4
    · exact Or.inr (by simpa [ranges] using hx)
    · rcases ih hsrc hx with h | h
      · exact Or.inl (Or.inr h)
      · exact Or.inr h
    all_goals
      by_cases hin : p.1 ≤ x ∧ x < p.2
      · exact Or.inl (Or.inl hin)
      · refine Or.inr ?_
        simp only [ranges, List.map_append, List.map_cons, List.map_nil, List.append_nil,
          List.nil_append, covered_append, covered_cons, covered_nil, List.length_take,
          List.length_drop, Set.union_empty, Set.mem_union, Set.mem_Ico]
        omega

theorem pieces_covered (hc : Canonical src) :
    covered (ranges (pieces bgn (bgn+fragment.length) fragment src)) ⊆
      Set.Ico bgn (bgn+fragment.length) := by
  rintro x ⟨r,hr,hl,hx⟩
  obtain ⟨d,hd,rfl⟩ := List.mem_map.mp hr
  have hi := pieces_inside hc hd
  exact ⟨hi.1.trans hl,hx.trans_le hi.2⟩

/-- The received places after a merge are the old ones and the stored ones. -/
theorem covered_merge (hc : Canonical src) :
    covered (insertInterval bgn (bgn+fragment.length) src) =
      covered src ∪ covered (ranges (pieces bgn (bgn+fragment.length) fragment src)) := by
  rw [covered_insert _ _ (Nat.le_add_right _ _) _ hc.1]
  apply Set.Subset.antisymm
  · exact Set.union_subset (fragment_covered hc) Set.subset_union_left
  · exact Set.union_subset Set.subset_union_right
      ((pieces_covered hc).trans Set.subset_union_left)

end Pieces

section Target

variable {ι : Type} [TargetBlobIo ι]

def runCall (info : BlobInfo) (io : ι) : IoCall → Bool × ι
  | .store offs src => TargetBlobIo.storeFragment io offs src info
  | .check offs blk => TargetBlobIo.checkStored io offs blk

def runIo (info : BlobInfo) : ι → List IoCall → ι
  | io, [] => io
  | io, c::cs => runIo info (runCall info io c).2 cs

def runOk (info : BlobInfo) : ι → List IoCall → Bool
  | _, [] => true
  | io, c::cs => (runCall info io c).1 && runOk info (runCall info io c).2 cs

theorem runIo_append (info : BlobInfo) (io : ι) (cs ds : List IoCall) :
    runIo info io (cs++ds) = runIo info (runIo info io cs) ds := by
  induction cs generalizing io with
  | nil => rfl
  | cons c cs ih => exact ih _

theorem runOk_append (info : BlobInfo) (io : ι) (cs ds : List IoCall) :
    runOk info io (cs++ds) = (runOk info io cs && runOk info (runIo info io cs) ds) := by
  induction cs generalizing io with
  | nil => rfl
  | cons c cs ih => simp only [List.cons_append, runOk, ih, runIo, Bool.and_assoc]

theorem mergePart_step (info : BlobInfo) (bgn fin : ℕ) (fragment : Block)
    (m : PendingBlob.FragmentMerge ι) (p : Part) :
    PendingBlob.FragmentMerge.mergePart info bgn fin fragment m p =
      ⟨PartMerge.resendPart bgn fin m.toPartMerge p,
        runIo info m.io (partCalls bgn fin fragment m.newDone p),
        m.result && runOk info m.io (partCalls bgn fin fragment m.newDone p)⟩ := by
  obtain ⟨⟨dst,newDone⟩,io,result⟩ := m
  obtain ⟨srcBgn,srcEnd⟩ := p
  by_cases hb : bgn < srcBgn <;> by_cases h1 : fin < srcBgn <;> by_cases h2 : fin ≤ srcEnd <;>
    by_cases hs : bgn ≤ srcEnd <;> cases newDone <;>
    simp [PendingBlob.FragmentMerge.mergePart, PartMerge.resendPart, partCalls, hb, h1, h2, hs,
      PendingBlob.FragmentMerge.emplaceBack, PendingBlob.FragmentMerge.store,
      PendingBlob.FragmentMerge.check, PendingBlob.FragmentMerge.placed, PartMerge.emplaceBack,
      PartMerge.placed, runIo, runOk, runCall, Bool.and_assoc]

theorem resendPart_newDone (bgn fin : ℕ) (m : PartMerge) (p : Part) :
    (PartMerge.resendPart bgn fin m p).newDone = partDone bgn m.newDone p := by
  obtain ⟨dst,newDone⟩ := m
  obtain ⟨srcBgn,srcEnd⟩ := p
  by_cases hb : bgn < srcBgn <;> by_cases h1 : fin < srcBgn <;> by_cases h2 : fin ≤ srcEnd <;>
    by_cases hs : bgn ≤ srcEnd <;> cases newDone <;>
    simp [PartMerge.resendPart, partDone, hb, h1, h2, hs, PartMerge.emplaceBack, PartMerge.placed]

/-- The merge loop splits into the list it builds and the calls it makes. -/
theorem mergeAll_eq (info : BlobInfo) (bgn fin : ℕ) (fragment : Block) (io : ι)
    (src : List Part) :
    PendingBlob.FragmentMerge.mergeAll info bgn fin fragment io src =
      ⟨(src.foldl (PartMerge.resendPart bgn fin) ⟨[],false⟩).finish bgn fin,
        runIo info io (mergeCalls bgn fin fragment false src),
        runOk info io (mergeCalls bgn fin fragment false src)⟩ := by
  have hfold : ∀ (src : List Part) (m : PartMerge) (io : ι) (result : Bool),
      let f := src.foldl (PendingBlob.FragmentMerge.mergePart info bgn fin fragment)
        ⟨m,io,result⟩
      (if !f.newDone then (f.emplaceBack bgn fin).store info bgn fragment else f) =
        ⟨(src.foldl (PartMerge.resendPart bgn fin) m).finish bgn fin,
          runIo info io (mergeCalls bgn fin fragment m.newDone src),
          result && runOk info io (mergeCalls bgn fin fragment m.newDone src)⟩ := by
    intro src
    induction src with
    | nil =>
      rintro ⟨dst,newDone⟩ io result
      cases newDone <;>
        simp [mergeCalls, runIo, runOk, runCall, PendingBlob.FragmentMerge.emplaceBack,
          PendingBlob.FragmentMerge.store]
    | cons p src ih =>
      intro m io result
      simp only [List.foldl_cons, mergePart_step, mergeCalls, runIo_append, runOk_append,
        ← Bool.and_assoc, ← resendPart_newDone bgn fin m p]
      exact ih _ _ _
  have h := hfold src ⟨[],false⟩ io true
  rw [Bool.true_and] at h
  exact h

theorem mergeFragment_eq (p : PendingBlob ι) (now bgn : ℕ) (fragment : Block)
    (hc : Canonical p.doneParts) :
    p.mergeFragment now bgn fragment =
      (runOk p.info p.io (mergeCalls bgn (bgn+fragment.length) fragment false p.doneParts),
        { p with
          fragmentParts :=
            ⟨insertInterval bgn (bgn+fragment.length) p.doneParts,p.doneParts⟩
          io := runIo p.info p.io
            (mergeCalls bgn (bgn+fragment.length) fragment false p.doneParts)
          latestUpdate := now }) := by
  have hdst := resend_foldl bgn (bgn+fragment.length) [] p.doneParts (by omega) hc
  rw [List.nil_append] at hdst
  simp only [PendingBlob.mergeFragment, mergeAll_eq]
  rw [← hdst]
  rfl

/-- A relation between the target and a set of stored places that survives
every check and grows with every store holds of what the calls leave. -/
theorem runIo_stored {rel : ι → Set ℕ → Prop} (info : BlobInfo) (cs : List IoCall)
    (hcheck : ∀ io s offs blk, rel io s → rel (TargetBlobIo.checkStored io offs blk).2 s)
    (hstore : ∀ io s, ∀ d ∈ stores cs, rel io s →
      rel (TargetBlobIo.storeFragment io d.1 d.2 info).2 (s ∪ Set.Ico d.1 (d.1+d.2.length)))
    (io : ι) (s : Set ℕ) (h : rel io s) :
    rel (runIo info io cs) (s ∪ covered (ranges (stores cs))) := by
  induction cs generalizing io s with
  | nil => simpa [runIo, stores, ranges] using h
  | cons c cs ih =>
    cases c with
    | store offs src =>
      have hs := hstore io s (offs,src) (by simp [stores]) h
      have hi := ih (fun io s d hd => hstore io s d (by simp [stores, hd])) _ _ hs
      simpa [runIo, runCall, stores, ranges, Set.union_assoc] using hi
    | check offs blk => exact ih hstore _ _ (hcheck io s offs blk h)

/-- As long as each stored block lies outside of what was stored before, a
relation need only grow with such stores. -/
theorem runIo_disjoint (rel : ι → Set ℕ → Prop) (info : BlobInfo) (cs : List IoCall)
    (hcheck : ∀ io s offs blk, rel io s → rel (TargetBlobIo.checkStored io offs blk).2 s)
    (hstore : ∀ io s, ∀ d ∈ stores cs, Disjoint s (Set.Ico d.1 (d.1+d.2.length)) → rel io s →
      rel (TargetBlobIo.storeFragment io d.1 d.2 info).2 (s ∪ Set.Ico d.1 (d.1+d.2.length)))
    (hd : (stores cs).Pairwise (fun d e =>
      Disjoint (Set.Ico d.1 (d.1+d.2.length)) (Set.Ico e.1 (e.1+e.2.length))))
    (io : ι) (s : Set ℕ) (hs : ∀ d ∈ stores cs, Disjoint s (Set.Ico d.1 (d.1+d.2.length)))
    (h : rel io s) : rel (runIo info io cs) (s ∪ covered (ranges (stores cs))) := by
  induction cs generalizing io s with
  | nil => simpa [runIo, stores, ranges] using h
  | cons c cs ih =>
    cases c with
    | store offs src =>
      obtain ⟨hfirst,hrest⟩ := List.pairwise_cons.mp hd
      have hi := ih (fun io s d hd => hstore io s d (by simp [stores, hd])) hrest _ _
        (fun d hm => Disjoint.union_left (hs d (by simp [stores, hm])) (hfirst d hm))
        (hstore io s (offs,src) (by simp [stores]) (hs (offs,src) (by simp [stores])) h)
      simpa [runIo, runCall, stores, ranges, Set.union_assoc] using hi
    | check offs blk => exact ih hstore hd _ _ hs (hcheck io s offs blk h)

/-- The rule for one merge: what relates the target to the received places
before the merge relates it to them afterwards. -/
theorem mergeFragment_stored (rel : ι → Set ℕ → Prop) (p : PendingBlob ι) (now bgn : ℕ)
    (fragment : Block) (hc : Canonical p.doneParts)
    (hcheck : ∀ io s offs blk, rel io s → rel (TargetBlobIo.checkStored io offs blk).2 s)
    (hstore : ∀ io s, ∀ d ∈ pieces bgn (bgn+fragment.length) fragment p.doneParts, rel io s →
      rel (TargetBlobIo.storeFragment io d.1 d.2 p.info).2 (s ∪ Set.Ico d.1 (d.1+d.2.length)))
    (h : rel p.io (covered p.doneParts)) :
    rel (p.mergeFragment now bgn fragment).2.io
      (covered (p.mergeFragment now bgn fragment).2.doneParts) := by
  have hs := stores_mergeCalls bgn (bgn+fragment.length) fragment p.doneParts (by omega) hc
  rw [← hs] at hstore
  have hr := runIo_stored p.info _ hcheck hstore p.io _ h
  rw [hs, ← covered_merge hc] at hr
  rw [mergeFragment_eq p now bgn fragment hc]
  exact hr

end Target

end MsgBus.FragmentMerge
