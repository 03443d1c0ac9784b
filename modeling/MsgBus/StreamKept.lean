import MsgBus.BlobStream

/-!
# What a stream keeps

A stream hands on a held back piece when the data before it have become
complete up to its beginning, and asks the first held back piece only. A piece
that begins before the data in front of it end is never handed on, nor is any
piece behind it. What the stream keeps are the places it has handed on and
those of the pieces it can still reach.
-/

set_option autoImplicit false

namespace MsgBus.StreamKept

open IntervalList ByteBlock FragmentMerge BlobStreamIo BlobStream

/-- The pieces up to the first one that begins before the data in front of it
end. -/
def inReach : ℕ → List (ℕ × Block) → List (ℕ × Block)
  | _, [] => []
  | fin, e::es => if e.1 < fin then [] else e::inReach (e.1+e.2.length) es

def keptParts (fin : ℕ) (es : List (ℕ × Block)) : List Part := (0,fin)::ranges (inReach fin es)

def kept (io : BlobStreamIo) : List Part := keptParts io.offsDone io.unmerged.entries

/-- What the stream keeps with this piece in its place. -/
def keptWith (io : BlobStreamIo) (offs : ℕ) (src : Block) : List Part :=
  if offs = io.offsDone then keptParts (offs+src.length) io.unmerged.entries
  else keptParts io.offsDone (OrderedMap.assignIn offs src io.unmerged.entries)

def Within (ps qs : List Part) : Prop := covered ps ⊆ covered qs

instance (ps qs : List Part) : Decidable (Within ps qs) :=
  decidable_of_iff (∀ p ∈ ps, ∀ x < p.2, p.1 ≤ x → ∃ q ∈ qs, q.1 ≤ x ∧ x < q.2)
    ⟨fun h x ⟨p,hp,hl,hr⟩ => h p hp x hr hl,fun h _ hp _ hr hl => h ⟨_,hp,hl,hr⟩⟩

/-- The piece takes nothing that the stream keeps out of its reach, and is
within it. -/
def Fits (io : BlobStreamIo) (offs : ℕ) (src : Block) : Prop :=
  Within ((offs,offs+src.length)::kept io) (keptWith io offs src)

instance (io : BlobStreamIo) (offs : ℕ) (src : Block) : Decidable (Fits io offs src) :=
  inferInstanceAs (Decidable (Within _ _))

theorem inReach_ge (fin : ℕ) (es : List (ℕ × Block)) : ∀ e ∈ inReach fin es, fin ≤ e.1 := by
  induction es generalizing fin with
  | nil => simp [inReach]
  | cons d es ih =>
    intro e he
    rw [inReach] at he
    split_ifs at he with hd
    · cases he
    · rcases List.mem_cons.mp he with rfl | he
      · omega
      · have := ih _ e he
        omega

/-- Taking over the pieces that follow without a gap keeps what was kept. -/
theorem consecutive_kept (fin : ℕ) (es : List (ℕ × Block)) :
    covered (keptParts (consecutive fin es).2 (es.drop (consecutive fin es).1.length)) =
      covered (keptParts fin es) := by
  induction es generalizing fin with
  | nil => rfl
  | cons e es ih =>
    rw [consecutive]
    split
    · rfl
    · rename_i hnext
      obtain rfl : e.1 = fin := not_not.mp hnext
      simp only [List.length_cons, List.drop_succ_cons]
      rw [ih, keptParts, keptParts, inReach, if_neg (lt_irrefl _)]
      have hr : ranges (e::inReach (e.1+e.2.length) es) =
        (e.1,e.1+e.2.length)::ranges (inReach (e.1+e.2.length) es) := rfl
      rw [hr, covered_cons, covered_cons, covered_cons, ← Set.union_assoc,
        Set.Ico_union_Ico_eq_Ico (Nat.zero_le _) (Nat.le_add_right _ _)]

theorem kept_store (io : BlobStreamIo) (offs : ℕ) (src : Block) (info : BlobInfo) :
    covered (kept (io.storeFragment offs src info)) = covered (keptWith io offs src) := by
  rw [BlobStreamIo.storeFragment, keptWith]
  split
  · split
    · rfl
    · exact consecutive_kept _ _
  · rfl

theorem fits_store {io : BlobStreamIo} {offs : ℕ} {src : Block} (info : BlobInfo)
    (h : Fits io offs src) :
    Set.Ico offs (offs+src.length) ∪ covered (kept io) ⊆
      covered (kept (io.storeFragment offs src info)) := by
  rw [kept_store]
  have hw : covered ((offs,offs+src.length)::kept io) ⊆ covered (keptWith io offs src) := h
  rwa [covered_cons] at hw

/-- The data are handed on in order, the held back pieces are parts of the
content, and the first of them waits for data in front of it. -/
structure Tidy (content : Block) (io : BlobStreamIo) : Prop where
  front : appended io = content.take io.offsDone
  bound : io.offsDone ≤ content.length
  offsets : Consecutive 0 (chunks io)
  slices : ∀ e ∈ io.unmerged.entries, Slice content e.1 e.2 ∧ e.2 ≠ []
  waits : ∀ e ∈ io.unmerged.entries.head?, e.1 ≠ io.offsDone

theorem tidy_fresh (content : Block) (blobId : BlobId) :
    Tidy content (makeTargetBlobStreamIo blobId) := by
  constructor <;>
    simp [makeTargetBlobStreamIo, appended, chunks, Consecutive, OrderedMap.empty]

/-- The pieces taken over continue the front of the content. -/
theorem consecutive_front (content : Block) (fin : ℕ) (es : List (ℕ × Block))
    (hsl : ∀ e ∈ es, Slice content e.1 e.2 ∧ e.2 ≠ []) (hb : fin ≤ content.length) :
    content.take fin ++ (consecutive fin es).1.flatten = content.take (consecutive fin es).2 ∧
    (consecutive fin es).2 ≤ content.length ∧
    ∀ e ∈ (es.drop (consecutive fin es).1.length).head?, e.1 ≠ (consecutive fin es).2 := by
  induction es generalizing fin with
  | nil => simp [consecutive, hb]
  | cons e es ih =>
    obtain ⟨hslice,hne⟩ := hsl e (by simp)
    rw [consecutive]
    split
    · rename_i hgap
      refine ⟨by simp,hb,?_⟩
      intro d hd
      obtain rfl : e = d := by simpa using hd
      exact hgap
    · rename_i hnext
      obtain rfl : e.1 = fin := not_not.mp hnext
      obtain ⟨htake,hbound,hwaits⟩ := ih (e.1+e.2.length)
        (fun d hd => hsl d (List.mem_cons_of_mem _ hd)) (slice_bound hslice hne)
      refine ⟨?_,hbound,hwaits⟩
      rw [List.flatten_cons, ← List.append_assoc, take_append_slice hslice, htake]

theorem head_assignIn {k : ℕ} {v : Block} {es : List (ℕ × Block)} {e : ℕ × Block}
    (he : e ∈ (OrderedMap.assignIn k v es).head?) : e = (k,v) ∨ e ∈ es.head? := by
  cases es with
  | nil => exact Or.inl (by simpa [OrderedMap.assignIn] using he.symm)
  | cons d es =>
    rw [OrderedMap.assignIn] at he
    split_ifs at he
    · exact Or.inl (by simpa using he.symm)
    · exact Or.inr (by simpa using he)
    · exact Or.inl (by simpa using he.symm)

section Content

variable {content : Block} {io : BlobStreamIo}

theorem tidy_store {offs : ℕ} {src : Block} (info : BlobInfo) (h : Tidy content io)
    (hs : Slice content offs src) (hn : src ≠ []) :
    Tidy content (io.storeFragment offs src info) := by
  have hb := slice_bound hs hn
  rw [BlobStreamIo.storeFragment]
  split
  · rename_i hnext
    subst hnext
    have hoffsets := fun data => offsets_append data info h.front h.bound h.offsets
    split
    · rename_i hempty
      have hnil : io.unmerged.entries = [] := List.isEmpty_iff.mp hempty
      refine ⟨?_,hb,hoffsets _,h.slices,?_⟩
      · change appended (io.append _ _ _) = _
        rw [appended_append, h.front, List.flatten_cons, List.flatten_nil, List.append_nil,
          take_append_slice hs]
      · intro e he
        change e ∈ io.unmerged.entries.head? at he
        rw [hnil] at he
        cases he
    · obtain ⟨htake,hbound,hwaits⟩ := consecutive_front content (io.offsDone+src.length)
        io.unmerged.entries h.slices hb
      refine ⟨?_,hbound,hoffsets _,fun e he => h.slices e (List.mem_of_mem_drop he),hwaits⟩
      change appended (io.append _ _ _) = _
      rw [appended_append, h.front, List.flatten_cons, ← List.append_assoc,
        take_append_slice hs]
      exact htake
  · rename_i hgap
    refine ⟨h.front,h.bound,h.offsets,?_,?_⟩
    · intro e he
      rcases OrderedMap.mem_assignIn he with rfl | he
      · exact ⟨hs,hn⟩
      · exact h.slices e he
    · intro e he
      rcases head_assignIn he with rfl | he
      · exact hgap
      · exact h.waits e he

/-- A stream that keeps all places of the content has handed it on. -/
theorem kept_whole (h : Tidy content io)
    (hk : Set.Ico 0 content.length ⊆ covered (kept io)) : appended io = content := by
  have hle : content.length ≤ io.offsDone := by
    by_contra hlt
    have hin := hk ⟨Nat.zero_le _,not_le.mp hlt⟩
    rw [kept, keptParts, covered_cons] at hin
    rcases hin with hin | ⟨r,hr,hl,-⟩
    · exact lt_irrefl _ hin.2
    · obtain ⟨d,hd,rfl⟩ := List.mem_map.mp hr
      have hge := inReach_ge _ _ d hd
      cases hes : io.unmerged.entries with
      | nil =>
        rw [hes] at hd
        cases hd
      | cons e es =>
        have hne := h.waits e (by rw [hes]; rfl)
        rw [hes, inReach] at hd
        split_ifs at hd with he
        · cases hd
        · have hstart : e.1 ≤ d.1 := by
            rcases List.mem_cons.mp hd with rfl | hd
            · rfl
            · have := inReach_ge _ _ d hd
              omega
          simp only at hl
          omega
  rw [h.front, List.take_of_length_le hle]

end Content

end MsgBus.StreamKept
