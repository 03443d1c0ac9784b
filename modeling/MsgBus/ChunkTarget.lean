import MsgBus.Lib.ChunkedBlock
import MsgBus.ReceivedParts
import MsgBus.ResourceConsumer

/-!
# Blobs received in chunks

The fragments merged into a blob reach its chunk target in pieces, each of
which is stored in the chunks it lies in. The target holds the received places
of the blob, and a finished one hands over the blob cut at the chunk ends.
-/

set_option autoImplicit false

namespace MsgBus.BlobChunkIo

open ByteBlock ChunkedBlock IntervalList FragmentMerge ReceivedFragment

/-- From the fresh target only the chunks changed, and these hold the places
of the content. -/
structure Stored (content : Block) (fresh io : BlobChunkIo) (s : Set ℕ) : Prop where
  frame : io = { fresh with chunks := io.chunks }
  within : Within fresh.chunkSize content.length io.chunks
  holds : Holds fresh.chunkSize s io.chunks content

section Store

variable {content : Block} {fresh io : BlobChunkIo} {s : Set ℕ}

theorem Stored.chunkSize (h : Stored content fresh io s) : io.chunkSize = fresh.chunkSize := by
  rw [h.frame]

theorem storeChunk_eq (io : BlobChunkIo) (chunkIdx dsto : ℕ) {src : Block} (h : src ≠ []) :
    io.storeChunk chunkIdx dsto src =
      { io with chunks := write 0 io.chunks chunkIdx dsto src } :=
  if_pos (List.length_pos_of_ne_nil h)

theorem storeChunk_nil (io : BlobChunkIo) (chunkIdx dsto : ℕ) :
    io.storeChunk chunkIdx dsto [] = io := rfl

theorem stored_chunk {chunkIdx dsto : ℕ} {src : Block} (h0 : 0 < fresh.chunkSize)
    (h : Stored content fresh io s) (hend : dsto+src.length ≤ fresh.chunkSize) (hn : src ≠ [])
    (hs : Slice content (chunkIdx*fresh.chunkSize+dsto) src) :
    Stored content fresh (io.storeChunk chunkIdx dsto src)
      (s ∪ Set.Ico (chunkIdx*fresh.chunkSize+dsto)
        (chunkIdx*fresh.chunkSize+dsto+src.length)) := by
  rw [storeChunk_eq io chunkIdx dsto hn]
  refine ⟨?_,write_within 0 h.within hend hn hs,write_holds 0 h0 h.holds hend hn hs⟩
  rw [h.frame]

theorem storeParts_nil (io : BlobChunkIo) (chunkIdx dsto n : ℕ) :
    io.storeParts chunkIdx dsto [] n = io := by
  induction n generalizing chunkIdx dsto with
  | zero => rfl
  | succ n ih => rw [storeParts, List.take_nil, List.drop_nil, storeChunk_nil, ih]

/-- Enough rounds store all the data; each round but the last fills the rest
of its chunk. -/
theorem stored_parts (chunkIdx dsto : ℕ) (data : Block) (n : ℕ) (h : Stored content fresh io s)
    (hd : dsto < fresh.chunkSize) (hn : dsto+data.length ≤ n*fresh.chunkSize)
    (hs : Slice content (chunkIdx*fresh.chunkSize+dsto) data) :
    Stored content fresh (io.storeParts chunkIdx dsto data n)
      (s ∪ Set.Ico (chunkIdx*fresh.chunkSize+dsto)
        (chunkIdx*fresh.chunkSize+dsto+data.length)) := by
  induction n generalizing io s chunkIdx dsto data with
  | zero =>
    obtain rfl : data = [] := List.eq_nil_of_length_eq_zero (by omega)
    simpa [storeParts] using h
  | succ n ih =>
    by_cases hdata : data = []
    · rw [hdata, storeParts_nil]
      simpa using h
    · have h0 : 0 < fresh.chunkSize := by omega
      have hsucc := Nat.add_one_mul chunkIdx fresh.chunkSize
      have hroom := Nat.add_one_mul n fresh.chunkSize
      have hnext : chunkIdx*fresh.chunkSize+dsto+(fresh.chunkSize-dsto) =
          (chunkIdx+1)*fresh.chunkSize+0 := by omega
      rw [storeParts, h.chunkSize]
      have hfirst : data.take (fresh.chunkSize-dsto) ≠ [] := by
        apply List.ne_nil_of_length_pos
        have := List.length_pos_of_ne_nil hdata
        rw [List.length_take]
        omega
      have hlen : dsto+(data.take (fresh.chunkSize-dsto)).length ≤ fresh.chunkSize := by
        rw [List.length_take]
        omega
      have hrest := slice_drop _ _ _ (fresh.chunkSize-dsto) hs
      rw [hnext] at hrest
      have hi := ih (chunkIdx+1) 0 (data.drop (fresh.chunkSize-dsto))
        (stored_chunk h0 h hlen hfirst (slice_take _ _ _ _ hs)) h0
        (by rw [List.length_drop]; omega) hrest
      convert hi using 1
      rw [Set.union_assoc]
      congr 1
      ext x
      simp only [Set.mem_Ico, Set.mem_union, List.length_take, List.length_drop]
      omega

/-- The rounds from the chunk of the first byte to that behind the last one
have room for all of them. -/
theorem rounds_suffice {size : ℕ} (h0 : 0 < size) (offset length : ℕ) :
    offset-offset/size*size+length ≤ ((offset+length)/size-offset/size+1)*size := by
  have hle : offset/size ≤ (offset+length)/size := Nat.div_le_div_right (Nat.le_add_right _ _)
  have hmul := Nat.mul_le_mul_right size hle
  have hfirst := Nat.div_mul_le_self offset size
  have hlast := Nat.lt_div_mul_add h0 (a := offset+length)
  rw [Nat.add_one_mul, Nat.sub_mul]
  omega

theorem stored_fragment {offset : ℕ} {data : Block} (h0 : 0 < fresh.chunkSize)
    (h : Stored content fresh io s) (hs : Slice content offset data) :
    Stored content fresh (io.storeFragment offset data)
      (s ∪ Set.Ico offset (offset+data.length)) := by
  rw [storeFragment, h.chunkSize]
  have hplace := Nat.add_sub_of_le (Nat.div_mul_le_self offset fresh.chunkSize)
  have hinside : offset-offset/fresh.chunkSize*fresh.chunkSize < fresh.chunkSize := by
    have hlast := Nat.lt_div_mul_add h0 (a := offset)
    omega
  have hstep := stored_parts _ _ data _ h hinside (rounds_suffice h0 offset data.length)
    (by rwa [hplace])
  rwa [hplace] at hstep

/-- All these blocks, stored one after another. -/
def storeAll (io : BlobChunkIo) (ds : List (ℕ × Block)) : BlobChunkIo :=
  ds.foldl (fun io d => io.storeFragment d.1 d.2) io

theorem storeAll_append (io : BlobChunkIo) (ds es : List (ℕ × Block)) :
    io.storeAll (ds ++ es) = (io.storeAll ds).storeAll es := List.foldl_append ..

theorem stored_all {ds : List (ℕ × Block)} (h0 : 0 < fresh.chunkSize)
    (h : Stored content fresh io s) (hs : ∀ d ∈ ds, Slice content d.1 d.2) :
    Stored content fresh (io.storeAll ds) (s ∪ covered (ranges ds)) := by
  induction ds generalizing io s with
  | nil => simpa [storeAll, ranges] using h
  | cons d ds ih =>
    have hi := ih (stored_fragment h0 h (hs d (by simp))) (fun e he => hs e (by simp [he]))
    simpa [storeAll, ranges, Set.union_assoc] using hi

theorem stored_new (content : Block) (blobId size : ℕ) :
    Stored content (makeTargetBlobChunkIo blobId size) (makeTargetBlobChunkIo blobId size) ∅ :=
  ⟨rfl,by simp [makeTargetBlobChunkIo, Within],by simp [Holds]⟩

/-- A further block leaves what was stored before it as it was. -/
theorem stored_kept {before : List (ℕ × Block)} {d : ℕ × Block} (h0 : 0 < fresh.chunkSize)
    (h : Stored content fresh fresh ∅) (hs : ∀ e ∈ before ++ [d], Slice content e.1 e.2) {x : ℕ}
    (hx : x ∈ covered (ranges before)) :
    (∃ byte, symbolAt fresh.chunkSize (fresh.storeAll before).chunks x = some byte) ∧
      symbolAt fresh.chunkSize ((fresh.storeAll before).storeFragment d.1 d.2).chunks x =
        symbolAt fresh.chunkSize (fresh.storeAll before).chunks x := by
  have hbefore := stored_all h0 h fun e he => hs e (List.mem_append_left [d] he)
  rw [Set.empty_union] at hbefore
  have hafter := stored_fragment h0 hbefore (hs d (by simp))
  obtain ⟨hlt,hsym⟩ := hbefore.holds x hx
  exact ⟨⟨_,hsym.trans (List.getElem?_eq_getElem hlt)⟩,
    (hafter.holds x (Or.inl hx)).2.trans hsym.symm⟩

/-- The checks of a merge leave the chunks alone. -/
theorem runIo_stores (info : BlobInfo) (io : BlobChunkIo) (cs : List IoCall) :
    runIo info io cs = io.storeAll (stores cs) := by
  induction cs generalizing io with
  | nil => rfl
  | cons c cs ih => cases c <;> exact ih _

end Store

section Merge

variable {content : Block} {fresh : BlobChunkIo} {p : PendingBlob (PassedLog BlobChunkIo)}

/-- The target is what the blocks passed so far make of it, and these are
slices of the content on exactly the received places. -/
structure Replays (content : Block) (fresh : BlobChunkIo)
    (p : PendingBlob (PassedLog BlobChunkIo)) : Prop where
  intervals : Intervals p.doneParts
  io : p.io.io = fresh.storeAll p.io.passed
  slices : ∀ d ∈ p.io.passed, Slice content d.1 d.2
  passed : covered (ranges p.io.passed) = covered p.doneParts

theorem mergeInto_replays {f : ReceivedFragment} (hf : f.fragment ≠ [])
    (hs : Slice content f.bgn f.fragment) (h : Replays content fresh p) :
    Replays content fresh (f.mergeInto p) := by
  have hc := h.intervals.canonical
  have hpassed := mergeInto_passed (f := f) hc
  refine ⟨mergeInto_intervals hf h.intervals,?_,?_,?_⟩
  · have hio : (f.mergeInto p).io.io = p.io.io.storeAll
        (pieces f.bgn (f.bgn+f.fragment.length) f.fragment p.doneParts) := by
      rw [mergeInto, mergeFragment_eq p f.now f.bgn f.fragment hc]
      simp only [PassedLog.runIo_eq, runIo_stores,
        stores_mergeCalls _ _ _ _ (Nat.le_add_right f.bgn f.fragment.length) hc]
    rw [hio, h.io, hpassed, storeAll_append]
  · intro d hd
    rw [hpassed] at hd
    exact (List.mem_append.mp hd).elim (h.slices d) (pieces_slice hc hs)
  · rw [hpassed, mergeInto_doneParts hc, covered_merge hc, ← h.passed, ranges, List.map_append,
      covered_append]
    rfl

theorem mergeAllInto_replays {fragments : List ReceivedFragment}
    (hf : ∀ f ∈ fragments, f.fragment ≠ [] ∧ Slice content f.bgn f.fragment)
    (h : Replays content fresh p) : Replays content fresh (mergeAllInto fragments p) := by
  induction fragments generalizing p with
  | nil => exact h
  | cons f fragments ih =>
    obtain ⟨hn,hs⟩ := hf f (by simp)
    exact ih (fun g hg => hf g (by simp [hg])) (mergeInto_replays hn hs h)

end Merge

/-- However the slices of a blob arrive, once they cover it the target hands
over the blob cut at the chunk ends; and each block that was passed to the
target left the bytes stored before it as they were. -/
theorem chunks_reassemble (blobId size : ℕ) (hsize : 0 < size) (content : Block)
    (fragments : List ReceivedFragment)
    (hf : ∀ f ∈ fragments, f.fragment ≠ [] ∧ Slice content f.bgn f.fragment)
    (p : PendingBlob (PassedLog BlobChunkIo)) (hp : p.doneParts = [])
    (hio : p.io = ⟨makeTargetBlobChunkIo blobId size,[]⟩)
    (hall : ∀ x < content.length, ∃ f ∈ fragments, f.bgn ≤ x ∧ x < f.bgn+f.fragment.length)
    (msgId : MessageId) (age : MessageAge) (message : MessageInfo) (info : BlobInfo) :
    let received := (mergeAllInto fragments p).io
    (∃ chunks, (TargetBlobIo.handleFinished received.io msgId age message info).signals =
        [.dataAppended ⟨blobId,0,chunks,info⟩,.finished blobId] ∧
      Cut size chunks content) ∧
    received.io = (makeTargetBlobChunkIo blobId size).storeAll received.passed ∧
    ∀ before d after, received.passed = before ++ d :: after →
      let io := (makeTargetBlobChunkIo blobId size).storeAll before
      ∀ x ∈ covered (ranges before),
        (∃ byte, symbolAt size io.chunks x = some byte) ∧
        symbolAt size (io.storeFragment d.1 d.2).chunks x = symbolAt size io.chunks x := by
  have hstart : Intervals p.doneParts := by
    rw [hp]
    exact ⟨by simp,List.Pairwise.nil⟩
  have hrep : Replays content (makeTargetBlobChunkIo blobId size) (mergeAllInto fragments p) := by
    refine mergeAllInto_replays hf ⟨hstart,?_,?_,?_⟩
    · rw [hio]
      rfl
    · simp [hio]
    · rw [hio, hp]
      rfl
  have hcov : Set.Ico 0 content.length ⊆ covered (mergeAllInto fragments p).doneParts := by
    rintro x ⟨-,hx⟩
    rw [(mergeAllInto_doneParts (fun f h => (hf f h).1) hstart).2]
    obtain ⟨f,hmem,hl,hr⟩ := hall x hx
    exact Or.inr ⟨f.part,List.mem_map_of_mem hmem,hl,hr⟩
  have hstored := stored_all hsize (stored_new content blobId size) hrep.slices
  rw [Set.empty_union, hrep.passed, ← hrep.io] at hstored
  refine ⟨⟨(mergeAllInto fragments p).io.io.chunks,?_,?_⟩,hrep.io,?_⟩
  · rw [hstored.frame]
    rfl
  · exact cut_of_holds hsize hstored.within (fun x hx => hstored.holds x (hcov hx))
  · intro before d after hsplit io x hx
    refine stored_kept hsize (stored_new content blobId size) (fun e he => ?_) hx
    apply hrep.slices
    rw [hsplit, List.append_cons]
    exact List.mem_append_left after he

theorem chunks_reassemble_five :
    let p : PendingBlob (PassedLog BlobChunkIo) :=
      { msgId := msgbusId .ping, io := ⟨makeTargetBlobChunkIo 3 2,[]⟩ }
    ∃ chunks, (TargetBlobIo.handleFinished
        (mergeAllInto [⟨0,3,[4,5]⟩,⟨0,1,[2,3,4]⟩,⟨0,0,[1,2]⟩] p).io.io (msgbusId .ping) 0 {}
        {}).signals = [.dataAppended ⟨3,0,chunks,{}⟩,.finished 3] ∧
      Cut 2 chunks [1,2,3,4,5] := by
  have h := chunks_reassemble 3 2 (by decide) [1,2,3,4,5]
    [⟨0,3,[4,5]⟩,⟨0,1,[2,3,4]⟩,⟨0,0,[1,2]⟩] (by simp [Slice])
    { msgId := msgbusId .ping, io := ⟨makeTargetBlobChunkIo 3 2,[]⟩ } rfl rfl
    (by decide) (msgbusId .ping) 0 {} {}
  exact h.1

end MsgBus.BlobChunkIo
