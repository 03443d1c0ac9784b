import MsgBus.ManipulatorRules

/-!
# Targets that note what they have stored

A target is paired with the ranges it has stored and with the ids of the
fragments that were merged into its blob. The notes are observations only: the
target itself answers and changes as it does without them.
-/

set_option autoImplicit false

namespace MsgBus

open IntervalList ByteBlock FragmentMerge BlobManipulator ManipulatorRules

structure StoreLog (τ : Type) where
  io : τ
  stored : List Part := []
  merged : List BlobKey := []

namespace StoreLog

variable {τ : Type}

def fresh (io : τ) : StoreLog τ := { io }

def note (l : StoreLog τ) (offs : ℕ) (src : Block) (r : Bool × τ) : StoreLog τ :=
  { l with
    io := r.2
    stored := if r.1 then l.stored ++ [(offs,offs+src.length)] else l.stored }

def tag (l : StoreLog τ) (key : BlobKey) : StoreLog τ := { l with merged := l.merged ++ [key] }

instance [TargetBlobIo τ] : TargetBlobIo (StoreLog τ) where
  handlePrepared l progress := { l with io := TargetBlobIo.handlePrepared l.io progress }
  handleFinished l msgId age message info :=
    { l with io := TargetBlobIo.handleFinished l.io msgId age message info }
  handleCancelled l := { l with io := TargetBlobIo.handleCancelled l.io }
  storeFragment l offs src info :=
    ((TargetBlobIo.storeFragment l.io offs src info).1,
      l.note offs src (TargetBlobIo.storeFragment l.io offs src info))
  checkStored l offs blk :=
    ((TargetBlobIo.checkStored l.io offs blk).1,
      { l with io := (TargetBlobIo.checkStored l.io offs blk).2 })
  targetBuffer l := TargetBlobIo.targetBuffer l.io

/-- A merge does not touch the ids that were noted. -/
theorem merge_merged [TargetBlobIo τ] (p : PendingBlob (StoreLog τ)) (now bgn : ℕ)
    (fragment : Block) (hc : Canonical p.doneParts) :
    (p.mergeFragment now bgn fragment).2.io.merged = p.io.merged :=
  mergeFragment_stored (fun (l : StoreLog τ) _ => l.merged = p.io.merged) p now bgn fragment hc
    (fun _ _ _ _ h => h) (fun _ _ _ _ h => h) rfl

theorem covered_note (l : StoreLog τ) (offs : ℕ) (src : Block) (r : Bool × τ) (h : r.1 = true) :
    covered (l.note offs src r).stored =
      covered l.stored ∪ Set.Ico offs (offs+src.length) := by
  simp [note, h, covered_append]

/-- The buffer has the size of the content, agrees with it in the received
places, and each received place has been stored. -/
structure Holds (content : Block) (l : StoreLog BufferBlobIo) (s : Set ℕ) : Prop where
  size : l.io.buf.length = content.length
  agree : Agree s l.io.buf content
  stored : s ⊆ covered l.stored

theorem holds_fresh (content : Block) :
    Holds content (fresh (.ofSize content.length)) ∅ where
  size := by simp [fresh]
  agree := by simp [Agree]
  stored := Set.empty_subset _

theorem holds_check (content : Block) (l : StoreLog BufferBlobIo) (s : Set ℕ) (offs : ℕ)
    (blk : Block) (h : Holds content l s) :
    Holds content (TargetBlobIo.checkStored l offs blk).2 s := h

theorem holds_store (content : Block) (l : StoreLog BufferBlobIo) (s : Set ℕ) (offs : ℕ)
    (src : Block) (info : BlobInfo) (hs : Slice content offs src) (hn : src ≠ [])
    (h : Holds content l s) :
    Holds content (TargetBlobIo.storeFragment l offs src info).2
      (s ∪ Set.Ico offs (offs+src.length)) := by
  have hb : offs+src.length ≤ l.io.buf.length := (slice_bound hs hn).trans_eq h.size.symm
  have hr : TargetBlobIo.storeFragment l.io offs src info =
      (true,⟨overlay l.io.buf offs src⟩) := BufferBlobIo.storeFragment_fits l.io offs src hn hb
  have he : (TargetBlobIo.storeFragment l offs src info).2 =
      l.note offs src (true,⟨overlay l.io.buf offs src⟩) := by
    rw [← hr]
    rfl
  rw [he]
  refine ⟨?_,overlay_agree s l.io.buf content src offs hb hs h.agree,?_⟩
  · exact (overlay_length l.io.buf offs src hb).trans h.size
  · rw [covered_note _ _ _ _ rfl]
    exact Set.union_subset_union_left _ h.stored

theorem holds_merge (content : Block) (p : PendingBlob (StoreLog BufferBlobIo))
    (now bgn : ℕ) (fragment : Block) (hc : Canonical p.doneParts) (hn : fragment ≠ [])
    (hs : Slice content bgn fragment) (h : Holds content p.io (covered p.doneParts)) :
    Holds content (p.mergeFragment now bgn fragment).2.io
      (covered (p.mergeFragment now bgn fragment).2.doneParts) :=
  mergeFragment_stored (Holds content) p now bgn fragment hc
    (fun l s => holds_check content l s)
    (fun l s d hd => holds_store content l s d.1 d.2 p.info (pieces_slice hc hs hd)
      (pieces_ne_nil hc hn hd)) h

end StoreLog

end MsgBus
