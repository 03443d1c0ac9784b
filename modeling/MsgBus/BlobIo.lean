import Mathlib.Algebra.GroupWithZero.Nat
import Mathlib.Algebra.Order.Ring.Rat
import MsgBus.Lib.ByteBlock
import MsgBus.Lib.OrderedMap
import MsgBus.Types

/-!
# Sources and targets of blobs

A blob is read from a source and written to a target. Both are interfaces
whose default members are those of the base classes. A buffer serves as
either; a stream target hands consecutive data on as soon as it has arrived
and holds back what came early.
-/

set_option autoImplicit false

namespace MsgBus

open ByteBlock

structure BlobInfo where
  sourceId : EndpointId := broadcastEndpointId
  targetId : EndpointId := broadcastEndpointId
  totalSize : ℕ := 0
  options : BlobOptions := 0
  priority : MessagePriority := .normal
  deriving DecidableEq, Repr

inductive BlobPreparationStatus where
  | finished | working | failed
  deriving DecidableEq, Repr

structure BlobPreparationResult where
  progress : ℚ
  status : BlobPreparationStatus
  deriving DecidableEq

namespace BlobPreparationResult

def ofProgress (progress : ℚ) : BlobPreparationResult :=
  ⟨max 0 (min progress 1),if progress < 1 then .working else .finished⟩

def ofStatus (status : BlobPreparationStatus) : BlobPreparationResult :=
  ⟨if status = .working then 0 else 1,status⟩

def finished : BlobPreparationResult := ofStatus .finished

def isWorking (r : BlobPreparationResult) : Bool := r.status = .working
def hasFinished (r : BlobPreparationResult) : Bool := r.status = .finished
def hasFailed (r : BlobPreparationResult) : Bool := r.status = .failed

end BlobPreparationResult

class SourceBlobIo (ς : Type) where
  prepare : ς → BlobPreparationResult × ς := fun io => (.finished,io)
  totalSize : ς → ℕ := fun _ => 0
  isAtEod : ς → ℕ → Bool := fun io offs => totalSize io ≤ offs
  fetchFragment : ς → ℕ → ℕ → Block × ς := fun io _ _ => ([],io)

class TargetBlobIo (τ : Type) where
  handlePrepared : τ → ℚ → τ := fun io _ => io
  handleFinished : τ → MessageId → MessageAge → MessageInfo → BlobInfo → τ :=
    fun io _ _ _ _ => io
  handleCancelled : τ → τ := fun io => io
  storeFragment : τ → ℕ → Block → BlobInfo → Bool × τ := fun io _ _ _ => (false,io)
  checkStored : τ → ℕ → Block → Bool × τ := fun io _ _ => (true,io)
  /-- The buffer a `buffer_blob_io` releases; no other target has one. -/
  targetBuffer : τ → Option Block := fun _ => none

structure BufferBlobIo where
  buf : Block
  deriving DecidableEq, Repr

namespace BufferBlobIo

/-- A buffer of this size from the pool, which the constructor clears. -/
def ofSize (size : ℕ) : BufferBlobIo := ⟨List.replicate size 0⟩

def ofBlock (src : Block) : BufferBlobIo := ⟨src⟩

def storeFragment (io : BufferBlobIo) (offs : ℕ) (src : Block) : Bool × BufferBlobIo :=
  if src.length ≤ (io.buf.drop offs).length then (true,⟨overlay io.buf offs src⟩)
  else (false,io)

def checkStored (io : BufferBlobIo) (offs : ℕ) (blk : Block) : Bool :=
  (io.buf.drop offs).take blk.length = blk

instance : SourceBlobIo BufferBlobIo where
  totalSize io := io.buf.length
  isAtEod io offs := io.buf.length ≤ offs
  fetchFragment io offs size := ((io.buf.drop offs).take size,io)

instance : TargetBlobIo BufferBlobIo where
  storeFragment io offs src _ := io.storeFragment offs src
  checkStored io offs blk := (io.checkStored offs blk,io)
  targetBuffer io := some io.buf

@[simp] theorem ofSize_length (size : ℕ) : (ofSize size).buf.length = size := by
  simp [ofSize]

theorem storeFragment_fits (io : BufferBlobIo) (offs : ℕ) (src : Block) (hs : src ≠ [])
    (h : offs+src.length ≤ io.buf.length) :
    io.storeFragment offs src = (true,⟨overlay io.buf offs src⟩) := by
  have hp := List.length_pos_of_ne_nil hs
  rw [storeFragment, if_pos (by rw [List.length_drop]; omega)]

end BufferBlobIo

structure BlobStreamChunk where
  requestId : ℕ
  offset : ℕ
  data : List Block
  info : BlobInfo
  deriving DecidableEq, Repr

def BlobStreamChunk.totalDataSize (chunk : BlobStreamChunk) : ℕ :=
  (chunk.data.map List.length).sum

inductive BlobStreamSignal where
  | preparationProgressed (blobId : ℕ) (progress : ℚ)
  | dataAppended (chunk : BlobStreamChunk)
  | finished (blobId : ℕ)
  | cancelled (blobId : ℕ)
  deriving DecidableEq

structure BlobStreamIo where
  blobId : ℕ
  offsDone : ℕ := 0
  unmerged : OrderedMap ℕ Block := OrderedMap.empty
  signals : List BlobStreamSignal := []
  deriving DecidableEq

namespace BlobStreamIo

def emit (io : BlobStreamIo) (signal : BlobStreamSignal) : BlobStreamIo :=
  { io with signals := io.signals ++ [signal] }

def append (io : BlobStreamIo) (offset : ℕ) (data : List Block) (info : BlobInfo) :
    BlobStreamIo :=
  io.emit (.dataAppended ⟨io.blobId,offset,data,info⟩)

/-- The held back pieces that follow `dataEnd` without a gap, first to last,
and the offset where the last of them ends. -/
def consecutive (dataEnd : ℕ) : List (ℕ × Block) → List Block × ℕ
  | [] => ([],dataEnd)
  | (mergeOffs,mergeBuf)::rest =>
    if mergeOffs ≠ dataEnd then ([],dataEnd)
    else
      let merged := consecutive (mergeOffs+mergeBuf.length) rest
      (mergeBuf::merged.1,merged.2)

def storeFragment (io : BlobStreamIo) (offset : ℕ) (data : Block) (info : BlobInfo) :
    BlobStreamIo :=
  if offset = io.offsDone then
    if io.unmerged.isEmpty then
      { io.append offset [data] info with offsDone := offset+data.length }
    else
      let merged := consecutive (offset+data.length) io.unmerged.entries
      { io.append offset (data::merged.1) info with
        offsDone := merged.2
        unmerged := io.unmerged.dropFirst merged.1.length }
  else { io with unmerged := io.unmerged.assign offset data }

instance : TargetBlobIo BlobStreamIo where
  handlePrepared io progress := io.emit (.preparationProgressed io.blobId progress)
  handleFinished io _ _ _ _ := io.emit (.finished io.blobId)
  handleCancelled io := io.emit (.cancelled io.blobId)
  storeFragment io offset data info := (true,io.storeFragment offset data info)

end BlobStreamIo

def makeTargetBlobStreamIo (blobId : BlobId) : BlobStreamIo := { blobId }

end MsgBus
