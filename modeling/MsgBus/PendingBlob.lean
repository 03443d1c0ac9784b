import MsgBus.BlobIo

/-!
# Pending blobs

One record serves a blob that is being sent and one that is being received;
the former has a source and the latter a target as its input and output. Its
two interval lists are the halves of a double buffer: merging writes the new
list into the idle half while it reads the old one.
-/

set_option autoImplicit false

namespace MsgBus

abbrev Part := ℕ × ℕ

structure DoubleBuffer (α : Type) where
  current : α
  next : α
  deriving DecidableEq, Repr

def DoubleBuffer.swap {α : Type} (b : DoubleBuffer α) : DoubleBuffer α := ⟨b.next,b.current⟩

structure PendingBlob (ι : Type) where
  msgId : MessageId
  info : BlobInfo := {}
  io : ι
  fragmentParts : DoubleBuffer (List Part) := ⟨[],[]⟩
  latestUpdate : ℕ := 0
  lingerTime : Timeout := ⟨0,15000⟩
  prepareUpdateTime : Timeout := ⟨0,5000⟩
  maxTime : Timeout := ⟨0,0⟩
  sourceBlobId : BlobId := 0
  targetBlobId : BlobId := 0
  prepareProgress : ℚ := 0
  previousProgress : ℚ := 0
  deriving DecidableEq

namespace PendingBlob

variable {ι : Type}

def doneParts (p : PendingBlob ι) : List Part := p.fragmentParts.current
def todoParts (p : PendingBlob ι) : List Part := p.fragmentParts.next

def withDone (p : PendingBlob ι) (done : List Part) : PendingBlob ι :=
  { p with fragmentParts := { p.fragmentParts with current := done } }

def withTodo (p : PendingBlob ι) (todo : List Part) : PendingBlob ι :=
  { p with fragmentParts := { p.fragmentParts with next := todo } }

@[simp] theorem doneParts_withDone (p : PendingBlob ι) (done : List Part) :
    (p.withDone done).doneParts = done := rfl

@[simp] theorem todoParts_withTodo (p : PendingBlob ι) (todo : List Part) :
    (p.withTodo todo).todoParts = todo := rfl

def totalSizeMismatch (p : PendingBlob ι) (size : ℕ) : Bool :=
  p.info.totalSize ≠ 0 ∧ p.info.totalSize ≠ size

def receivedEverything (p : PendingBlob ι) : Bool :=
  match p.doneParts with
  | [(bgn,fin)] => bgn = 0 ∧ p.info.totalSize ≠ 0 ∧ p.info.totalSize ≤ fin
  | done => p.info.totalSize ≠ 0 ∧ done.isEmpty

/-- The time since the last reset of `max_time`, in hundredths of a second. -/
def age (p : PendingBlob ι) (now : ℕ) : MessageAge :=
  Int16.ofNat ((now-p.maxTime.start)/10)

def setBackEnd (fin : ℕ) : List Part → List Part
  | [] => []
  | [p] => [(p.1,fin)]
  | p::ps => p::setBackEnd fin ps

@[simp] theorem setBackEnd_append (fin : ℕ) (ps : List Part) (p : Part) :
    setBackEnd fin (ps++[p]) = ps++[(p.1,fin)] := by
  induction ps with
  | nil => rfl
  | cons q ps ih =>
    cases ps with
    | nil => rfl
    | cons r ps => simpa [setBackEnd] using ih

section Source

variable [SourceBlobIo ι]

def handleSourcePreparing (p : PendingBlob ι) (now : ℕ) (newProgress : ℚ) : PendingBlob ι :=
  if p.todoParts ≠ [] then
    { (p.withTodo (setBackEnd (SourceBlobIo.totalSize p.io) p.todoParts)) with
      lingerTime := p.lingerTime.reset now
      info := { p.info with totalSize := SourceBlobIo.totalSize p.io }
      prepareProgress := newProgress }
  else { p with prepareProgress := newProgress }

def prepare (p : PendingBlob ι) (now : ℕ) : BlobPreparationResult × PendingBlob ι :=
  let (result,io) := SourceBlobIo.prepare p.io
  let p := { p with io }
  if result.isWorking then (result,p.handleSourcePreparing now result.progress)
  else if result.hasFailed then (result,{ p.withTodo [] with prepareProgress := 1 })
  else (result,{ p with prepareProgress := 1 })

def sentEverything (p : PendingBlob ι) : Bool :=
  match p.todoParts with
  | [] => true
  | (bgn,_)::_ => SourceBlobIo.isAtEod p.io bgn

end Source

/-- The interval list under construction, and whether the new interval has
been placed in it. -/
structure PartMerge where
  dst : List Part
  newDone : Bool
  deriving DecidableEq, Repr

namespace PartMerge

def emplaceBack (m : PartMerge) (bgn fin : ℕ) : PartMerge := { m with dst := m.dst ++ [(bgn,fin)] }

def placed (m : PartMerge) : PartMerge := { m with newDone := true }

/-- One turn of the loop of `merge_resend_request`. -/
def resendPart (bgn fin : ℕ) (m : PartMerge) : Part → PartMerge
  | (srcBgn,srcEnd) =>
    if bgn < srcBgn then
      if fin < srcBgn then
        let m := if !m.newDone then (m.emplaceBack bgn fin).placed else m
        m.emplaceBack srcBgn srcEnd
      else if fin ≤ srcEnd then
        if m.newDone then { m with dst := setBackEnd srcEnd m.dst }
        else (m.emplaceBack bgn srcEnd).placed
      else if !m.newDone then (m.emplaceBack bgn fin).placed else m
    else if bgn ≤ srcEnd then
      if fin ≤ srcEnd then (m.emplaceBack srcBgn srcEnd).placed
      else (m.emplaceBack srcBgn fin).placed
    else m.emplaceBack srcBgn srcEnd

/-- The step after the loop. -/
def finish (bgn fin : ℕ) (m : PartMerge) : PartMerge :=
  if !m.newDone then m.emplaceBack bgn fin else m

@[simp] theorem finish_placed (bgn fin : ℕ) (dst : List Part) :
    finish bgn fin ⟨dst,true⟩ = ⟨dst,true⟩ := rfl

@[simp] theorem finish_open (bgn fin : ℕ) (dst : List Part) :
    finish bgn fin ⟨dst,false⟩ = ⟨dst++[(bgn,fin)],false⟩ := rfl

end PartMerge

def mergeResendRequest (p : PendingBlob ι) (bgn fin : ℕ) : PendingBlob ι :=
  let fin := if fin = 0 then p.info.totalSize else fin
  if bgn < fin then
    let parts := p.fragmentParts.swap
    let m := (parts.current.foldl (PartMerge.resendPart bgn fin) ⟨[],false⟩).finish bgn fin
    { p with fragmentParts := { parts with next := m.dst } }
  else p

section Target

variable [TargetBlobIo ι]

/-- The local state of `merge_fragment`: the list under construction, the
target and the conjunction of what it has answered. -/
structure FragmentMerge (ι : Type) extends PartMerge where
  io : ι
  result : Bool

namespace FragmentMerge

def store (info : BlobInfo) (offs : ℕ) (src : Block) (m : FragmentMerge ι) : FragmentMerge ι :=
  let (ok,io) := TargetBlobIo.storeFragment m.io offs src info
  { m with io, result := m.result && ok }

def check (offs : ℕ) (blk : Block) (m : FragmentMerge ι) : FragmentMerge ι :=
  let (ok,io) := TargetBlobIo.checkStored m.io offs blk
  { m with io, result := m.result && ok }

def emplaceBack (bgn fin : ℕ) (m : FragmentMerge ι) : FragmentMerge ι :=
  { m with dst := m.dst ++ [(bgn,fin)] }

def placed (m : FragmentMerge ι) : FragmentMerge ι := { m with newDone := true }

/-- One turn of the loop of `merge_fragment`. -/
def mergePart (info : BlobInfo) (bgn fin : ℕ) (fragment : Block) (m : FragmentMerge ι) :
    Part → FragmentMerge ι
  | (srcBgn,srcEnd) =>
    if bgn < srcBgn then
      if fin < srcBgn then
        let m := if !m.newDone then ((m.emplaceBack bgn fin).store info bgn fragment).placed
          else m
        m.emplaceBack srcBgn srcEnd
      else if fin ≤ srcEnd then
        let m := if m.newDone then { m with dst := setBackEnd srcEnd m.dst }
          else ((m.emplaceBack bgn srcEnd).store info bgn (fragment.take (srcBgn-bgn))).placed
        m.check srcBgn (fragment.drop (srcBgn-bgn))
      else
        let m := if !m.newDone then
            (((m.emplaceBack bgn fin).store info bgn (fragment.take (srcBgn-bgn))).store info
              srcEnd (fragment.drop (srcEnd-bgn))).placed
          else m
        m.check srcBgn ((fragment.drop (srcBgn-bgn)).take (srcEnd-srcBgn))
    else if bgn ≤ srcEnd then
      if fin ≤ srcEnd then ((m.emplaceBack srcBgn srcEnd).placed).check bgn fragment
      else (((m.emplaceBack srcBgn fin).store info srcEnd (fragment.drop (srcEnd-bgn))).check
        bgn (fragment.take (srcEnd-bgn))).placed
    else m.emplaceBack srcBgn srcEnd

/-- The loop over the old list and what follows it. -/
def mergeAll (info : BlobInfo) (bgn fin : ℕ) (fragment : Block) (io : ι) (src : List Part) :
    FragmentMerge ι :=
  let m := src.foldl (mergePart info bgn fin fragment) ⟨⟨[],false⟩,io,true⟩
  if !m.newDone then (m.emplaceBack bgn fin).store info bgn fragment else m

end FragmentMerge

def mergeFragment (p : PendingBlob ι) (now bgn : ℕ) (fragment : Block) :
    Bool × PendingBlob ι :=
  let fin := bgn+fragment.length
  let parts := p.fragmentParts.swap
  let m := FragmentMerge.mergeAll p.info bgn fin fragment p.io parts.next
  (m.result,{ p with
    fragmentParts := { parts with current := m.dst }
    io := m.io
    latestUpdate := now })

def handleTargetPreparing (p : PendingBlob ι) (now : ℕ) (newProgress : ℚ) : PendingBlob ι :=
  let p := if p.prepareProgress < newProgress then
      { p with
        previousProgress := p.prepareProgress
        prepareProgress := newProgress
        io := TargetBlobIo.handlePrepared p.io newProgress }
    else p
  { p with lingerTime := p.lingerTime.reset now }

end Target

end PendingBlob

end MsgBus
