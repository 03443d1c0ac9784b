import Mathlib.Data.List.InsertIdx
import MsgBus.StoreLog

/-!
# Maps between targets

A map between targets that commutes with their members carries each operation
of a manipulator over to the manipulator with the other targets. Forgetting
the notes of a target is such a map.
-/

set_option autoImplicit false

namespace MsgBus

open BlobManipulator

/-- The map commutes with the members of the targets. -/
structure TargetMap {τ υ : Type} [TargetBlobIo τ] [TargetBlobIo υ] (g : τ → υ) : Prop where
  handlePrepared : ∀ io progress,
    g (TargetBlobIo.handlePrepared io progress) = TargetBlobIo.handlePrepared (g io) progress
  handleFinished : ∀ io msgId age message info,
    g (TargetBlobIo.handleFinished io msgId age message info) =
      TargetBlobIo.handleFinished (g io) msgId age message info
  handleCancelled : ∀ io, g (TargetBlobIo.handleCancelled io) = TargetBlobIo.handleCancelled (g io)
  storeFragment : ∀ io offs src info, TargetBlobIo.storeFragment (g io) offs src info =
    ((TargetBlobIo.storeFragment io offs src info).1,
      g (TargetBlobIo.storeFragment io offs src info).2)
  checkStored : ∀ io offs blk, TargetBlobIo.checkStored (g io) offs blk =
    ((TargetBlobIo.checkStored io offs blk).1,g (TargetBlobIo.checkStored io offs blk).2)
  targetBuffer : ∀ io, TargetBlobIo.targetBuffer (g io) = TargetBlobIo.targetBuffer io

theorem StoreLog.forget {τ : Type} [TargetBlobIo τ] :
    TargetMap (fun l : StoreLog τ => l.io) :=
  ⟨fun _ _ => rfl,fun _ _ _ _ _ => rfl,fun _ => rfl,fun _ _ _ _ => rfl,fun _ _ _ => rfl,
    fun _ => rfl⟩

namespace TargetMap

section Defs

variable {ς τ υ : Type} (g : τ → υ)

def onPending (p : PendingBlob τ) : PendingBlob υ := { p with io := g p.io }

def onMerge (m : PendingBlob.FragmentMerge τ) : PendingBlob.FragmentMerge υ :=
  { m with io := g m.io }

def onManipulator (m : BlobManipulator ς τ) : BlobManipulator ς υ :=
  { m with incoming := m.incoming.map (onPending g) }

def onCompletion : Completion τ → Completion υ
  | .fetched pending msgId age message => .fetched (onPending g pending) msgId age message
  | .finished pending msgId age info io =>
    .finished (onPending g pending) msgId age info (g io)

def onGetter (getIo : TargetIoGetter τ) : TargetIoGetter υ :=
  fun msgId totalSize => (getIo msgId totalSize).map g

end Defs

section Merge

variable {τ υ : Type} {g : τ → υ}

open PendingBlob FragmentMerge

theorem emplaceBack_map (bgn fin : ℕ) (m : FragmentMerge τ) :
    (onMerge g m).emplaceBack bgn fin = onMerge g (m.emplaceBack bgn fin) := rfl

theorem placed_map (m : FragmentMerge τ) : (onMerge g m).placed = onMerge g m.placed := rfl

variable [TargetBlobIo τ] [TargetBlobIo υ]

theorem store_map (hg : TargetMap g) (info : BlobInfo) (offs : ℕ) (src : Block)
    (m : FragmentMerge τ) : (onMerge g m).store info offs src =
      onMerge g (m.store info offs src) := by
  simp only [store, onMerge, hg.storeFragment]

theorem check_map (hg : TargetMap g) (offs : ℕ) (blk : Block) (m : FragmentMerge τ) :
    (onMerge g m).check offs blk = onMerge g (m.check offs blk) := by
  simp only [check, onMerge, hg.checkStored]

theorem mergePart_map (hg : TargetMap g) (info : BlobInfo) (bgn fin : ℕ) (fragment : Block)
    (m : FragmentMerge τ) (part : Part) :
    mergePart info bgn fin fragment (onMerge g m) part =
      onMerge g (mergePart info bgn fin fragment m part) := by
  obtain ⟨srcBgn,srcEnd⟩ := part
  have hnew : (onMerge g m).newDone = m.newDone := rfl
  simp only [mergePart, hnew, emplaceBack_map, placed_map, store_map hg, check_map hg]
  split_ifs
  · rfl
  · rfl
  · exact check_map hg _ _ ⟨⟨setBackEnd srcEnd m.dst,m.newDone⟩,m.io,m.result⟩
  all_goals first | rfl | exact check_map hg _ _ _

theorem mergeParts_map (hg : TargetMap g) (info : BlobInfo) (bgn fin : ℕ) (fragment : Block)
    (src : List Part) (m : FragmentMerge τ) :
    src.foldl (mergePart info bgn fin fragment) (onMerge g m) =
      onMerge g (src.foldl (mergePart info bgn fin fragment) m) := by
  induction src generalizing m with
  | nil => rfl
  | cons part src ih => rw [List.foldl_cons, List.foldl_cons, mergePart_map hg, ih]

theorem mergeAll_map (hg : TargetMap g) (info : BlobInfo) (bgn fin : ℕ) (fragment : Block)
    (io : τ) (src : List Part) :
    mergeAll info bgn fin fragment (g io) src =
      onMerge g (mergeAll info bgn fin fragment io src) := by
  have hfold : src.foldl (mergePart info bgn fin fragment) ⟨⟨[],false⟩,g io,true⟩ =
      onMerge g (src.foldl (mergePart info bgn fin fragment) ⟨⟨[],false⟩,io,true⟩) :=
    mergeParts_map hg info bgn fin fragment src ⟨⟨[],false⟩,io,true⟩
  have hnew (m : FragmentMerge τ) : (onMerge g m).newDone = m.newDone := rfl
  simp only [mergeAll, hfold, hnew, emplaceBack_map, store_map hg]
  split_ifs <;> rfl

end Merge

section Operations

variable {ς τ υ : Type} {g : τ → υ} {clk : Clock} {f : IncomingFragment}

theorem find_map {α β : Type} {h : α → β} {p : α → Bool} {q : β → Bool} (l : List α)
    (hpq : ∀ a, q (h a) = p a) : (l.map h).findIdx? q = l.findIdx? p := by
  rw [List.findIdx?_map]
  exact congrArg (fun r => l.findIdx? r) (funext hpq)

theorem findBySource_map (m : BlobManipulator ς τ) :
    (onManipulator g m).findBySource f = m.findBySource f := find_map m.incoming (fun _ => rfl)

theorem findByTarget_map (m : BlobManipulator ς τ) :
    (onManipulator g m).findByTarget f = m.findByTarget f := find_map m.incoming (fun _ => rfl)

theorem modify_map {α β : Type} (h : α → β) (u : α → α) (v : β → β) (l : List α) (i : ℕ)
    (huv : ∀ a, v (h a) = h (u a)) : (l.map h).modify i v = (l.modify i u).map h := by
  apply List.ext_getElem?
  intro j
  rw [List.getElem?_modify, List.getElem?_map, List.getElem?_map, List.getElem?_modify]
  cases l[j]? with
  | none => rfl
  | some a =>
    by_cases hij : i = j
    · simp [hij, huv]
    · simp [hij]

theorem filter_map {α β : Type} {h : α → β} {p : α → Bool} {q : β → Bool} (l : List α)
    (hpq : ∀ a, q (h a) = p a) : (l.map h).filter q = (l.filter p).map h := by
  rw [List.filter_map]
  exact congrArg (fun r => (l.filter r).map h) (funext hpq)

theorem expectIncoming_map (m : BlobManipulator ς τ) (clk : Clock) (msgId : MessageId)
    (sourceId : EndpointId) (targetBlobId : BlobId) (io : τ) (maxTime : ℕ) :
    (onManipulator g m).expectIncoming clk msgId sourceId targetBlobId (g io) maxTime =
      onManipulator g (m.expectIncoming clk msgId sourceId targetBlobId io maxTime) := by
  simp only [expectIncoming, onManipulator, List.map_append, List.map_cons, List.map_nil]
  rfl

theorem kept_map (l : List (PendingBlob τ)) :
    (l.map (onPending g)).filter (fun p => !p.receivedEverything) =
      (l.filter (fun p => !p.receivedEverything)).map (onPending g) :=
  filter_map l (fun _ => rfl)

theorem done_map (l : List (PendingBlob τ)) :
    (l.map (onPending g)).filter (fun p => p.receivedEverything) =
      (l.filter (fun p => p.receivedEverything)).map (onPending g) :=
  filter_map l (fun _ => rfl)

theorem requestResends_map (m : BlobManipulator ς τ) (ser : BlobSerializer) (clk : Clock)
    (doSend : SendHandler) (maxMessageSize : ℕ) (ps : List (PendingBlob τ))
    (log : List SendAttempt) :
    (onManipulator g m).requestResends ser clk doSend maxMessageSize (ps.map (onPending g)) log =
      ((m.requestResends ser clk doSend maxMessageSize ps log).1.map (onPending g),
        (m.requestResends ser clk doSend maxMessageSize ps log).2) := by
  induction ps generalizing log with
  | nil => rfl
  | cons p ps ih =>
    have hask : shouldRequestResend (onPending g p) clk.now = shouldRequestResend p clk.now := rfl
    have hmsg : resendRequest ser (onPending g p) maxMessageSize =
      resendRequest ser p maxMessageSize := rfl
    have hid : (onManipulator g m).resendMsgId = m.resendMsgId := rfl
    simp only [List.map_cons, requestResends, hask, hmsg, hid, ih]
    split_ifs <;> rfl

variable [TargetBlobIo τ] [TargetBlobIo υ]

theorem mergeFragment_map (hg : TargetMap g) (p : PendingBlob τ) (now bgn : ℕ)
    (fragment : Block) : (onPending g p).mergeFragment now bgn fragment =
      ((p.mergeFragment now bgn fragment).1,
        onPending g (p.mergeFragment now bgn fragment).2) := by
  have hall := mergeAll_map hg p.info bgn (bgn+fragment.length) fragment p.io
    p.fragmentParts.current
  simp only [PendingBlob.mergeFragment, onPending, DoubleBuffer.swap, hall]
  rfl

theorem mergeInto_map (hg : TargetMap g) (p : PendingBlob τ) :
    mergeInto clk f (onPending g p) = onPending g (mergeInto clk f p) := by
  have haccept : acceptsFragment f (onPending g p) = acceptsFragment f p := rfl
  unfold mergeInto
  rw [haccept]
  split_ifs
  · exact congrArg Prod.snd (mergeFragment_map hg (refreshed clk f p) clk.now f.offset f.fragment)
  · rfl

/-- The push of a fragment does the same over both kinds of targets. -/
theorem pushIncomingFragment_map (hg : TargetMap g) (m : BlobManipulator ς τ) (clk : Clock)
    (getIo : TargetIoGetter τ) (f : IncomingFragment) :
    (onManipulator g m).pushIncomingFragment clk (onGetter g getIo) f =
      onManipulator g (m.pushIncomingFragment clk getIo f) := by
  unfold pushIncomingFragment
  rw [findBySource_map, findByTarget_map]
  cases m.findBySource f with
  | some pos =>
    exact congrArg (fun incoming => { onManipulator g m with incoming })
      (modify_map (onPending g) (mergeInto clk f) _ m.incoming pos (fun p => mergeInto_map hg p))
  | none =>
    cases m.findByTarget f with
    | some pos =>
      exact congrArg (fun incoming => { onManipulator g m with incoming })
        (modify_map (onPending g) (fun p => mergeInto clk f (updateExpected f p))
          (fun p => mergeInto clk f (updateExpected f p)) m.incoming pos
          (fun p => mergeInto_map hg (updateExpected f p)))
    | none =>
      by_cases hb : f.sourceId ≠ broadcastEndpointId
      · simp only [if_pos hb, onGetter]
        cases getIo f.msgId f.totalSize with
        | none => rfl
        | some io =>
          have hnew : newIncoming clk f (g io) = onPending g (newIncoming clk f io) :=
            congrArg Prod.snd (mergeFragment_map hg (createIncoming clk f io) clk.now f.offset
              f.fragment)
          simp only [Option.map_some, onManipulator, hnew, List.map_append, List.map_cons,
            List.map_nil]
      · simp only [if_neg hb]

theorem processIncoming_map (hg : TargetMap g) (m : BlobManipulator ς τ) (ser : BlobSerializer)
    (clk : Clock) (getIo : TargetIoGetter τ) (message : MessageView) :
    (onManipulator g m).processIncoming ser clk (onGetter g getIo) message =
      ((m.processIncoming ser clk getIo message).1,
        onManipulator g (m.processIncoming ser clk getIo message).2) := by
  unfold processIncoming
  cases readFragment ser message with
  | none => rfl
  | some f => exact congrArg (Prod.mk true) (pushIncomingFragment_map hg m clk getIo f)

theorem prepared_map (hg : TargetMap g) (p : PendingBlob τ) (now : ℕ) (progress : ℚ) :
    (onPending g p).handleTargetPreparing now progress =
      onPending g (p.handleTargetPreparing now progress) := by
  have hlt : (onPending g p).prepareProgress = p.prepareProgress := rfl
  unfold PendingBlob.handleTargetPreparing
  rw [hlt]
  split_ifs
  · simp only [onPending, hg.handlePrepared]
  · rfl

theorem processPrepare_map (hg : TargetMap g) (m : BlobManipulator ς τ) (ser : BlobSerializer)
    (clk : Clock) (message : MessageView) :
    (onManipulator g m).processPrepare ser clk message =
      onManipulator g (m.processPrepare ser clk message) := by
  unfold processPrepare
  cases ser.prepare.decode (message.content ser.getDataWithSize) with
  | none => rfl
  | some r =>
    obtain ⟨⟨targetBlobId,progress⟩,rest⟩ := r
    have hfind : (onManipulator g m).incoming.findIdx? (fun p => p.targetBlobId = targetBlobId) =
        m.incoming.findIdx? (fun p => p.targetBlobId = targetBlobId) :=
      find_map m.incoming (fun _ => rfl)
    dsimp only
    rw [hfind]
    cases m.incoming.findIdx? (fun p => p.targetBlobId = targetBlobId) with
    | none => rfl
    | some pos =>
      exact congrArg (fun incoming => { onManipulator g m with incoming })
        (modify_map (onPending g) (fun p => p.handleTargetPreparing clk.now progress)
          (fun p => p.handleTargetPreparing clk.now progress) m.incoming pos
          (fun p => prepared_map hg p clk.now progress))

theorem cancelIncoming_map (hg : TargetMap g) (m : BlobManipulator ς τ) (targetBlobId : BlobId) :
    (onManipulator g m).cancelIncoming targetBlobId =
      ((m.cancelIncoming targetBlobId).1.map g,
        onManipulator g (m.cancelIncoming targetBlobId).2) := by
  have hfind : (onManipulator g m).incoming.findIdx? (fun p => p.targetBlobId = targetBlobId) =
      m.incoming.findIdx? (fun p => p.targetBlobId = targetBlobId) :=
    find_map m.incoming (fun _ => rfl)
  unfold cancelIncoming
  rw [hfind]
  cases m.incoming.findIdx? (fun p => p.targetBlobId = targetBlobId) with
  | none => rfl
  | some pos =>
    simp only [onManipulator, List.getElem?_map, Option.map_map, List.eraseIdx_map]
    congr 2
    exact funext (fun p => (hg.handleCancelled p.io).symm)

theorem complete_map (hg : TargetMap g) (p : PendingBlob τ) :
    finishIncoming clk (onPending g p) = onCompletion g (finishIncoming clk p) := by
  simp only [finishIncoming, onCompletion, hg.handleFinished]
  rfl

theorem fetch_map (hg : TargetMap g) (p : PendingBlob τ) :
    fetchIncoming clk (onPending g p) = onCompletion g (fetchIncoming clk p) := by
  have hbuf : TargetBlobIo.targetBuffer (onPending g p).io = TargetBlobIo.targetBuffer p.io :=
    hg.targetBuffer p.io
  unfold fetchIncoming
  rw [hbuf]
  cases TargetBlobIo.targetBuffer p.io with
  | none => exact complete_map hg p
  | some blob => rfl

theorem handleComplete_map (hg : TargetMap g) (m : BlobManipulator ς τ) (clk : Clock) :
    (onManipulator g m).handleComplete clk =
      (onManipulator g (m.handleComplete clk).1,
        (m.handleComplete clk).2.map (onCompletion g)) := by
  simp only [handleComplete, onManipulator, kept_map, done_map, List.map_map]
  congr 2
  exact funext (fun p => complete_map hg p)

theorem fetchAll_map (hg : TargetMap g) (m : BlobManipulator ς τ) (clk : Clock) :
    (onManipulator g m).fetchAll clk =
      (onManipulator g (m.fetchAll clk).1,(m.fetchAll clk).2.map (onCompletion g)) := by
  simp only [fetchAll, onManipulator, kept_map, done_map, List.map_map]
  congr 2
  exact funext (fun p => fetch_map hg p)

variable [SourceBlobIo ς]

theorem update_map (hg : TargetMap g) (m : BlobManipulator ς τ) (ser : BlobSerializer)
    (clk : Clock) (doSend : SendHandler) (maxMessageSize : ℕ) :
    (onManipulator g m).update ser clk doSend maxMessageSize =
      ⟨onManipulator g (m.update ser clk doSend maxMessageSize).manipulator,
        (m.update ser clk doSend maxMessageSize).sends,
        (m.update ser clk doSend maxMessageSize).cancelled.map g⟩ := by
  have hkept : (m.incoming.map (onPending g)).filter (fun p => !p.maxTime.isExpired clk.now) =
      (m.incoming.filter (fun p => !p.maxTime.isExpired clk.now)).map (onPending g) :=
    filter_map m.incoming (fun _ => rfl)
  have hgone : (m.incoming.map (onPending g)).filter (fun p => p.maxTime.isExpired clk.now) =
      (m.incoming.filter (fun p => p.maxTime.isExpired clk.now)).map (onPending g) :=
    filter_map m.incoming (fun _ => rfl)
  have hclean : (((onManipulator g m).cleanupOutgoing clk).cleanupIncoming clk) =
      (onManipulator g ((m.cleanupOutgoing clk).cleanupIncoming clk).1,
        ((m.cleanupOutgoing clk).cleanupIncoming clk).2.map g) := by
    simp only [cleanupOutgoing, cleanupIncoming, onManipulator, hkept, hgone, List.map_map]
    congr 2
    exact funext (fun p => (hg.handleCancelled p.io).symm)
  have hreq := requestResends_map (g := g) ((m.cleanupOutgoing clk).cleanupIncoming clk).1 ser clk
    doSend maxMessageSize ((m.cleanupOutgoing clk).cleanupIncoming clk).1.incoming []
  have hin : (onManipulator g ((m.cleanupOutgoing clk).cleanupIncoming clk).1).incoming =
    ((m.cleanupOutgoing clk).cleanupIncoming clk).1.incoming.map (onPending g) := rfl
  simp only [update, hclean, hin, hreq]
  rfl

end Operations

end TargetMap

end MsgBus
