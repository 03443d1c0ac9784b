import MsgBus.ManipulatorRules
import MsgBus.ResourceConsumer
import MsgBus.StreamKept

/-!
# Calls on shared targets

Calls arrive at a shared stream in one order, whichever transfers make them.
A call is admitted if a stored piece is a part of the content that fits, and
if the stream has handed on all content before it is told that it is finished.
Admitted calls keep the stream tidy, and what it keeps only grows.
-/

set_option autoImplicit false

namespace MsgBus.SharedTargets

open IntervalList ByteBlock FragmentMerge BlobStream StreamKept

/-! ## One stream -/

def signalChunks (signals : List BlobStreamSignal) : List BlobStreamChunk :=
  signals.filterMap (fun
    | .dataAppended chunk => some chunk
    | _ => none)

/-- The data that the signals hand on. -/
def payload (signals : List BlobStreamSignal) : Block :=
  ((signalChunks signals).map (fun c => c.data.flatten)).flatten

theorem payload_append (xs ys : List BlobStreamSignal) :
    payload (xs++ys) = payload xs ++ payload ys := by
  simp [payload, signalChunks]

/-- The end is signalled only behind the whole content. -/
def FinishedWhole (content : Block) (signals : List BlobStreamSignal) : Prop :=
  ∀ pre post requestId, signals = pre ++ .finished requestId :: post → payload pre = content

/-- The signals of a resource that is streamed as it should be. -/
structure Streamed (content : Block) (signals : List BlobStreamSignal) : Prop where
  front : payload signals <+: content
  order : Consecutive 0 (signalChunks signals)
  whole : FinishedWhole content signals

theorem finishedWhole_snoc {content : Block} {signals : List BlobStreamSignal}
    {signal : BlobStreamSignal} (h : FinishedWhole content signals)
    (hs : ∀ requestId, signal = .finished requestId → payload signals = content) :
    FinishedWhole content (signals++[signal]) := by
  intro pre post requestId he
  rcases List.eq_nil_or_concat' post with rfl | ⟨post,last,rfl⟩
  · obtain ⟨rfl,hl⟩ := List.append_inj' he rfl
    exact hs requestId (List.singleton_inj.mp hl)
  · rw [← List.cons_append, ← List.append_assoc] at he
    exact h pre post requestId (List.append_inj' he rfl).1

structure Sound (content : Block) (io : BlobStreamIo) : Prop where
  tidy : Tidy content io
  finished : FinishedWhole content io.signals

def CallOk (content : Block) (io : BlobStreamIo) : TargetCall → Prop
  | .store offs src _ => Slice content offs src ∧ src ≠ [] ∧ Fits io offs src
  | .finished _ _ _ _ => appended io = content
  | _ => True

/-- What an admitted call leads to. -/
structure Grown (content : Block) (io io' : BlobStreamIo) : Prop where
  sound : Sound content io'
  kept : covered (kept io) ⊆ covered (kept io')
  front : appended io <+: appended io'
  blobId : io'.blobId = io.blobId

section Stream

variable {content : Block} {io : BlobStreamIo}

theorem sound_fresh (content : Block) (blobId : BlobId) :
    Sound content (makeTargetBlobStreamIo blobId) := by
  refine ⟨tidy_fresh content blobId,?_⟩
  intro pre post requestId he
  cases pre <;> cases he

theorem grown_refl (h : Sound content io) : Grown content io io :=
  ⟨h,Set.Subset.rfl,List.prefix_rfl,rfl⟩

theorem grown_trans {io₁ io₂ : BlobStreamIo} (h : Grown content io io₁)
    (h' : Grown content io₁ io₂) : Grown content io io₂ :=
  ⟨h'.sound,h.kept.trans h'.kept,h.front.trans h'.front,h'.blobId.trans h.blobId⟩

/-- A stream that has handed on everything goes on to have. -/
theorem grown_whole {io' : BlobStreamIo} (h : Grown content io io')
    (hw : appended io = content) : appended io' = content := by
  have hf := h.front
  rw [hw] at hf
  apply (hf.eq_of_length_le ?_).symm
  rw [h.sound.tidy.front]
  exact List.length_take_le' _ _

/-- A signal without data leaves the stream as it is. -/
theorem grown_emit (signal : BlobStreamSignal) (h : Sound content io)
    (hd : ∀ chunk, signal ≠ .dataAppended chunk)
    (hs : ∀ requestId, signal = .finished requestId → appended io = content) :
    Grown content io (io.emit signal) := by
  have hc : chunks (io.emit signal) = chunks io := by
    cases signal with
    | dataAppended chunk => exact absurd rfl (hd chunk)
    | _ => simp [chunks, BlobStreamIo.emit]
  have ha : appended (io.emit signal) = appended io := by rw [appended, hc, appended]
  refine ⟨⟨⟨?_,h.tidy.bound,?_,h.tidy.slices,h.tidy.waits⟩,
    finishedWhole_snoc h.finished hs⟩,Set.Subset.rfl,?_,rfl⟩
  · exact ha.trans h.tidy.front
  · rw [hc]
    exact h.tidy.offsets
  · exact ha ▸ List.prefix_rfl

theorem storeFragment_blobId (io : BlobStreamIo) (offs : ℕ) (src : Block) (info : BlobInfo) :
    (io.storeFragment offs src info).blobId = io.blobId := by
  rw [BlobStreamIo.storeFragment]
  split_ifs <;> rfl

theorem store_signals (io : BlobStreamIo) (offs : ℕ) (src : Block) (info : BlobInfo) :
    (∃ chunk, (io.storeFragment offs src info).signals = io.signals ++ [.dataAppended chunk]) ∨
      (io.storeFragment offs src info).signals = io.signals := by
  rw [BlobStreamIo.storeFragment]
  split
  · apply Or.inl
    split
    · exact ⟨_,rfl⟩
    · exact ⟨_,rfl⟩
  · exact Or.inr rfl

theorem grown_store {offs : ℕ} {src : Block} (info : BlobInfo) (h : Sound content io)
    (hs : Slice content offs src) (hn : src ≠ []) (hf : Fits io offs src) :
    Grown content io (io.storeFragment offs src info) := by
  have hkept := (Set.union_subset_iff.mp (fits_store info hf)).2
  have htidy := tidy_store info h.tidy hs hn
  have hid := storeFragment_blobId io offs src info
  rcases store_signals io offs src info with ⟨chunk,hg⟩ | hg
  · refine ⟨⟨htidy,?_⟩,hkept,?_,hid⟩
    · rw [hg]
      exact finishedWhole_snoc h.finished (fun _ he => by cases he)
    · change payload io.signals <+: payload (io.storeFragment offs src info).signals
      rw [hg, payload_append]
      exact List.prefix_append _ _
  · refine ⟨⟨htidy,?_⟩,hkept,?_,hid⟩
    · rw [hg]
      exact h.finished
    · change payload io.signals <+: payload (io.storeFragment offs src info).signals
      exact hg ▸ List.prefix_rfl

theorem grown_call {call : TargetCall} (h : Sound content io) (hc : CallOk content io call) :
    Grown content io (call.carryOut io) := by
  cases call with
  | prepared progress =>
    exact grown_emit _ h (fun _ he => by cases he) (fun _ he => by cases he)
  | finished msgId age message info =>
    exact grown_emit _ h (fun _ he => by cases he) (fun _ _ => hc)
  | cancelled => exact grown_emit _ h (fun _ he => by cases he) (fun _ he => by cases he)
  | store offs src info => exact grown_store info h hc.1 hc.2.1 hc.2.2
  | check offs blk => exact grown_refl h

end Stream

/-! ## All targets -/

variable {υ : Type}

def streamOf : SharedIo → Option BlobStreamIo
  | .stream io => some io
  | .chunks _ => none

def applyCall (targets : List (SharedTarget υ)) (c : ℕ × TargetCall) : List (SharedTarget υ) :=
  targets.modify c.1 (fun t => { t with io := t.io.carryOut c.2 })

def Admitted (content : υ → Block) (targets : List (SharedTarget υ)) (c : ℕ × TargetCall) :
    Prop :=
  ∀ t, targets[c.1]? = some t → ∀ io, t.io = .stream io → CallOk (content t.locator) io c.2

def AllAdmitted (content : υ → Block) : List (SharedTarget υ) → List (ℕ × TargetCall) → Prop
  | _, [] => True
  | targets, c::cs => Admitted content targets c ∧ AllAdmitted content (applyCall targets c) cs

def AllSound (content : υ → Block) (targets : List (SharedTarget υ)) : Prop :=
  ∀ t ∈ targets, ∀ io, t.io = .stream io → Sound (content t.locator) io

/-- A target and what has become of it. -/
structure Successor (content : υ → Block) (t t' : SharedTarget υ) : Prop where
  locator : t'.locator = t.locator
  requestId : t'.io.requestId = t.io.requestId
  stream : ∀ io', t'.io = .stream io' →
    ∃ io, t.io = .stream io ∧ Grown (content t.locator) io io'

/-- Each target has a successor in its place. -/
structure Advanced (content : υ → Block) (targets targets' : List (SharedTarget υ)) : Prop where
  length : targets'.length = targets.length
  successor : ∀ (i : ℕ) t, targets[i]? = some t →
    ∃ t', targets'[i]? = some t' ∧ Successor content t t'

section Targets

variable {content : υ → Block} {targets : List (SharedTarget υ)} {c : ℕ × TargetCall}

theorem storeParts_blobId (io : BlobChunkIo) (chunkIdx dsto : ℕ) (data : Block) (n : ℕ) :
    (io.storeParts chunkIdx dsto data n).blobId = io.blobId := by
  induction n generalizing io chunkIdx dsto data with
  | zero => rfl
  | succ n ih =>
    rw [BlobChunkIo.storeParts, ih, BlobChunkIo.storeChunk]
    split_ifs <;> rfl

theorem carryOut_requestId (io : SharedIo) (call : TargetCall) :
    (io.carryOut call).requestId = io.requestId := by
  cases io with
  | stream io =>
    cases call with
    | store offs src info => exact storeFragment_blobId io offs src info
    | _ => rfl
  | chunks io =>
    cases call with
    | store offs src info => exact storeParts_blobId io _ _ _ _
    | _ => rfl

theorem successor_refl (t : SharedTarget υ)
    (h : ∀ io, t.io = .stream io → Sound (content t.locator) io) : Successor content t t :=
  ⟨rfl,rfl,fun io hio => ⟨io,hio,grown_refl (h io hio)⟩⟩

theorem successor_trans {t t₁ t₂ : SharedTarget υ} (h : Successor content t t₁)
    (h' : Successor content t₁ t₂) : Successor content t t₂ := by
  refine ⟨h'.locator.trans h.locator,h'.requestId.trans h.requestId,?_⟩
  intro io₂ hio₂
  obtain ⟨io₁,hio₁,hg₁⟩ := h'.stream io₂ hio₂
  obtain ⟨io,hio,hg⟩ := h.stream io₁ hio₁
  rw [h.locator] at hg₁
  exact ⟨io,hio,grown_trans hg hg₁⟩

theorem advanced_refl (h : AllSound content targets) : Advanced content targets targets :=
  ⟨rfl,fun _ t ht => ⟨t,ht,successor_refl t (h t (List.mem_of_getElem? ht))⟩⟩

theorem advanced_trans {targets₁ targets₂ : List (SharedTarget υ)}
    (h : Advanced content targets targets₁) (h' : Advanced content targets₁ targets₂) :
    Advanced content targets targets₂ := by
  refine ⟨h'.length.trans h.length,?_⟩
  intro i t ht
  obtain ⟨t₁,ht₁,hs₁⟩ := h.successor i t ht
  obtain ⟨t₂,ht₂,hs₂⟩ := h'.successor i t₁ ht₁
  exact ⟨t₂,ht₂,successor_trans hs₁ hs₂⟩

/-- Each target has come from one in its place. -/
theorem advanced_origin {targets' : List (SharedTarget υ)} (h : Advanced content targets targets')
    {i : ℕ} {t' : SharedTarget υ} (ht' : targets'[i]? = some t') :
    ∃ t, targets[i]? = some t ∧ Successor content t t' := by
  have hi : i < targets.length := by
    rw [← h.length]
    exact (List.getElem?_eq_some_iff.mp ht').1
  obtain ⟨t₁,ht₁,hs⟩ := h.successor i _ (List.getElem?_eq_getElem hi)
  rw [ht'] at ht₁
  obtain rfl := Option.some.inj ht₁
  exact ⟨_,List.getElem?_eq_getElem hi,hs⟩

theorem advanced_sound {targets' : List (SharedTarget υ)}
    (h : Advanced content targets targets') : AllSound content targets' := by
  intro t' ht' io' hio'
  obtain ⟨i,hi⟩ := List.mem_iff_getElem?.mp ht'
  obtain ⟨t,_,hs⟩ := advanced_origin h hi
  obtain ⟨_,_,hg⟩ := hs.stream io' hio'
  rw [hs.locator]
  exact hg.sound

theorem advanced_ids {targets' : List (SharedTarget υ)} (h : Advanced content targets targets') :
    targets'.map (fun t => t.io.requestId) = targets.map (fun t => t.io.requestId) := by
  apply List.ext_getElem?
  intro i
  rw [List.getElem?_map, List.getElem?_map]
  cases ht : targets[i]? with
  | none =>
    have hn : targets'[i]? = none := by
      rw [List.getElem?_eq_none_iff] at ht ⊢
      rw [h.length]
      exact ht
    rw [hn]
  | some t =>
    obtain ⟨t',ht',hs⟩ := h.successor i t ht
    rw [ht', Option.map_some, Option.map_some, hs.requestId]

/-- Only the target in one place has changed. -/
theorem advanced_modify (i : ℕ) (f : SharedTarget υ → SharedTarget υ)
    (h : AllSound content targets) (hf : ∀ t, targets[i]? = some t → Successor content t (f t)) :
    Advanced content targets (targets.modify i f) := by
  refine ⟨List.length_modify ..,?_⟩
  intro j t ht
  rw [List.getElem?_modify, ht]
  by_cases hij : i = j
  · subst hij
    exact ⟨f t,by simp,hf t ht⟩
  · exact ⟨t,by simp [hij],successor_refl t (h t (List.mem_of_getElem? ht))⟩

theorem advanced_call (h : AllSound content targets) (hc : Admitted content targets c) :
    Advanced content targets (applyCall targets c) := by
  apply advanced_modify _ _ h
  intro t ht
  refine ⟨rfl,carryOut_requestId t.io c.2,?_⟩
  intro io' hio'
  cases hio : t.io with
  | stream io =>
    have he : io' = c.2.carryOut io := by
      simp only [hio, SharedIo.carryOut] at hio'
      exact (SharedIo.stream.inj hio').symm
    rw [he]
    exact ⟨io,rfl,grown_call (h t (List.mem_of_getElem? ht) io hio) (hc t ht io hio)⟩
  | chunks io =>
    simp only [hio, SharedIo.carryOut] at hio'
    cases hio'

theorem advanced_calls (cs : List (ℕ × TargetCall)) (h : AllSound content targets)
    (hc : AllAdmitted content targets cs) :
    Advanced content targets (cs.foldl applyCall targets) := by
  induction cs generalizing targets with
  | nil => exact advanced_refl h
  | cons c cs ih =>
    have hone := advanced_call h hc.1
    exact advanced_trans hone (ih (advanced_sound hone) hc.2)

/-- A call that stores nothing stays admitted. -/
theorem admitted_later {targets' : List (SharedTarget υ)} (h : Advanced content targets targets')
    (hn : ∀ offs src info, c.2 ≠ .store offs src info) (hc : Admitted content targets c) :
    Admitted content targets' c := by
  intro t' ht' io' hio'
  obtain ⟨t,ht,hs⟩ := advanced_origin h ht'
  obtain ⟨io,hio,hg⟩ := hs.stream io' hio'
  have hok := hc t ht io hio
  rw [hs.locator]
  obtain ⟨i,call⟩ := c
  cases call with
  | finished msgId age message info => exact grown_whole hg hok
  | store offs src info => exact absurd rfl (hn offs src info)
  | _ => trivial

/-- Calls that store nothing are admitted in any order. -/
theorem notices_admitted (cs : List (ℕ × TargetCall)) (h : AllSound content targets)
    (hn : ∀ c ∈ cs, ∀ offs src info, c.2 ≠ .store offs src info)
    (hc : ∀ c ∈ cs, Admitted content targets c) : AllAdmitted content targets cs := by
  induction cs generalizing targets with
  | nil => trivial
  | cons c cs ih =>
    have hone := advanced_call h (hc c (by simp))
    refine ⟨hc c (by simp),ih (advanced_sound hone) (fun d hd => hn d (by simp [hd])) ?_⟩
    intro d hd
    exact admitted_later hone (hn d (by simp [hd])) (hc d (by simp [hd]))

end Targets

/-! ## One merge -/

def callsIo (io : BlobStreamIo) (cs : List TargetCall) : BlobStreamIo :=
  cs.foldl (fun io c => c.carryOut io) io

def CallsOk (content : Block) : BlobStreamIo → List TargetCall → Prop
  | _, [] => True
  | io, c::cs => CallOk content io c ∧ CallsOk content (c.carryOut io) cs

/-- The pieces fit one after the other. -/
def AllFit (info : BlobInfo) : BlobStreamIo → List (ℕ × Block) → Prop
  | _, [] => True
  | io, d::ds => Fits io d.1 d.2 ∧ AllFit info (io.storeFragment d.1 d.2 info) ds

instance decidableAllFit (info : BlobInfo) : (io : BlobStreamIo) → (ds : List (ℕ × Block)) →
    Decidable (AllFit info io ds)
  | _, [] => inferInstanceAs (Decidable True)
  | io, d::ds =>
    haveI := decidableAllFit info (io.storeFragment d.1 d.2 info) ds
    inferInstanceAs (Decidable (_ ∧ _))

def callOf (info : BlobInfo) : IoCall → TargetCall
  | .store offs src => .store offs src info
  | .check offs blk => .check offs blk

section Merge

variable {content : Block} {io : BlobStreamIo}

theorem callsIo_grown (cs : List TargetCall) (h : Sound content io) (hc : CallsOk content io cs) :
    Grown content io (callsIo io cs) := by
  induction cs generalizing io with
  | nil => exact grown_refl h
  | cons c cs ih =>
    have hone := grown_call h hc.1
    exact grown_trans hone (ih hone.sound hc.2)

/-- What the calls store is kept in the end. -/
theorem callsIo_stored (cs : List TargetCall) (h : Sound content io) (hc : CallsOk content io cs)
    {offs : ℕ} {src : Block} {info : BlobInfo} (hm : .store offs src info ∈ cs) :
    Set.Ico offs (offs+src.length) ⊆ covered (kept (callsIo io cs)) := by
  induction cs generalizing io with
  | nil => cases hm
  | cons c cs ih =>
    have hone := grown_call h hc.1
    rcases List.mem_cons.mp hm with rfl | hm
    · have hst := (Set.union_subset_iff.mp (fits_store info hc.1.2.2)).1
      exact hst.trans (callsIo_grown cs hone.sound hc.2).kept
    · exact ih hone.sound hc.2 hm

/-- Pieces of the content that fit make calls that are admitted. -/
theorem fit_callsOk (info : BlobInfo) (cs : List IoCall)
    (hs : ∀ d ∈ stores cs, Slice content d.1 d.2 ∧ d.2 ≠ []) (hf : AllFit info io (stores cs)) :
    CallsOk content io (cs.map (callOf info)) := by
  induction cs generalizing io with
  | nil => trivial
  | cons c cs ih =>
    cases c with
    | store offs src =>
      obtain ⟨hslice,hne⟩ := hs (offs,src) (by simp [stores])
      exact ⟨⟨hslice,hne,hf.1⟩,ih (fun d hd => hs d (by simp [stores, hd])) hf.2⟩
    | check offs blk => exact ⟨trivial,ih hs hf⟩

theorem mem_stores {cs : List IoCall} {info : BlobInfo} {d : ℕ × Block} (hd : d ∈ stores cs) :
    .store d.1 d.2 info ∈ cs.map (callOf info) := by
  induction cs with
  | nil => cases hd
  | cons c cs ih =>
    cases c with
    | store offs src =>
      rcases List.mem_cons.mp hd with rfl | hd
      · simp [callOf]
      · exact List.mem_cons_of_mem _ (ih hd)
    | check offs blk => exact List.mem_cons_of_mem _ (ih hd)

/-- A stream stays the same kind of target. -/
theorem foldl_stream {io : SharedIo} {io' : BlobStreamIo} (cs : List TargetCall)
    (h : cs.foldl SharedIo.carryOut io = .stream io') :
    ∃ io₀, io = .stream io₀ ∧ io' = callsIo io₀ cs := by
  induction cs generalizing io with
  | nil => exact ⟨io',h,rfl⟩
  | cons c cs ih =>
    obtain ⟨io₁,hone,hrest⟩ := ih h
    cases io with
    | stream io₀ =>
      obtain rfl := SharedIo.stream.inj hone
      exact ⟨io₀,rfl,hrest⟩
    | chunks io₀ => cases hone

theorem foldl_requestId (io : SharedIo) (cs : List TargetCall) :
    (cs.foldl SharedIo.carryOut io).requestId = io.requestId := by
  induction cs generalizing io with
  | nil => rfl
  | cons c cs ih => exact (ih _).trans (carryOut_requestId io c)

/-- The calls of one transfer change the target in one place. -/
theorem applyCalls_one {υ : Type} (i : ℕ) (cs : List TargetCall)
    (targets : List (SharedTarget υ)) :
    (cs.map (fun call => (i,call))).foldl applyCall targets =
      targets.modify i (fun t => { t with io := cs.foldl SharedIo.carryOut t.io }) := by
  induction cs generalizing targets with
  | nil =>
    apply List.ext_getElem?
    intro j
    rw [List.getElem?_modify]
    by_cases hij : i = j <;> simp [hij]
  | cons c cs ih =>
    rw [List.map_cons, List.foldl_cons, ih, applyCall, List.modify_modify_eq]
    rfl

end Merge

/-! ## The consumer settles an operation -/

/-- Requests may have been changed or dropped, but none writes elsewhere. -/
def SameTargets (s s' : ResourceConsumer υ) : Prop :=
  ∀ e' ∈ s'.streamedResources.entries, ∃ e ∈ s.streamedResources.entries,
    e'.2.resourceIo = e.2.resourceIo

theorem sameTargets_refl (s : ResourceConsumer υ) : SameTargets s s := fun e he => ⟨e,he,rfl⟩

theorem sameTargets_trans {s₀ s₁ s₂ : ResourceConsumer υ} (h : SameTargets s₀ s₁)
    (h' : SameTargets s₁ s₂) : SameTargets s₀ s₂ := by
  intro e₂ he₂
  obtain ⟨e₁,he₁,hio₁⟩ := h' e₂ he₂
  obtain ⟨e,he,hio⟩ := h e₁ he₁
  exact ⟨e,he,hio₁.trans hio⟩

theorem eraseStream_same (s : ResourceConsumer υ) (requestId : ℕ) :
    SameTargets s (s.eraseStream requestId) :=
  fun e he => ⟨e,(List.mem_filter.mp he).1,rfl⟩

theorem handleSignals_spec (now : ℕ) (signals : List BlobStreamSignal) (s : ResourceConsumer υ) :
    (signals.foldl (ResourceConsumer.handleSignal now) s).targets = s.targets ∧
    (signals.foldl (ResourceConsumer.handleSignal now) s).blobs = s.blobs ∧
    SameTargets s (signals.foldl (ResourceConsumer.handleSignal now) s) := by
  induction signals generalizing s with
  | nil => exact ⟨rfl,rfl,sameTargets_refl s⟩
  | cons signal signals ih =>
    obtain ⟨ht,hb,hs⟩ := ih (s.handleSignal now signal)
    rw [List.foldl_cons, ht, hb]
    have hone : SameTargets s (s.handleSignal now signal) := by
      cases signal with
      | finished requestId => exact eraseStream_same s requestId
      | cancelled requestId => exact eraseStream_same s requestId
      | _ => exact sameTargets_refl s
    refine ⟨?_,?_,sameTargets_trans hone hs⟩
    · cases signal <;> rfl
    · cases signal <;> rfl

theorem carryOut_spec (now : ℕ) (s : ResourceConsumer υ) (c : ℕ × TargetCall) :
    (s.carryOut now c).targets = applyCall s.targets c ∧
    (s.carryOut now c).blobs = s.blobs ∧ SameTargets s (s.carryOut now c) := by
  rw [ResourceConsumer.carryOut]
  split
  · rename_i hn
    refine ⟨?_,rfl,sameTargets_refl s⟩
    apply List.ext_getElem?
    intro j
    rw [applyCall, List.getElem?_modify]
    by_cases hij : c.1 = j
    · subst hij
      simp [hn]
    · simp [hij]
  · rename_i t ht
    obtain ⟨hts,hb,hs⟩ := handleSignals_spec now
      ((t.io.carryOut c.2).signals.drop t.io.signals.length)
      { s with targets := s.targets.set c.1 { t with io := t.io.carryOut c.2 } }
    refine ⟨hts.trans ?_,hb,hs⟩
    apply List.ext_getElem?
    intro j
    rw [applyCall, List.getElem?_modify, List.getElem?_set]
    by_cases hij : c.1 = j
    · subst hij
      have hlt := (List.getElem?_eq_some_iff.mp ht).1
      rw [if_pos rfl, if_pos hlt, ht]
      simp
    · simp [hij]

/-- The calls that an operation has noted. -/
def notedCalls (incoming : List (PendingBlob TransferIo)) (dropped : List TransferIo) :
    List (ℕ × TargetCall) :=
  (dropped ++ incoming.map (fun p => p.io)).flatMap TransferIo.noted

theorem settle_spec (now : ℕ) (s : ResourceConsumer υ)
    (blobs : BlobManipulator BufferBlobIo TransferIo) (dropped : List TransferIo) :
    (s.settle now blobs dropped).targets =
      (notedCalls blobs.incoming dropped).foldl applyCall s.targets ∧
    (s.settle now blobs dropped).blobs.incoming =
      blobs.incoming.map (fun p => { p with io := p.io.cleared }) ∧
    SameTargets s (s.settle now blobs dropped) := by
  have hrun : ∀ (cs : List (ℕ × TargetCall)) (s : ResourceConsumer υ),
      (cs.foldl (ResourceConsumer.carryOut now) s).targets = cs.foldl applyCall s.targets ∧
      (cs.foldl (ResourceConsumer.carryOut now) s).blobs = s.blobs ∧
      SameTargets s (cs.foldl (ResourceConsumer.carryOut now) s) := by
    intro cs
    induction cs with
    | nil => exact fun s => ⟨rfl,rfl,sameTargets_refl s⟩
    | cons c cs ih =>
      intro s
      obtain ⟨ht,hb,hs⟩ := carryOut_spec now s c
      obtain ⟨ht',hb',hs'⟩ := ih (s.carryOut now c)
      rw [List.foldl_cons, List.foldl_cons, ht', hb', ht, hb]
      exact ⟨rfl,rfl,sameTargets_trans hs hs'⟩
  obtain ⟨ht,hb,hs⟩ := hrun (notedCalls blobs.incoming dropped) { s with blobs := { blobs with
    incoming := blobs.incoming.map (fun p => { p with io := p.io.cleared }) } }
  exact ⟨ht,congrArg (fun m => m.incoming) hb,hs⟩

end MsgBus.SharedTargets
