import MsgBus.Lib.StepRun
import MsgBus.ManipulatorRules
import MsgBus.ReceivedParts

/-!
# Resend requests

The parts to do of an outgoing blob are sound: separate intervals, none of
them empty, inside the blob. Sending takes from the last part and keeps them
sound. A resend request adds what it names as it stands; its end is not
limited to the size of the blob.
-/

set_option autoImplicit false

namespace MsgBus.ResendRequests

open IntervalList FragmentMerge BlobManipulator ReceivedFragment

variable {ς τ : Type} [SourceBlobIo ς]

/-- A source whose size stays and that ends where its size says. -/
structure SteadySource (ς : Type) [SourceBlobIo ς] : Prop where
  atEod : ∀ (io : ς) offs, SourceBlobIo.isAtEod io offs = decide (SourceBlobIo.totalSize io ≤ offs)
  prepareSize : ∀ io : ς,
    SourceBlobIo.totalSize (SourceBlobIo.prepare io).2 = SourceBlobIo.totalSize io
  fetchSize : ∀ (io : ς) offs size,
    SourceBlobIo.totalSize (SourceBlobIo.fetchFragment io offs size).2 = SourceBlobIo.totalSize io

/-- The states that a source passes while its blob is sent. -/
inductive Later (io : ς) : ς → Prop where
  | refl : Later io io
  | prepared {io' : ς} (h : Later io io') : Later io (SourceBlobIo.prepare io').2
  | fetched {io' : ς} (h : Later io io') (offs size : ℕ) :
    Later io (SourceBlobIo.fetchFragment io' offs size).2

theorem Later.trans {io io' io'' : ς} (h : Later io io') (h' : Later io' io'') :
    Later io io'' := by
  induction h' with
  | refl => exact h
  | prepared _ ih => exact ih.prepared
  | fetched _ offs size ih => exact ih.fetched offs size

structure Sound (p : PendingBlob ς) : Prop where
  intervals : Intervals p.todoParts
  inside : ∀ part ∈ p.todoParts, part.2 ≤ p.info.totalSize
  size : p.info.totalSize = SourceBlobIo.totalSize p.io

/-- The same blob, its source maybe in a later state. -/
structure SameBlob (p q : PendingBlob ς) : Prop where
  msgId : q.msgId = p.msgId
  info : q.info = p.info
  sourceBlobId : q.sourceBlobId = p.sourceBlobId
  targetBlobId : q.targetBlobId = p.targetBlobId
  later : Later p.io q.io

theorem SameBlob.trans {p q r : PendingBlob ς} (h : SameBlob p q) (h' : SameBlob q r) :
    SameBlob p r :=
  ⟨h'.msgId.trans h.msgId,h'.info.trans h.info,h'.sourceBlobId.trans h.sourceBlobId,
    h'.targetBlobId.trans h.targetBlobId,h.later.trans h'.later⟩

theorem SameBlob.fragmentHeader {p q : PendingBlob ς} (h : SameBlob p q) (bgn : ℕ) :
    fragmentHeader q bgn = fragmentHeader p bgn := by
  rw [BlobManipulator.fragmentHeader, h.msgId, h.info, h.sourceBlobId, h.targetBlobId]
  rfl

theorem SameBlob.fragmentMessage {p q : PendingBlob ς} (h : SameBlob p q) (ser : BlobSerializer)
    (bgn : ℕ) (written : Block) :
    fragmentMessage ser q bgn written = fragmentMessage ser p bgn written := by
  rw [BlobManipulator.fragmentMessage, h.fragmentHeader, h.info]
  rfl

/-! ## One turn of the sending loop -/

section Turn

variable {p : PendingBlob ς}

/-- The parts to do when the last one has been advanced to `bgn`. -/
theorem advanceTodo_append (front : List Part) (last : Part) (bgn fin : ℕ) :
    advanceTodo (front ++ [last]) bgn fin =
      front ++ if fin ≤ bgn then [] else [(bgn,fin)] := by
  rw [advanceTodo, List.dropLast_concat]
  split_ifs <;> simp

theorem sentEverything_iff (rules : SteadySource ς) (h : Sound p) :
    p.sentEverything = true ↔ p.todoParts = [] := by
  rw [PendingBlob.sentEverything]
  cases htodo : p.todoParts with
  | nil => simp
  | cons part parts =>
    obtain ⟨bgn,fin⟩ := part
    have hlt := h.intervals.1 (bgn,fin) (by simp [htodo])
    have hin := h.inside (bgn,fin) (by simp [htodo])
    have hsize := h.size
    simp only [rules.atEod, decide_eq_true_eq, reduceCtorEq, iff_false, not_le] at hlt hin ⊢
    omega

/-- The bytes a turn reads for the part that begins here. -/
def fetched (ser : BlobSerializer) (maxMessageSize : ℕ) (p : PendingBlob ς) (bgn : ℕ) :
    Block × ς :=
  SourceBlobIo.fetchFragment (SourceBlobIo.prepare p.io).2 bgn
    (messageSize p maxMessageSize-(ser.header.encode (fragmentHeader p bgn)).length)

/-- A turn that gets to the fragment of the last part: the header fits and
the source gives something. -/
def Sends (ser : BlobSerializer) (maxMessageSize : ℕ) (p : PendingBlob ς) (bgn : ℕ) : Prop :=
  (ser.header.encode (fragmentHeader p bgn)).length ≤ messageSize p maxMessageSize ∧
    (fetched ser maxMessageSize p bgn).1 ≠ []

/-- What a turn does to its blob, by what the source answers. -/
inductive Visited (ser : BlobSerializer) (fragmentMsgId : MessageId) (doSend : SendHandler)
    (maxMessageSize : ℕ) (p q : PendingBlob ς) (log log' : List SendAttempt) : Prop where
  | failed (hprep : (SourceBlobIo.prepare p.io).1.hasFailed = true) (htodo : q.todoParts = [])
  | preparing (hprep : (SourceBlobIo.prepare p.io).1.isWorking = true)
    (hio : q.io = (SourceBlobIo.prepare p.io).2)
    (htodo : q.todoParts = PendingBlob.setBackEnd p.info.totalSize p.todoParts)
    (hlog : ∃ more, log' = log ++ more)
  | idle (hio : q.io = (SourceBlobIo.prepare p.io).2 ∨
      ∃ bgn, q.io = (fetched ser maxMessageSize p bgn).2)
    (htodo : q.todoParts = p.todoParts) (hlog : log' = log)
    (hwhy : ∀ part ∈ p.todoParts.getLast?, ¬ Sends ser maxMessageSize p part.1)
  | sent (front : List Part) (bgn fin : ℕ) (hlast : p.todoParts = front ++ [(bgn,fin)])
    (hsends : Sends ser maxMessageSize p bgn)
    (hio : q.io = (fetched ser maxMessageSize p bgn).2)
    (htodo : q.todoParts = front ++
      if fin ≤ bgn+(fetched ser maxMessageSize p bgn).1.length then []
      else [(bgn+(fetched ser maxMessageSize p bgn).1.length,fin)])
    (hlog : log' = offer doSend log fragmentMsgId
      (fragmentMessage ser p bgn (fetched ser maxMessageSize p bgn).1))

/-- While its source prepares, the last part of a blob ends where the blob
ends. -/
theorem handleSourcePreparing_same (rules : SteadySource ς) (h : Sound p) (now : ℕ)
    (progress : ℚ) :
    let q := PendingBlob.handleSourcePreparing
      { p with io := (SourceBlobIo.prepare p.io).2 } now progress
    SameBlob p q ∧ q.io = (SourceBlobIo.prepare p.io).2 ∧
      q.todoParts = PendingBlob.setBackEnd p.info.totalSize p.todoParts := by
  have hsize : SourceBlobIo.totalSize (SourceBlobIo.prepare p.io).2 = p.info.totalSize := by
    rw [rules.prepareSize, h.size]
  have hio : Later p.io (SourceBlobIo.prepare p.io).2 := Later.refl.prepared
  rw [PendingBlob.handleSourcePreparing]
  split_ifs with htodo
  · refine ⟨⟨rfl,?_,rfl,rfl,hio⟩,rfl,?_⟩
    · change { p.info with
        totalSize := SourceBlobIo.totalSize (SourceBlobIo.prepare p.io).2 } = p.info
      rw [hsize]
    · exact congrArg (fun size => PendingBlob.setBackEnd size p.todoParts) hsize
  · have hnil : p.todoParts = [] := not_not.mp htodo
    refine ⟨⟨rfl,rfl,rfl,rfl,hio⟩,rfl,?_⟩
    rw [hnil]
    exact hnil

theorem processPreparingOutgoing_same (m : BlobManipulator ς τ) (ser : BlobSerializer)
    (clk : Clock) (doSend : SendHandler) (q : PendingBlob ς) (log : List SendAttempt) :
    let r := m.processPreparingOutgoing ser clk doSend q log
    SameBlob q r.1 ∧ r.1.io = q.io ∧ r.1.todoParts = q.todoParts ∧ ∃ more, r.2 = log ++ more := by
  rw [processPreparingOutgoing]
  dsimp only
  split_ifs
  · exact ⟨⟨rfl,rfl,rfl,rfl,Later.refl⟩,rfl,rfl,_,rfl⟩
  · exact ⟨⟨rfl,rfl,rfl,rfl,Later.refl⟩,rfl,rfl,[],(List.append_nil log).symm⟩

/-- A turn with the prepared source. -/
theorem processFinishedOutgoing_visited (m : BlobManipulator ς τ) (ser : BlobSerializer)
    (clk : Clock) (doSend : SendHandler) (maxMessageSize : ℕ) (log : List SendAttempt) :
    let r := m.processFinishedOutgoing ser clk doSend maxMessageSize
      { p with io := (SourceBlobIo.prepare p.io).2, prepareProgress := 1 } log
    SameBlob p r.1 ∧ Visited ser m.fragmentMsgId doSend maxMessageSize p r.1 log r.2 := by
  have hio : Later p.io (SourceBlobIo.prepare p.io).2 := Later.refl.prepared
  have htodo : PendingBlob.todoParts
    { p with io := (SourceBlobIo.prepare p.io).2, prepareProgress := 1 } = p.todoParts := rfl
  rw [processFinishedOutgoing, htodo]
  cases hlast : p.todoParts.getLast? with
  | none => exact ⟨⟨rfl,rfl,rfl,rfl,hio⟩,.idle (Or.inl rfl) rfl rfl (by simp [hlast])⟩
  | some part =>
    obtain ⟨bgn,fin⟩ := part
    obtain ⟨front,hfront⟩ := List.getLast?_eq_some_iff.mp hlast
    dsimp only
    split_ifs with hfits hwritten
    · refine ⟨⟨rfl,rfl,rfl,rfl,hio.fetched _ _⟩,.sent front bgn fin hfront ⟨hfits,hwritten⟩ rfl ?_
        rfl⟩
      rw [← advanceTodo_append front (bgn,fin), ← hfront]
      rfl
    · refine ⟨⟨rfl,rfl,rfl,rfl,hio.fetched _ _⟩,.idle (Or.inr ⟨bgn,rfl⟩) rfl rfl ?_⟩
      rintro _ hpart
      obtain rfl := Option.some.inj (hlast.symm.trans hpart)
      exact fun hsends => hwritten hsends.2
    · refine ⟨⟨rfl,rfl,rfl,rfl,hio⟩,.idle (Or.inl rfl) rfl rfl ?_⟩
      rintro _ hpart
      obtain rfl := Option.some.inj (hlast.symm.trans hpart)
      exact fun hsends => hfits hsends.1

theorem processOne_visited (rules : SteadySource ς) (h : Sound p) (m : BlobManipulator ς τ)
    (ser : BlobSerializer) (clk : Clock) (doSend : SendHandler) (maxMessageSize : ℕ)
    (log : List SendAttempt) :
    let r := m.processOne ser clk doSend maxMessageSize p log
    SameBlob p r.1 ∧ Visited ser m.fragmentMsgId doSend maxMessageSize p r.1 log r.2 := by
  have hio : Later p.io (SourceBlobIo.prepare p.io).2 := Later.refl.prepared
  cases hstatus : (SourceBlobIo.prepare p.io).1.status with
  | working =>
    have hwork : (SourceBlobIo.prepare p.io).1.isWorking = true := decide_eq_true hstatus
    have hfin : (SourceBlobIo.prepare p.io).1.hasFinished = false := by
      simp [BlobPreparationResult.hasFinished, hstatus]
    obtain ⟨hsame,hqio,htodo⟩ := handleSourcePreparing_same rules h clk.now
      (SourceBlobIo.prepare p.io).1.progress
    simp only [processOne, PendingBlob.prepare, hwork, hfin, if_true, Bool.false_and,
      Bool.false_eq_true, if_false]
    obtain ⟨hsame',hio',htodo',hlog⟩ := processPreparingOutgoing_same m ser clk doSend
      (PendingBlob.handleSourcePreparing { p with io := (SourceBlobIo.prepare p.io).2 } clk.now
        (SourceBlobIo.prepare p.io).1.progress) log
    exact ⟨hsame.trans hsame',.preparing hwork (hio'.trans hqio) (htodo'.trans htodo) hlog⟩
  | failed =>
    have hfailed : (SourceBlobIo.prepare p.io).1.hasFailed = true := decide_eq_true hstatus
    have hwork : (SourceBlobIo.prepare p.io).1.isWorking = false := by
      simp [BlobPreparationResult.isWorking, hstatus]
    have hfin : (SourceBlobIo.prepare p.io).1.hasFinished = false := by
      simp [BlobPreparationResult.hasFinished, hstatus]
    simp only [processOne, PendingBlob.prepare, hwork, hfin, hfailed, if_true, Bool.false_and,
      Bool.false_eq_true, if_false]
    exact ⟨⟨rfl,rfl,rfl,rfl,hio⟩,.failed hfailed rfl⟩
  | finished =>
    have hwork : (SourceBlobIo.prepare p.io).1.isWorking = false := by
      simp [BlobPreparationResult.isWorking, hstatus]
    have hfin : (SourceBlobIo.prepare p.io).1.hasFinished = true := decide_eq_true hstatus
    have hfailed : (SourceBlobIo.prepare p.io).1.hasFailed = false := by
      simp [BlobPreparationResult.hasFailed, hstatus]
    simp only [processOne, PendingBlob.prepare, hwork, hfin, hfailed, Bool.true_and,
      Bool.false_eq_true, if_false]
    split_ifs with hsent
    · exact processFinishedOutgoing_visited m ser clk doSend maxMessageSize log
    · have hnow : Sound { p with io := (SourceBlobIo.prepare p.io).2, prepareProgress := 1 } :=
        ⟨h.intervals,h.inside,h.size.trans (rules.prepareSize p.io).symm⟩
      rw [Bool.not_eq_true, Bool.not_eq_false'] at hsent
      have hnil : p.todoParts = [] := (sentEverything_iff rules hnow).mp hsent
      exact ⟨⟨rfl,rfl,rfl,rfl,hio⟩,.idle (Or.inl rfl) rfl rfl (by simp [hnil])⟩

theorem Later.size (rules : SteadySource ς) {io io' : ς} (h : Later io io') :
    SourceBlobIo.totalSize io' = SourceBlobIo.totalSize io := by
  induction h with
  | refl => rfl
  | prepared _ ih => rw [rules.prepareSize, ih]
  | fetched _ offs size ih => rw [rules.fetchSize, ih]

theorem intervals_append {parts : List Part} {last : Part} :
    Intervals (parts ++ [last]) ↔
      Intervals parts ∧ last.1 < last.2 ∧ ∀ part ∈ parts, part.2 < last.1 := by
  simp only [Intervals, List.pairwise_append, List.forall_mem_append, List.forall_mem_singleton,
    List.pairwise_singleton, true_and]
  tauto

/-- Growing the last part to the end of the blob, or taking from its front,
keeps the parts sound. -/
theorem replace_last {front : List Part} {bgn fin bgn' fin' total : ℕ}
    (hi : Intervals (front ++ [(bgn,fin)])) (hin : ∀ part ∈ front ++ [(bgn,fin)], part.2 ≤ total)
    (hbgn : bgn ≤ bgn') (hlt : bgn' < fin') (hfin : fin' ≤ total) :
    Intervals (front ++ [(bgn',fin')]) ∧ ∀ part ∈ front ++ [(bgn',fin')], part.2 ≤ total := by
  obtain ⟨hfront,-,hsep⟩ := intervals_append.mp hi
  rw [List.forall_mem_append, List.forall_mem_singleton] at hin ⊢
  exact ⟨intervals_append.mpr ⟨hfront,hlt,fun part hpart => (hsep part hpart).trans_le hbgn⟩,
    hin.1,hfin⟩

theorem visited_sound (rules : SteadySource ς) (h : Sound p) {q : PendingBlob ς}
    {ser : BlobSerializer} {fragmentMsgId : MessageId} {doSend : SendHandler}
    {maxMessageSize : ℕ} {log log' : List SendAttempt} (hsame : SameBlob p q)
    (hv : Visited ser fragmentMsgId doSend maxMessageSize p q log log') : Sound q := by
  have hsize : q.info.totalSize = SourceBlobIo.totalSize q.io := by
    rw [hsame.info, h.size, hsame.later.size rules]
  have htotal : q.info.totalSize = p.info.totalSize := by rw [hsame.info]
  have hparts : Intervals q.todoParts ∧ ∀ part ∈ q.todoParts, part.2 ≤ p.info.totalSize := by
    have hi := h.intervals
    have hin := h.inside
    cases hv with
    | failed hprep htodo =>
      rw [htodo]
      exact ⟨⟨by simp,List.Pairwise.nil⟩,by simp⟩
    | preparing hprep hio htodo hlog =>
      rw [htodo]
      rcases List.eq_nil_or_concat p.todoParts with hnil | ⟨front,⟨bgn,fin⟩,hlast⟩
      · rw [hnil]
        exact ⟨⟨by simp [PendingBlob.setBackEnd],List.Pairwise.nil⟩,
          by simp [PendingBlob.setBackEnd]⟩
      · rw [List.concat_eq_append] at hlast
        rw [hlast] at hi hin ⊢
        rw [PendingBlob.setBackEnd_append]
        have hlt := (intervals_append.mp hi).2.1
        have hle := hin (bgn,fin) (by simp)
        exact replace_last hi hin le_rfl (hlt.trans_le hle) le_rfl
    | idle hio htodo hlog hwhy =>
      rw [htodo]
      exact ⟨hi,hin⟩
    | sent front bgn fin hlast hsends hio htodo hlog =>
      rw [hlast] at hi hin
      rw [htodo]
      split_ifs with hend
      · rw [List.append_nil]
        exact ⟨(intervals_append.mp hi).1,fun part hpart => hin part (by simp [hpart])⟩
      · exact replace_last hi hin (Nat.le_add_right _ _) (not_le.mp hend) (hin (bgn,fin) (by simp))
  exact ⟨hparts.1,htotal ▸ hparts.2,hsize⟩

end Turn

/-! ## Requests -/

/-- The end that a request stands for. -/
def requestEnd (p : PendingBlob ς) (fin : ℕ) : ℕ := if fin = 0 then p.info.totalSize else fin

/-- What a request should do: its bytes inside the blob are to do again. -/
structure Resent (p q : PendingBlob ς) (bgn fin : ℕ) : Prop where
  sound : Sound q
  same : SameBlob p q
  todo : covered q.todoParts =
    covered p.todoParts ∪ Set.Ico bgn (min (requestEnd p fin) p.info.totalSize)

/-- The request names nothing, or nothing beyond the end of the blob. -/
def InRange (p : PendingBlob ς) (bgn fin : ℕ) : Prop :=
  requestEnd p fin ≤ bgn ∨ requestEnd p fin ≤ p.info.totalSize

section Request

variable {p : PendingBlob ς}

theorem mergeResendRequest_same (p : PendingBlob ς) (bgn fin : ℕ) :
    SameBlob p (p.mergeResendRequest bgn fin) ∧ (p.mergeResendRequest bgn fin).io = p.io := by
  obtain ⟨parts,he⟩ := ManipulatorRules.mergeResendRequest_parts p bgn fin
  rw [he]
  exact ⟨⟨rfl,rfl,rfl,rfl,Later.refl⟩,rfl⟩

/-- A request that names something merges it as it stands. -/
theorem mergeResendRequest_parts_eq (h : Sound p) {bgn fin : ℕ} (hlt : bgn < requestEnd p fin) :
    Intervals (p.mergeResendRequest bgn fin).todoParts ∧
      covered (p.mergeResendRequest bgn fin).todoParts =
        covered p.todoParts ∪ Set.Ico bgn (requestEnd p fin) := by
  have htodo : (p.mergeResendRequest bgn fin).todoParts =
      insertInterval bgn (requestEnd p fin) p.todoParts :=
    mergeResendRequest_todo p bgn fin hlt h.intervals.canonical
  rw [htodo]
  refine ⟨⟨insert_proper _ _ hlt _ h.intervals.1,
    (insert_canonical _ _ hlt.le _ h.intervals.canonical).2⟩,?_⟩
  rw [covered_insert _ _ hlt.le _ h.intervals.canonical.1, Set.union_comm]

/-- Parts lie inside a range exactly if their places do. -/
theorem inside_iff {parts : List Part} (h : ∀ part ∈ parts, part.1 < part.2) {total : ℕ} :
    (∀ part ∈ parts, part.2 ≤ total) ↔ ∀ x ∈ covered parts, x < total := by
  constructor
  · rintro hin x ⟨part,hpart,-,hx⟩
    exact hx.trans_le (hin part hpart)
  · intro hin part hpart
    have hlt := h part hpart
    have hx := hin (part.2-1) ⟨part,hpart,by omega,by omega⟩
    omega

/-- A request does what it should exactly if it stays inside the blob. -/
theorem resent_iff (h : Sound p) (bgn fin : ℕ) :
    Resent p (p.mergeResendRequest bgn fin) bgn fin ↔ InRange p bgn fin := by
  obtain ⟨hsame,hio⟩ := mergeResendRequest_same p bgn fin
  have hsize : (p.mergeResendRequest bgn fin).info.totalSize =
      SourceBlobIo.totalSize (p.mergeResendRequest bgn fin).io := by
    rw [hsame.info, hio, h.size]
  by_cases hlt : bgn < requestEnd p fin
  · obtain ⟨hi,hcov⟩ := mergeResendRequest_parts_eq h hlt
    constructor
    · intro hres
      -- the last place named is to do, so it lies inside
      have hlast : requestEnd p fin-1 ∈ covered (p.mergeResendRequest bgn fin).todoParts := by
        rw [hcov]
        exact Or.inr ⟨by omega,by omega⟩
      have hin := (inside_iff hi.1).mp hres.sound.inside _ hlast
      rw [hsame.info] at hin
      exact Or.inr (by omega)
    · rintro (hle | hle)
      · omega
      · refine ⟨⟨hi,?_,hsize⟩,hsame,?_⟩
        · rw [inside_iff hi.1, hcov, hsame.info]
          rintro x (hx | hx)
          · exact (inside_iff h.intervals.1).mp h.inside x hx
          · exact hx.2.trans_le hle
        · rw [hcov, Nat.min_eq_left hle]
  · have hkeep : p.mergeResendRequest bgn fin = p := if_neg hlt
    refine iff_of_true ?_ (Or.inl (not_lt.mp hlt))
    rw [hkeep]
    refine ⟨h,⟨rfl,rfl,rfl,rfl,Later.refl⟩,?_⟩
    rw [Set.Ico_eq_empty (by omega), Set.union_empty]

end Request

/-! ## Runs -/

inductive Event (ς τ : Type) where
  | pushOutgoing (clk : Clock) (msgId : MessageId) (sourceId targetId : EndpointId)
      (targetBlobId : BlobId) (io : ς) (maxTime : ℕ) (options : BlobOptions)
      (priority : MessagePriority)
  | processOutgoing (clk : Clock) (doSend : SendHandler) (maxMessageSize maxMessages : ℕ)
  /-- Nothing is known of the blobs after a request with a number that cannot
  be cast, which leaves `overflowed`. -/
  | processResend (message : MessageView) (overflowed : List (PendingBlob ς))
  | update (clk : Clock) (doSend : SendHandler) (maxMessageSize : ℕ)
  /-- Any of the operations on incoming blobs. -/
  | changeIncoming (incoming : List (PendingBlob τ))

/-- The number fits a `span_size_t`. -/
def Fits (n : ℕ) : Prop := n < 2^63

instance (n : ℕ) : Decidable (Fits n) := inferInstanceAs (Decidable (n < 2^63))

def request (ser : BlobSerializer) (message : MessageView) : Option (ℕ × ℕ × ℕ) :=
  (ser.resend.decode (message.content ser.getDataWithSize)).map Prod.fst

def start (fragmentMsgId resendMsgId prepareMsgId : MessageId) (maxBlobSize : ℕ) :
    BlobManipulator ς τ := { fragmentMsgId, resendMsgId, prepareMsgId, maxBlobSize }

/-- The place of the blob with this id. -/
def placeOf (m : BlobManipulator ς τ) (sourceBlobId : BlobId) : Option ℕ :=
  m.outgoing.findIdx? (fun pending => pending.sourceBlobId = sourceBlobId)

/-- The numbers of a request can be cast. -/
def Castable (ser : BlobSerializer) (message : MessageView) : Prop :=
  ∀ sourceBlobId bgn fin, request ser message = some (sourceBlobId,bgn,fin) → Fits bgn ∧ Fits fin

/-- What a request names lies inside the blob that it is for. -/
def Contained (ser : BlobSerializer) (m : BlobManipulator ς τ) (message : MessageView) : Prop :=
  ∀ sourceBlobId bgn fin, request ser message = some (sourceBlobId,bgn,fin) →
    ∀ pos p, placeOf m sourceBlobId = some pos → m.outgoing[pos]? = some p → InRange p bgn fin

/-- A request does what it should to the blob it is for and leaves the others
as they are. -/
def RequestDone (ser : BlobSerializer) (m : BlobManipulator ς τ) (message : MessageView)
    (outgoing : List (PendingBlob ς)) : Prop :=
  ∀ sourceBlobId bgn fin, request ser message = some (sourceBlobId,bgn,fin) →
    (placeOf m sourceBlobId = none → outgoing = m.outgoing) ∧
    ∀ pos p, placeOf m sourceBlobId = some pos → m.outgoing[pos]? = some p →
      ∃ q, outgoing = m.outgoing.set pos q ∧ Resent p q bgn fin

section Manipulator

variable {ser : BlobSerializer} {m : BlobManipulator ς τ}

theorem sound_push (h : ∀ p ∈ m.outgoing, Sound p) (clk : Clock) (msgId : MessageId)
    (sourceId targetId : EndpointId) (targetBlobId : BlobId) (io : ς) (maxTime : ℕ)
    (options : BlobOptions) (priority : MessagePriority) :
    ∀ p ∈ (m.pushOutgoingIo clk msgId sourceId targetId targetBlobId io maxTime options
      priority).2.outgoing, Sound p := by
  rw [pushOutgoingIo]
  split_ifs with hsize
  · intro p hp
    rcases List.mem_append.mp hp with hp | hp
    · exact h p hp
    · obtain rfl := List.mem_singleton.mp hp
      refine ⟨⟨?_,List.pairwise_singleton _ _⟩,?_,rfl⟩
      · rintro _ (_ | ⟨_,⟨⟩⟩)
        exact hsize
      · rintro _ (_ | ⟨_,⟨⟩⟩)
        exact le_rfl
  · exact h

theorem sound_call (rules : SteadySource ς) (h : ∀ p ∈ m.outgoing, Sound p) (clk : Clock)
    (doSend : SendHandler) (maxMessageSize maxMessages : ℕ) :
    ∀ p ∈ (m.processOutgoing ser clk doSend maxMessageSize maxMessages).1.outgoing, Sound p := by
  refine (ManipulatorRules.processOutgoingLoop_rule (fun p _ => Sound p) (fun _ => True) ser clk
    doSend maxMessageSize m ?_ _ m [] rfl rfl trivial h).1
  intro m' p log _ _ _ hp
  obtain ⟨hsame,hv⟩ := processOne_visited rules hp m' ser clk doSend maxMessageSize log
  exact ⟨visited_sound rules hp hsame hv,trivial,fun q hq => hq⟩

section Lookup

omit [SourceBlobIo ς]

theorem processResend_unread {message : MessageView} (h : request ser message = none) :
    m.processResend ser message = m := by
  have hdecode : ser.resend.decode (message.content ser.getDataWithSize) = none :=
    Option.map_eq_none_iff.mp h
  rw [processResend, hdecode]

theorem processResend_absent {message : MessageView} {sourceBlobId bgn fin : ℕ}
    (h : request ser message = some (sourceBlobId,bgn,fin))
    (hplace : placeOf m sourceBlobId = none) : m.processResend ser message = m := by
  obtain ⟨⟨r,rest⟩,hdecode,rfl⟩ := Option.map_eq_some_iff.mp h
  rw [placeOf] at hplace
  rw [processResend, hdecode]
  simp only [hplace]

/-- Only the blob a request is for takes part in it. -/
theorem processResend_place {message : MessageView} {sourceBlobId bgn fin pos : ℕ}
    {p : PendingBlob ς} (h : request ser message = some (sourceBlobId,bgn,fin))
    (hplace : placeOf m sourceBlobId = some pos) (hp : m.outgoing[pos]? = some p) :
    (m.processResend ser message).outgoing =
      m.outgoing.set pos (p.mergeResendRequest bgn fin) := by
  obtain ⟨⟨r,rest⟩,hdecode,rfl⟩ := Option.map_eq_some_iff.mp h
  rw [placeOf] at hplace
  rw [processResend, hdecode]
  simp only [hplace]
  rw [List.modify_eq_set_getElem?, hp]
  rfl

end Lookup

/-- With numbers that can be cast, a request does what it should exactly if
the blob it is for contains what it names. -/
theorem requestDone_iff (h : ∀ p ∈ m.outgoing, Sound p) (message : MessageView) :
    RequestDone ser m message (m.processResend ser message).outgoing ↔
      Contained ser m message := by
  constructor
  · intro hdone sourceBlobId bgn fin hreq pos p hplace hp
    obtain ⟨q,hq,hres⟩ := (hdone sourceBlobId bgn fin hreq).2 pos p hplace hp
    have hlt : pos < m.outgoing.length := (List.getElem?_eq_some_iff.mp hp).1
    have heq := congrArg (fun l => l[pos]?) ((processResend_place hreq hplace hp).symm.trans hq)
    simp only [List.getElem?_set_self hlt, Option.some.injEq] at heq
    rw [← heq] at hres
    exact (resent_iff (h p (List.mem_of_getElem? hp)) bgn fin).mp hres
  · intro hin sourceBlobId bgn fin hreq
    refine ⟨fun hplace => by rw [processResend_absent hreq hplace],fun pos p hplace hp => ?_⟩
    exact ⟨_,processResend_place hreq hplace hp,(resent_iff (h p (List.mem_of_getElem? hp)) bgn
      fin).mpr (hin sourceBlobId bgn fin hreq pos p hplace hp)⟩

theorem sound_resend (h : ∀ p ∈ m.outgoing, Sound p) {message : MessageView}
    (hin : Contained ser m message) :
    ∀ p ∈ (m.processResend ser message).outgoing, Sound p := by
  cases hreq : request ser message with
  | none =>
    rw [processResend_unread hreq]
    exact h
  | some r =>
    obtain ⟨sourceBlobId,bgn,fin⟩ := r
    cases hplace : placeOf m sourceBlobId with
    | none =>
      rw [processResend_absent hreq hplace]
      exact h
    | some pos =>
      obtain ⟨p,hp,-⟩ := ManipulatorRules.findIdx_some hplace
      rw [processResend_place hreq hplace hp]
      intro r hr
      rcases List.mem_or_eq_of_mem_set hr with hr | rfl
      · exact h r hr
      · exact ((resent_iff (h p (List.mem_of_getElem? hp)) bgn fin).mpr
          (hin sourceBlobId bgn fin hreq pos p hplace hp)).sound

end Manipulator

section Run

variable [TargetBlobIo τ]

def step (ser : BlobSerializer) (m : BlobManipulator ς τ) : Event ς τ → BlobManipulator ς τ
  | .pushOutgoing clk msgId sourceId targetId targetBlobId io maxTime options priority =>
    (m.pushOutgoingIo clk msgId sourceId targetId targetBlobId io maxTime options priority).2
  | .processOutgoing clk doSend maxMessageSize maxMessages =>
    (m.processOutgoing ser clk doSend maxMessageSize maxMessages).1
  | .processResend message overflowed =>
    match request ser message with
    | none => m.processResend ser message
    | some (_,bgn,fin) =>
      if Fits bgn ∧ Fits fin then m.processResend ser message
      else { m with outgoing := overflowed }
  | .update clk doSend maxMessageSize => (m.update ser clk doSend maxMessageSize).manipulator
  | .changeIncoming incoming => { m with incoming }

def Accepts (ser : BlobSerializer) (m : BlobManipulator ς τ) : Event ς τ → Prop
  | .processResend message _ => Castable ser message ∧ Contained ser m message
  | _ => True

variable {ser : BlobSerializer} {m : BlobManipulator ς τ}

theorem step_castable {message : MessageView} (h : Castable ser message)
    (overflowed : List (PendingBlob ς)) :
    step ser m (.processResend message overflowed) = m.processResend ser message := by
  rw [step]
  cases hreq : request ser message with
  | none => rfl
  | some r =>
    obtain ⟨sourceBlobId,bgn,fin⟩ := r
    exact if_pos (h sourceBlobId bgn fin hreq)

theorem sound_step (rules : SteadySource ς) (e : Event ς τ) (h : ∀ p ∈ m.outgoing, Sound p)
    (hok : Accepts ser m e) : ∀ p ∈ (step ser m e).outgoing, Sound p := by
  cases e with
  | pushOutgoing clk msgId sourceId targetId targetBlobId io maxTime options priority =>
    exact sound_push h clk msgId sourceId targetId targetBlobId io maxTime options priority
  | processOutgoing clk doSend maxMessageSize maxMessages =>
    exact sound_call rules h clk doSend maxMessageSize maxMessages
  | processResend message overflowed =>
    rw [step_castable hok.1]
    exact sound_resend h hok.2
  | update clk doSend maxMessageSize =>
    have hsub := (ManipulatorRules.update_cases m ser clk doSend maxMessageSize).2.2
    exact fun p hp => h p (hsub p hp)
  | changeIncoming incoming => exact h

end Run

end MsgBus.ResendRequests
