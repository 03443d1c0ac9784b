import MsgBus.Lib.StepRun
import MsgBus.FragmentMerge
import MsgBus.ManipulatorRules
import MsgBus.RouterRun

/-!
# What is sent and what is still to do

A byte of an outgoing blob is kept while it is still to do or once a message
with it has been accepted. The part to do is advanced before the handler is
asked, so what a refused message carries is lost.
-/

set_option autoImplicit false

namespace MsgBus.BlobOutgoing

open BlobManipulator ManipulatorRules FragmentMerge IntervalList ByteBlock

variable {τ : Type}

/-- The attempt offers a fragment of the blob with this byte. -/
def Contains (ser : BlobSerializer) (fragmentMsgId : MessageId) (p : PendingBlob BufferBlobIo)
    (x : ℕ) (a : SendAttempt) : Prop :=
  a.msgId = fragmentMsgId ∧ ∃ bgn written, a.message = fragmentMessage ser p bgn written ∧
    Slice p.io.buf bgn written ∧ bgn ≤ x ∧ x < bgn+written.length

/-- Every byte of the blob is to do or in an accepted message. -/
def Kept (ser : BlobSerializer) (fragmentMsgId : MessageId) (log : List SendAttempt)
    (p : PendingBlob BufferBlobIo) : Prop :=
  ∀ x < p.info.totalSize, x ∈ covered p.todoParts ∨
    ∃ a ∈ log, a.accepted = true ∧ Contains ser fragmentMsgId p x a

def AllKept (ser : BlobSerializer) (log : List SendAttempt) (m : BlobManipulator BufferBlobIo τ) :
    Prop :=
  ∀ p ∈ m.outgoing, Kept ser m.fragmentMsgId log p

/-- The bytes to do of each blob. -/
def todoSets (m : BlobManipulator BufferBlobIo τ) : List (Set ℕ) :=
  m.outgoing.map (fun p => covered p.todoParts)

/-- The manipulator in the middle of a call and what the call has offered. -/
abbrev Sending (τ : Type) := BlobManipulator BufferBlobIo τ × List SendAttempt

/-- One turn of the loop of `process_outgoing`. -/
def turn (ser : BlobSerializer) (clk : Clock) (doSend : SendHandler) (maxMessageSize : ℕ)
    (t : Sending τ) : Sending τ :=
  let i := t.1.outgoingIndex % t.1.outgoing.length
  let m := { t.1 with outgoingIndex := t.1.outgoingIndex+1 }
  match m.outgoing[i]? with
  | none => (m,t.2)
  | some pending =>
    let r := m.processOne ser clk doSend maxMessageSize pending t.2
    ({ m with outgoing := m.outgoing.set i r.1 },r.2)

/-- The turns of a call, one after the other. -/
def turns (ser : BlobSerializer) (clk : Clock) (doSend : SendHandler) (maxMessageSize n : ℕ)
    (t : Sending τ) : Sending τ :=
  StepRun.run (fun t _ => turn ser clk doSend maxMessageSize t) t (List.replicate n ())

theorem processOutgoingLoop_turns (ser : BlobSerializer) (clk : Clock) (doSend : SendHandler)
    (maxMessageSize n : ℕ) (t : Sending τ) :
    processOutgoingLoop ser clk doSend maxMessageSize n t.1 t.2 =
      turns ser clk doSend maxMessageSize n t := by
  induction n generalizing t with
  | zero => rfl
  | succ n ih =>
    rw [turns, List.replicate_succ, StepRun.run, ← turns, ← ih]
    cases hget : t.1.outgoing[t.1.outgoingIndex % t.1.outgoing.length]? with
    | none => simp only [processOutgoingLoop, turn, hget]
    | some pending => simp only [processOutgoingLoop, turn, hget]

theorem processOutgoing_turns (m : BlobManipulator BufferBlobIo τ) (ser : BlobSerializer)
    (clk : Clock) (doSend : SendHandler) (maxMessageSize maxMessages : ℕ) :
    m.processOutgoing ser clk doSend maxMessageSize maxMessages =
      turns ser clk doSend maxMessageSize (min maxMessages m.outgoing.length) (m,[]) :=
  processOutgoingLoop_turns ser clk doSend maxMessageSize _ (m,[])

/-- A turn keeps all bytes, and if what it offers is refused it leaves the
bytes to do of each blob as they were. -/
structure TurnKeeps (ser : BlobSerializer) (before : List SendAttempt) (t t' : Sending τ) :
    Prop where
  kept : AllKept ser (before++t'.2) t'.1
  refused : ∀ a, t'.2 = t.2++[a] → a.accepted = false → todoSets t'.1 = todoSets t.1

section Turn

variable {ser : BlobSerializer} {fragmentMsgId : MessageId} {p q : PendingBlob BufferBlobIo}
  {a : SendAttempt} {log before : List SendAttempt}

/-- The parts to do are separate and not empty. -/
structure Proper (p : PendingBlob BufferBlobIo) : Prop where
  canonical : Canonical p.todoParts
  nonempty : ∀ part ∈ p.todoParts, part.1 < part.2

/-- The blob after a turn that offers nothing of it. -/
def Idle (p q : PendingBlob BufferBlobIo) : Prop :=
  q = { p with prepareProgress := q.prepareProgress, lingerTime := q.lingerTime }

/-- The blob after a turn that offers the attempt: what is cut at the last
part is no longer to do. -/
structure Offers (ser : BlobSerializer) (fragmentMsgId : MessageId)
    (p q : PendingBlob BufferBlobIo) (a : SendAttempt) (front : List Part) (bgn fin : ℕ)
    (written : Block) : Prop where
  todo : p.todoParts = front++[(bgn,fin)]
  nonempty : written ≠ []
  slice : Slice p.io.buf bgn written
  msgId : a.msgId = fragmentMsgId
  message : a.message = fragmentMessage ser p bgn written
  blob : q = { p.withTodo (advanceTodo p.todoParts (bgn+written.length) fin) with
    prepareProgress := q.prepareProgress, lingerTime := q.lingerTime }

theorem turn_cases (ser : BlobSerializer) (clk : Clock) (doSend : SendHandler)
    (maxMessageSize : ℕ) (t : Sending τ) :
    (turn ser clk doSend maxMessageSize t).1.fragmentMsgId = t.1.fragmentMsgId ∧
    (((turn ser clk doSend maxMessageSize t).2 = t.2 ∧
      ∀ q ∈ (turn ser clk doSend maxMessageSize t).1.outgoing,
        ∃ p ∈ t.1.outgoing, p = q ∨ Idle p q) ∨
    ∃ i p q a front bgn fin written, t.1.outgoing[i]? = some p ∧
      (turn ser clk doSend maxMessageSize t).1.outgoing = t.1.outgoing.set i q ∧
      (turn ser clk doSend maxMessageSize t).2 = t.2++[a] ∧
      Offers ser t.1.fragmentMsgId p q a front bgn fin written) := by
  cases hget : t.1.outgoing[t.1.outgoingIndex % t.1.outgoing.length]? with
  | none =>
    simp only [turn, hget]
    exact ⟨trivial,Or.inl ⟨trivial,fun q hq => ⟨q,hq,Or.inl rfl⟩⟩⟩
  | some pending =>
    simp only [turn, hget, true_and]
    rcases processOne_cases { t.1 with outgoingIndex := t.1.outgoingIndex+1 } ser clk doSend
        maxMessageSize pending t.2 with ⟨q,he,hq⟩ | ⟨front,bgn,fin,q,htodo,hcut,he,hq⟩
    · rw [he]
      refine Or.inl ⟨rfl,fun q' hq' => ?_⟩
      rcases List.mem_or_eq_of_mem_set hq' with hm | rfl
      · exact ⟨q',hm,Or.inl rfl⟩
      · exact ⟨pending,List.mem_of_getElem? hget,Or.inr hq⟩
    · rw [he]
      exact Or.inr ⟨_,pending,q,_,front,bgn,fin,_,hget,rfl,rfl,
        htodo,hcut,slice_of_take _ _ _,rfl,rfl,hq⟩

theorem offers_todo {front : List Part} {bgn fin : ℕ} {written : Block}
    (h : Offers ser fragmentMsgId p q a front bgn fin written) :
    q.todoParts = front ++
      if fin ≤ bgn+written.length then [] else [(bgn+written.length,fin)] := by
  rw [h.blob]
  change advanceTodo p.todoParts (bgn+written.length) fin = _
  rw [advanceTodo, h.todo, List.dropLast_concat]
  split_ifs <;> simp

theorem offers_proper {front : List Part} {bgn fin : ℕ} {written : Block}
    (h : Offers ser fragmentMsgId p q a front bgn fin written) (hp : Proper p) : Proper q := by
  have hc := hp.canonical
  have hn := hp.nonempty
  rw [h.todo] at hc hn
  obtain ⟨hfront,-,hlt⟩ := List.pairwise_append.mp hc.2
  constructor
  · rw [offers_todo h]
    split_ifs with hend
    · rw [List.append_nil]
      exact ⟨fun d hd => hc.1 d (List.mem_append_left _ hd),hfront⟩
    · refine ⟨fun d hd => ?_,List.pairwise_append.mpr ⟨hfront,by simp,fun d hd e he => ?_⟩⟩
      · rcases List.mem_append.mp hd with hd | hd
        · exact hc.1 d (List.mem_append_left _ hd)
        · obtain rfl := List.mem_singleton.mp hd
          exact (not_le.mp hend).le
      · obtain rfl := List.mem_singleton.mp he
        exact (hlt d hd (bgn,fin) (by simp)).trans_le (Nat.le_add_right _ _)
  · rw [offers_todo h]
    intro d hd
    rcases List.mem_append.mp hd with hd | hd
    · exact hn d (List.mem_append_left _ hd)
    · split_ifs at hd with hend
      · simp at hd
      · obtain rfl := List.mem_singleton.mp hd
        exact not_le.mp hend

/-- The first byte of an offered fragment was to do and no longer is. -/
theorem offers_advances {front : List Part} {bgn fin : ℕ} {written : Block}
    (h : Offers ser fragmentMsgId p q a front bgn fin written) (hp : Proper p) :
    covered q.todoParts ≠ covered p.todoParts := by
  have hc := hp.canonical
  have hlt := hp.nonempty (bgn,fin) (by rw [h.todo]; simp)
  rw [h.todo] at hc
  have hin : bgn ∈ covered p.todoParts := by
    rw [h.todo]
    exact ⟨(bgn,fin),by simp,le_rfl,hlt⟩
  have hout : bgn ∉ covered q.todoParts := by
    rw [offers_todo h]
    refine last_begin_not_covered hc (fun d hd => ?_)
    split_ifs at hd
    · simp at hd
    · obtain rfl := List.mem_singleton.mp hd
      have hw := List.length_pos_of_ne_nil h.nonempty
      dsimp only
      omega
  exact fun heq => hout (heq ▸ hin)

/-- An accepted fragment takes over the bytes that are no longer to do. -/
theorem offers_kept {front : List Part} {bgn fin : ℕ} {written : Block}
    (h : Offers ser fragmentMsgId p q a front bgn fin written) (ha : a.accepted = true)
    (hk : Kept ser fragmentMsgId log p) : Kept ser fragmentMsgId (log++[a]) q := by
  have hq := h.blob
  have htodo := offers_todo h
  have hsame : ∀ x b, Contains ser fragmentMsgId p x b → Contains ser fragmentMsgId q x b := by
    rw [hq]
    exact fun x b hb => hb
  intro x hx
  have hx' : x < p.info.totalSize := by
    rw [hq] at hx
    exact hx
  rcases hk x hx' with hin | ⟨b,hb,hacc,hcon⟩
  · rw [h.todo, covered_append] at hin
    rcases hin with hin | hin
    · rw [htodo, covered_append]
      exact Or.inl (Or.inl hin)
    · obtain ⟨hl,hr⟩ : bgn ≤ x ∧ x < fin := by simpa using hin
      by_cases hcut : x < bgn+written.length
      · exact Or.inr ⟨a,by simp,ha,hsame x a ⟨h.msgId,bgn,written,h.message,h.slice,hl,hcut⟩⟩
      · have hend : ¬ fin ≤ bgn+written.length := by omega
        rw [htodo, if_neg hend, covered_append]
        exact Or.inl (Or.inr ⟨(bgn+written.length,fin),by simp,not_lt.mp hcut,hr⟩)
  · exact Or.inr ⟨b,by simp [hb],hacc,hsame x b hcon⟩

theorem kept_mono {log' : List SendAttempt} (hl : ∀ a ∈ log, a ∈ log')
    (h : Kept ser fragmentMsgId log p) : Kept ser fragmentMsgId log' p := by
  intro x hx
  rcases h x hx with h | ⟨a,ha,h⟩
  · exact Or.inl h
  · exact Or.inr ⟨a,hl a ha,h⟩

theorem idle_kept (h : Idle p q) (hk : Kept ser fragmentMsgId log p) :
    Kept ser fragmentMsgId log q := by
  rw [Idle] at h
  rw [h]
  exact hk

theorem idle_proper (h : Idle p q) (hp : Proper p) : Proper q := by
  rw [Idle] at h
  rw [h]
  exact ⟨hp.canonical,hp.nonempty⟩

end Turn

section Call

variable (ser : BlobSerializer) (clk : Clock) (doSend : SendHandler) (maxMessageSize : ℕ)
  (before : List SendAttempt) {t : Sending τ}

/-- In the middle of a call the parts to do are proper and the bytes kept. -/
structure Inv (t : Sending τ) : Prop where
  proper : ∀ p ∈ t.1.outgoing, Proper p
  kept : AllKept ser (before++t.2) t.1

/-- What the turn offers, if anything, is accepted. -/
def TurnAccepts (t : Sending τ) : Prop :=
  ∀ a, (turn ser clk doSend maxMessageSize t).2 = t.2++[a] → a.accepted = true

variable {ser clk doSend maxMessageSize before}

theorem turn_proper (h : ∀ p ∈ t.1.outgoing, Proper p) :
    ∀ q ∈ (turn ser clk doSend maxMessageSize t).1.outgoing, Proper q := by
  obtain ⟨-,⟨-,hall⟩ | ⟨i,p,q,a,front,bgn,fin,written,hget,hset,-,hoff⟩⟩ :=
    turn_cases ser clk doSend maxMessageSize t
  · intro q hq
    obtain ⟨p,hp,rfl | hidle⟩ := hall q hq
    · exact h p hp
    · exact idle_proper hidle (h p hp)
  · intro r hr
    rw [hset] at hr
    rcases List.mem_or_eq_of_mem_set hr with hr | rfl
    · exact h r hr
    · exact offers_proper hoff (h p (List.mem_of_getElem? hget))

theorem turn_kept (h : Inv ser before t)
    (hacc : TurnAccepts ser clk doSend maxMessageSize t) :
    AllKept ser (before++(turn ser clk doSend maxMessageSize t).2)
      (turn ser clk doSend maxMessageSize t).1 := by
  obtain ⟨hid,⟨hlog,hall⟩ | ⟨i,p,q,a,front,bgn,fin,written,hget,hset,hlog,hoff⟩⟩ :=
    turn_cases ser clk doSend maxMessageSize t
  · intro q hq
    rw [hlog, hid]
    obtain ⟨p,hp,rfl | hidle⟩ := hall q hq
    · exact h.kept p hp
    · exact idle_kept hidle (h.kept p hp)
  · intro r hr
    rw [hset] at hr
    rw [hlog, hid, ← List.append_assoc]
    rcases List.mem_or_eq_of_mem_set hr with hr | rfl
    · exact kept_mono (fun b hb => List.mem_append_left _ hb) (h.kept r hr)
    · exact offers_kept hoff (hacc a hlog) (h.kept p (List.mem_of_getElem? hget))

/-- A refused message changes the bytes to do. -/
theorem turn_refused (h : ∀ p ∈ t.1.outgoing, Proper p) {a : SendAttempt}
    (hlog : (turn ser clk doSend maxMessageSize t).2 = t.2++[a]) :
    todoSets (turn ser clk doSend maxMessageSize t).1 ≠ todoSets t.1 := by
  obtain ⟨-,⟨hsame,-⟩ | ⟨i,p,q,b,front,bgn,fin,written,hget,hset,-,hoff⟩⟩ :=
    turn_cases ser clk doSend maxMessageSize t
  · rw [hsame] at hlog
    simp at hlog
  · intro heq
    have hi := congrArg (fun l => l[i]?) heq
    have hlt := (List.getElem?_eq_some_iff.mp hget).1
    simp only [todoSets, hset, List.getElem?_map, List.getElem?_set_self hlt, hget,
      Option.map_some, Option.some.injEq] at hi
    exact offers_advances hoff (h p (List.mem_of_getElem? hget)) hi

theorem turn_inv (h : Inv ser before t) (hacc : TurnAccepts ser clk doSend maxMessageSize t) :
    Inv ser before (turn ser clk doSend maxMessageSize t) :=
  ⟨turn_proper h.proper,turn_kept h hacc⟩

theorem turnKeeps_iff (h : Inv ser before t) :
    TurnKeeps ser before t (turn ser clk doSend maxMessageSize t) ↔
      TurnAccepts ser clk doSend maxMessageSize t := by
  constructor
  · intro hk a hlog
    by_contra hno
    exact turn_refused h.proper hlog (hk.refused a hlog (by simpa using hno))
  · intro hacc
    refine ⟨turn_kept h hacc,fun a hlog hno => ?_⟩
    rw [hacc a hlog] at hno
    cases hno

theorem turn_log (t : Sending τ) : (turn ser clk doSend maxMessageSize t).2 = t.2 ∨
    ∃ a, (turn ser clk doSend maxMessageSize t).2 = t.2++[a] := by
  obtain ⟨-,⟨hlog,-⟩ | ⟨-,-,-,a,-,-,-,-,-,-,hlog,-⟩⟩ :=
    turn_cases ser clk doSend maxMessageSize t
  · exact Or.inl hlog
  · exact Or.inr ⟨a,hlog⟩

theorem turns_log (n : ℕ) (t : Sending τ) :
    ∀ a ∈ t.2, a ∈ (turns ser clk doSend maxMessageSize n t).2 := by
  induction n generalizing t with
  | zero => exact fun a ha => ha
  | succ n ih =>
    intro a ha
    refine ih (turn ser clk doSend maxMessageSize t) a ?_
    rcases turn_log t with hlog | ⟨b,hlog⟩
    · rw [hlog]
      exact ha
    · rw [hlog]
      exact List.mem_append_left _ ha

/-- All that a call offers is accepted exactly if every turn of it accepts. -/
theorem turns_accepted (n : ℕ) (t : Sending τ) (ht : ∀ a ∈ t.2, a.accepted = true) :
    (∀ a ∈ (turns ser clk doSend maxMessageSize n t).2, a.accepted = true) ↔
      StepRun.Steps (fun t _ => turn ser clk doSend maxMessageSize t)
        (fun t _ => TurnAccepts ser clk doSend maxMessageSize t) t (List.replicate n ()) := by
  induction n generalizing t with
  | zero => exact iff_of_true ht trivial
  | succ n ih =>
    constructor
    · intro h
      have hnext : ∀ a ∈ (turn ser clk doSend maxMessageSize t).2, a.accepted = true :=
        fun a ha => h a (turns_log n (turn ser clk doSend maxMessageSize t) a ha)
      exact ⟨fun a hlog => hnext a (by rw [hlog]; simp),(ih _ hnext).mp h⟩
    · rintro ⟨hacc,hrest⟩
      refine (ih _ ?_).mpr hrest
      rcases turn_log t with hlog | ⟨b,hlog⟩
      · rw [hlog]
        exact ht
      · intro a ha
        rw [hlog] at ha
        rcases List.mem_append.mp ha with ha | ha
        · exact ht a ha
        · obtain rfl := List.mem_singleton.mp ha
          exact hacc a hlog

end Call

structure Sender (τ : Type) where
  manipulator : BlobManipulator BufferBlobIo τ
  log : List SendAttempt := []

inductive Event where
  | pushOutgoing (clk : Clock) (msgId : MessageId) (sourceId targetId : EndpointId)
      (targetBlobId : BlobId) (src : Block) (maxTime : ℕ) (options : BlobOptions)
      (priority : MessagePriority)
  | processOutgoing (clk : Clock) (doSend : SendHandler) (maxMessageSize maxMessages : ℕ)
  | processResend (message : MessageView)
  | update (clk : Clock) (doSend : SendHandler) (maxMessageSize : ℕ)

def start (fragmentMsgId resendMsgId prepareMsgId : MessageId) (maxBlobSize : ℕ) : Sender τ where
  manipulator := { fragmentMsgId, resendMsgId, prepareMsgId, maxBlobSize }

section Run

variable {ser : BlobSerializer} {s : Sender τ}

/-- Between two events the parts to do are proper and the bytes kept. -/
structure Sound (ser : BlobSerializer) (s : Sender τ) : Prop where
  proper : ∀ p ∈ s.manipulator.outgoing, Proper p
  kept : AllKept ser s.log s.manipulator

theorem resend_parts {p : PendingBlob BufferBlobIo} (bgn fin : ℕ) (hp : Proper p) :
    Proper (p.mergeResendRequest bgn fin) ∧
      covered p.todoParts ⊆ covered (p.mergeResendRequest bgn fin).todoParts := by
  by_cases h : bgn < if fin = 0 then p.info.totalSize else fin
  · have htodo := mergeResendRequest_todo p bgn fin h hp.canonical
    refine ⟨⟨?_,?_⟩,?_⟩
    · rw [htodo]
      exact insert_canonical _ _ h.le _ hp.canonical
    · rw [htodo]
      exact insert_proper _ _ h _ hp.nonempty
    · rw [htodo, covered_insert _ _ h.le _ hp.canonical.1]
      exact Set.subset_union_right
  · have hsame : p.mergeResendRequest bgn fin = p := if_neg h
    rw [hsame]
    exact ⟨hp,subset_rfl⟩

theorem resend_kept {fragmentMsgId : MessageId} {log : List SendAttempt}
    {p : PendingBlob BufferBlobIo} (bgn fin : ℕ) (hp : Proper p)
    (hk : Kept ser fragmentMsgId log p) :
    Kept ser fragmentMsgId log (p.mergeResendRequest bgn fin) := by
  obtain ⟨parts,heq⟩ := mergeResendRequest_parts p bgn fin
  have hsub := (resend_parts bgn fin hp).2
  rw [heq] at hsub ⊢
  intro x hx
  exact (hk x hx).imp (fun h => hsub h) id

theorem sound_start (fragmentMsgId resendMsgId prepareMsgId : MessageId) (maxBlobSize : ℕ) :
    Sound ser (start fragmentMsgId resendMsgId prepareMsgId maxBlobSize : Sender τ) :=
  ⟨by simp [start],by simp [start, AllKept]⟩

end Run

section Steps

variable [TargetBlobIo τ]

def step (ser : BlobSerializer) (s : Sender τ) : Event → Sender τ
  | .pushOutgoing clk msgId sourceId targetId targetBlobId src maxTime options priority =>
    { s with
      manipulator := (s.manipulator.pushOutgoing clk msgId sourceId targetId targetBlobId src
        maxTime options priority).2 }
  | .processOutgoing clk doSend maxMessageSize maxMessages =>
    let r := s.manipulator.processOutgoing ser clk doSend maxMessageSize maxMessages
    { manipulator := r.1, log := s.log ++ r.2 }
  | .processResend message => { s with manipulator := s.manipulator.processResend ser message }
  | .update clk doSend maxMessageSize =>
    { s with manipulator := (s.manipulator.update ser clk doSend maxMessageSize).manipulator }

/-- Every turn of the event keeps the bytes. -/
def Keeps (ser : BlobSerializer) (s : Sender τ) : Event → Prop
  | .processOutgoing clk doSend maxMessageSize maxMessages =>
    StepRun.Steps (fun t _ => turn ser clk doSend maxMessageSize t)
      (fun t _ => TurnKeeps ser s.log t (turn ser clk doSend maxMessageSize t))
      (s.manipulator,[]) (List.replicate (min maxMessages s.manipulator.outgoing.length) ())
  | e => AllKept ser (step ser s e).log (step ser s e).manipulator

/-- The handler of the call accepts everything it is offered. -/
def Accepts (ser : BlobSerializer) (s : Sender τ) : Event → Prop
  | .processOutgoing clk doSend maxMessageSize maxMessages =>
    ∀ a ∈ (s.manipulator.processOutgoing ser clk doSend maxMessageSize maxMessages).2,
      a.accepted = true
  | _ => True

variable {ser : BlobSerializer} {s : Sender τ}

theorem sound_push (h : Sound ser s) (clk : Clock) (msgId : MessageId)
    (sourceId targetId : EndpointId) (targetBlobId : BlobId) (src : Block) (maxTime : ℕ)
    (options : BlobOptions) (priority : MessagePriority) :
    Sound ser (step ser s
      (.pushOutgoing clk msgId sourceId targetId targetBlobId src maxTime options priority)) := by
  by_cases hsrc : 0 < src.length
  · have hm : (s.manipulator.pushOutgoing clk msgId sourceId targetId targetBlobId src maxTime
        options priority).2 = { s.manipulator with
          blobIdSequence := s.manipulator.nextBlobId
          outgoing := s.manipulator.outgoing ++ [newOutgoing clk msgId sourceId targetId
            s.manipulator.nextBlobId targetBlobId (.ofBlock src) maxTime options priority] } :=
      congrArg Prod.snd (if_pos hsrc)
    rw [step, hm]
    constructor
    · intro p hp
      rcases List.mem_append.mp hp with hp | hp
      · exact h.proper p hp
      · obtain rfl := List.mem_singleton.mp hp
        exact ⟨canonical_singleton 0 src.length (Nat.zero_le _),by
          intro part hpart
          obtain rfl := List.mem_singleton.mp hpart
          exact hsrc⟩
    · intro p hp
      rcases List.mem_append.mp hp with hp | hp
      · exact h.kept p hp
      · obtain rfl := List.mem_singleton.mp hp
        exact fun x hx => Or.inl ⟨(0,src.length),List.mem_singleton.mpr rfl,Nat.zero_le x,hx⟩
  · have hm : (s.manipulator.pushOutgoing clk msgId sourceId targetId targetBlobId src maxTime
        options priority).2 = s.manipulator := congrArg Prod.snd (if_neg hsrc)
    rw [step, hm]
    exact h

theorem sound_resend (h : Sound ser s) (message : MessageView) :
    Sound ser (step ser s (.processResend message)) := by
  have hid : (s.manipulator.processResend ser message).fragmentMsgId =
      s.manipulator.fragmentMsgId := by
    obtain ⟨outgoing,he⟩ := processResend_frame s.manipulator ser message
    rw [he]
  constructor
  · intro q hq
    rcases mem_processResend hq with hq | ⟨p,hp,bgn,fin,rfl⟩
    · exact h.proper q hq
    · exact (resend_parts bgn fin (h.proper p hp)).1
  · intro q hq
    change Kept ser (s.manipulator.processResend ser message).fragmentMsgId s.log q
    rw [hid]
    rcases mem_processResend hq with hq | ⟨p,hp,bgn,fin,rfl⟩
    · exact h.kept q hq
    · exact resend_kept bgn fin (h.proper p hp) (h.kept p hp)

theorem sound_update (h : Sound ser s) (clk : Clock) (doSend : SendHandler)
    (maxMessageSize : ℕ) : Sound ser (step ser s (.update clk doSend maxMessageSize)) := by
  have hsub := (update_cases s.manipulator ser clk doSend maxMessageSize).2.2
  exact ⟨fun p hp => h.proper p (hsub p hp),fun p hp => h.kept p (hsub p hp)⟩

theorem sound_call (h : Sound ser s) (clk : Clock) (doSend : SendHandler)
    (maxMessageSize maxMessages : ℕ)
    (hacc : Accepts ser s (.processOutgoing clk doSend maxMessageSize maxMessages)) :
    Sound ser (step ser s (.processOutgoing clk doSend maxMessageSize maxMessages)) := by
  rw [Accepts, processOutgoing_turns, turns_accepted _ _ (by simp)] at hacc
  have hinv : Inv ser s.log (s.manipulator,[]) := ⟨h.proper,by simpa using h.kept⟩
  have hend : Inv ser s.log (turns ser clk doSend maxMessageSize
      (min maxMessages s.manipulator.outgoing.length) (s.manipulator,[])) :=
    StepRun.run_invariant (fun _ _ hi ha => turn_inv hi ha) hinv hacc
  rw [step, processOutgoing_turns]
  exact ⟨hend.proper,hend.kept⟩

theorem keeps_iff (h : Sound ser s) (e : Event) : Keeps ser s e ↔ Accepts ser s e := by
  cases e with
  | pushOutgoing clk msgId sourceId targetId targetBlobId src maxTime options priority =>
    exact iff_of_true (sound_push h clk msgId sourceId targetId targetBlobId src maxTime options
      priority).kept trivial
  | processOutgoing clk doSend maxMessageSize maxMessages =>
    rw [Accepts, processOutgoing_turns, turns_accepted _ _ (by simp)]
    have hinv : Inv ser s.log (s.manipulator,[]) := ⟨h.proper,by simpa using h.kept⟩
    have hiff : ∀ (t : Sending τ) (_ : Unit), Inv ser s.log t →
        (TurnKeeps ser s.log t (turn ser clk doSend maxMessageSize t) ↔
          TurnAccepts ser clk doSend maxMessageSize t) := fun _ _ hi => turnKeeps_iff hi
    exact StepRun.steps_iff hiff (fun _ _ hi ha => turn_inv hi ha) hinv
  | processResend message => exact iff_of_true (sound_resend h message).kept trivial
  | update clk doSend maxMessageSize =>
    exact iff_of_true (sound_update h clk doSend maxMessageSize).kept trivial

theorem sound_step (h : Sound ser s) (e : Event) (hacc : Accepts ser s e) :
    Sound ser (step ser s e) := by
  cases e with
  | pushOutgoing clk msgId sourceId targetId targetBlobId src maxTime options priority =>
    exact sound_push h clk msgId sourceId targetId targetBlobId src maxTime options priority
  | processOutgoing clk doSend maxMessageSize maxMessages =>
    exact sound_call h clk doSend maxMessageSize maxMessages hacc
  | processResend message => exact sound_resend h message
  | update clk doSend maxMessageSize => exact sound_update h clk doSend maxMessageSize

end Steps

/-- In every run the bytes of all outgoing blobs are kept at every turn
exactly if no handler ever refuses a message. -/
theorem bytesKept_iff {τ : Type} [TargetBlobIo τ] (ser : BlobSerializer)
    (fragmentMsgId resendMsgId prepareMsgId : MessageId) (maxBlobSize : ℕ) (es : List Event) :
    StepRun.Steps (step ser) (Keeps ser)
        (start fragmentMsgId resendMsgId prepareMsgId maxBlobSize : Sender τ) es ↔
      StepRun.Steps (step ser) (Accepts ser)
        (start fragmentMsgId resendMsgId prepareMsgId maxBlobSize : Sender τ) es :=
  StepRun.steps_iff (fun _ e h => keeps_iff h e) (fun _ e h hacc => sound_step h e hacc)
    (sound_start fragmentMsgId resendMsgId prepareMsgId maxBlobSize)

/-- Two nodes can take blobs, and the second asks for the certificate of the
router. -/
def certificateQuery : List RouterRun.Event :=
  RouterRun.joinNode 1 5 ++ RouterRun.joinNode 2 6 ++
    [.nodeConnection 5 true (some 256), .nodeConnection 6 true (some 256),
      .fromNode sampleClock 6 (msgbusId .rtrCertQry) 0 { sourceId := 6 },
      .processBlobs sampleClock]

def attempts (sent : List Sent) : List SendAttempt :=
  sent.map (fun s => ⟨s.msgId,s.message,s.accepted⟩)

def certificateSetup : RouterRun.Setup :=
  { RouterRun.sampleSetup with ownCertificatePem := [1,2,3] }

/-- The handler of the first node refuses the fragment for the second, to
which it is then never sent. -/
theorem certificate_lost :
    ¬ AllKept sampleSerializer
        (attempts (RouterRun.after RouterRun.sampleEnv certificateSetup certificateQuery).sent)
        (RouterRun.after RouterRun.sampleEnv certificateSetup certificateQuery).blobs := by
  intro h
  have hblobs : (RouterRun.after RouterRun.sampleEnv certificateSetup
      certificateQuery).blobs.outgoing.map (fun p => (p.info.totalSize,p.todoParts)) =
        [(3,[])] := by decide
  obtain ⟨p,hp,heq⟩ := List.mem_map.mp (hblobs ▸ List.mem_singleton.mpr rfl :
    ((3,[]) : ℕ × List Part) ∈ (RouterRun.after RouterRun.sampleEnv certificateSetup
      certificateQuery).blobs.outgoing.map (fun p => (p.info.totalSize,p.todoParts)))
  obtain ⟨hsize,htodo⟩ := Prod.mk.inj heq
  have hsent : ∀ a ∈ attempts (RouterRun.after RouterRun.sampleEnv certificateSetup
      certificateQuery).sent, a.msgId ≠ msgbusId .blobFrgmnt := by decide
  rcases h p hp 0 (by omega) with hin | ⟨a,ha,-,hmsg,-⟩
  · rw [htodo] at hin
    simp at hin
  · exact hsent a ha hmsg

end MsgBus.BlobOutgoing
