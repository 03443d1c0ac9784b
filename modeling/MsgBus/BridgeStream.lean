import Mathlib.Data.List.Induction
import MsgBus.Lib.StepRun
import MsgBus.IncomingFetch
import MsgBus.PendingBlob

/-!
# The line stream between two bridges

The output side of a bridge writes each message as a line: the text of its
header, the content regrouped into encoded six-bit symbols, a newline. The
input side of the other bridge looks for a newline in what has arrived and
reads the line over the message it has read before. How bits are regrouped and
symbols encoded is the business of the core library.
-/

set_option autoImplicit false

namespace MsgBus

def newline : Byte := 10

/-- The regrouping of bits and the two transforms of its symbols, with what is
relied on. The size given to the reader is the one of its destination. -/
structure SymbolCodec where
  dissolveBits : Block → Block
  concentrateBits : Block → ℕ → Option Block
  encode : Byte → Option Byte
  decode : Byte → Option Byte
  decode_encode : ∀ data, ∀ b ∈ dissolveBits data, ∃ c, encode b = some c ∧ c ≠ newline ∧
    decode c = some b
  dissolve_length : ∀ data, data.length ≤ (dissolveBits data).length
  concentrate_dissolve : ∀ data size, data.length ≤ size →
    concentrateBits (dissolveBits data) size = some data

namespace SymbolCodec

variable (codec : SymbolCodec)

/-- The symbols that the putter takes until one cannot be encoded. -/
def putSymbols : Block → Block
  | [] => []
  | b::bs =>
    match codec.encode b with
    | some c => c::putSymbols bs
    | none => []

/-- The symbols that the getter has until one cannot be decoded. -/
def getSymbols : Block → Block
  | [] => []
  | c::cs =>
    match codec.decode c with
    | some b => b::getSymbols cs
    | none => []

def contentText (data : Block) : Block := codec.putSymbols (codec.dissolveBits data)

end SymbolCodec

/-- `istream_data_source::scan_for` on what the stream holds. -/
def scanFor (what : Byte) : ℕ → Block → Option ℕ
  | 0, _ => none
  | _+1, [] => none
  | n+1, b::bs => if b = what then some 0 else (scanFor what n bs).map (·+1)

structure BridgeOutput where
  outgoing : DoubleBuffer MessageStorage := ⟨{},{}⟩
  output : Block := []
  forwardedMessages : ℕ := 0
  droppedMessages : ℕ := 0

structure BridgeInput where
  source : Block := []
  incoming : DoubleBuffer MessageStorage := ⟨{},{}⟩
  recvDest : MessageView := {}
  bufferSize : ℕ := 0
  decodeErrors : ℕ := 0

section Bridge

variable (backend : SerializerBackend) (codec : SymbolCodec)

def addAge (age : MessageAge) (message : MessageView) : MessageView :=
  { message with toMessageInfo := message.toMessageInfo.addAge age }

/-- The line of a message without its newline; the stream takes any header. -/
def lineText (msgId : MessageId) (message : MessageView) : Block :=
  headerBytes backend msgId message.toMessageInfo++codec.contentText message.data

def sendHandler : FetchHandler BridgeOutput := fun o msgId msgAge message =>
  let message := addAge msgAge message
  if message.tooOld then (true,{ o with droppedMessages := o.droppedMessages+1 })
  else (true,{ o with
    output := o.output++lineText backend codec msgId message++[newline]
    forwardedMessages := o.forwardedMessages+1 })

namespace BridgeOutput

def push (entry : StoredMessage) (o : BridgeOutput) : BridgeOutput :=
  { o with outgoing := { o.outgoing with next := o.outgoing.next.pushIf (some entry) } }

/-- The queue is swapped under the lock; more may be pushed while it is sent. -/
def sendOutput (now : ℕ) (meanwhile : List StoredMessage) (o : BridgeOutput) : BridgeOutput :=
  let o := { o with outgoing := o.outgoing.swap }
  let o := meanwhile.foldl (fun o entry => o.push entry) o
  let fetched := o.outgoing.current.fetchAll now (sendHandler backend codec) o
  { fetched.2.2 with outgoing := { o.outgoing with current := fetched.2.1 } }

end BridgeOutput

namespace BridgeInput

/-- A header that cannot be read leaves the destination without content; the
fields it may have overwritten are all written again by the next one. -/
def doRecvInput (now pos : ℕ) (i : BridgeInput) : BridgeInput :=
  let recvDest := { i.recvDest with data := [] }
  match deserializeMessageHeader backend recvDest (i.source.take pos) with
  | some ((msgId,recvDest),remaining) =>
    let bufferSize := max i.bufferSize remaining.length
    let recvDest :=
      match codec.concentrateBits (codec.getSymbols remaining) bufferSize with
      | some data => { recvDest with data := data }
      | none => recvDest
    { i with
      incoming := { i.incoming with
        next := i.incoming.next.pushIf (some ⟨msgId,recvDest,now⟩) }
      recvDest := recvDest
      bufferSize := bufferSize
      source := i.source.drop (pos+1) }
  | none => { i with
      recvDest := recvDest
      decodeErrors := i.decodeErrors+1
      source := i.source.drop (pos+1) }

def recvInput (maxRead now : ℕ) (i : BridgeInput) : BridgeInput :=
  match scanFor newline maxRead i.source with
  | some pos => i.doRecvInput backend codec now pos
  | none => i

def fetchMessages {σ : Type} (now : ℕ) (handler : FetchHandler σ) (st : σ) (i : BridgeInput) :
    Bool × BridgeInput × σ :=
  let incoming := i.incoming.swap
  let fetched := incoming.current.fetchAll now handler st
  (fetched.1,{ i with incoming := { incoming with current := fetched.2.1 } },fetched.2.2)

end BridgeInput

end Bridge

namespace BridgeStream

open StepRun
open IncomingFetch (Received toReceived)

/-- The output side of one bridge and the input side of the other one, with
what was pushed, handed to the send handler and decoded so far. -/
structure Link where
  output : BridgeOutput := {}
  input : BridgeInput := {}
  /-- The number of written bytes that have arrived. -/
  arrived : ℕ := 0
  pushed : List StoredMessage := []
  handled : List (StoredMessage × ℕ) := []
  received : List Received := []

inductive Event (σ : Type) where
  | push (entry : StoredMessage)
  | sendOutput (now : ℕ) (meanwhile : List StoredMessage)
  | arrive (n : ℕ)
  | recvInput (now : ℕ)
  | fetchMessages (now : ℕ) (handler : FetchHandler σ) (st : σ)

variable (backend : SerializerBackend) (codec : SymbolCodec) (maxRead : ℕ) {σ : Type}

def step (s : Link) : Event σ → Link
  | .push entry => { s with
      output := s.output.push entry
      pushed := s.pushed++[entry] }
  | .sendOutput now meanwhile => { s with
      output := s.output.sendOutput backend codec now meanwhile
      pushed := s.pushed++meanwhile
      handled := s.handled++s.output.outgoing.next.messages.map (fun entry => (entry,now)) }
  | .arrive n => { s with
      input := { s.input with
        source := s.input.source++(s.output.output.drop s.arrived).take n }
      arrived := min (s.arrived+n) s.output.output.length }
  | .recvInput now =>
    let input := s.input.recvInput backend codec maxRead now
    { s with
      input := input
      received := s.received++(input.incoming.next.messages.drop
        s.input.incoming.next.messages.length).map toReceived }
  | .fetchMessages now handler st =>
    { s with input := (s.input.fetchMessages now handler st).2.1 }

/-- The message as it is sent, unless it is too old. -/
def forwarded (x : StoredMessage × ℕ) : Option Received :=
  let message := addAge (x.1.age x.2) x.1.message
  if message.tooOld then none else some (x.1.msgId,message)

def Link.sent (s : Link) : List Received := s.handled.filterMap forwarded

def line (m : Received) : Block := lineText backend codec m.1 m.2++[newline]

def after (es : List (Event σ)) : Link := run (step backend codec maxRead) {} es

section Lines

variable {backend codec}

theorem newline_not_mem_putSymbols {bs : Block}
    (h : ∀ b ∈ bs, ∃ c, codec.encode b = some c ∧ c ≠ newline ∧ codec.decode c = some b) :
    newline ∉ codec.putSymbols bs := by
  induction bs with
  | nil => simp [SymbolCodec.putSymbols]
  | cons b bs ih =>
    obtain ⟨c,hc,hne,-⟩ := h b (by simp)
    simp only [SymbolCodec.putSymbols, hc, List.mem_cons, not_or]
    exact ⟨hne.symm,ih (fun b' hb => h b' (List.mem_cons_of_mem _ hb))⟩

theorem getSymbols_putSymbols {bs : Block}
    (h : ∀ b ∈ bs, ∃ c, codec.encode b = some c ∧ c ≠ newline ∧ codec.decode c = some b) :
    codec.getSymbols (codec.putSymbols bs) = bs ∧ (codec.putSymbols bs).length = bs.length := by
  induction bs with
  | nil => simp [SymbolCodec.putSymbols, SymbolCodec.getSymbols]
  | cons b bs ih =>
    obtain ⟨c,hc,-,hd⟩ := h b (by simp)
    obtain ⟨ih1,ih2⟩ := ih (fun b' hb => h b' (List.mem_cons_of_mem _ hb))
    simp only [SymbolCodec.putSymbols, hc, SymbolCodec.getSymbols, hd, ih1, List.length_cons, ih2,
      and_self]

theorem newline_not_mem_lineText (hheader : ∀ msgId msg, newline ∉ headerBytes backend msgId msg)
    (m : Received) : newline ∉ lineText backend codec m.1 m.2 := by
  rw [lineText, List.mem_append, not_or]
  exact ⟨hheader _ _,newline_not_mem_putSymbols (codec.decode_encode _)⟩

theorem scanFor_line {what : Byte} {body : Block} (rest : Block) {n : ℕ} (h : what ∉ body)
    (hn : body.length < n) : scanFor what n (body++what::rest) = some body.length := by
  induction body generalizing n with
  | nil =>
    cases n with
    | zero => cases hn
    | succ n => simp [scanFor]
  | cons b body ih =>
    cases n with
    | zero => cases hn
    | succ n =>
      obtain ⟨hb,hbody⟩ := not_or.mp (fun hm => h (List.mem_cons.mpr hm))
      have hn' : body.length < n := by
        rw [List.length_cons] at hn
        omega
      rw [List.cons_append, scanFor, if_neg (Ne.symm hb), ih hbody hn']
      rfl

theorem scanFor_none {what : Byte} {source : Block} (n : ℕ) (h : what ∉ source) :
    scanFor what n source = none := by
  induction source generalizing n with
  | nil => cases n <;> rfl
  | cons b source ih =>
    cases n with
    | zero => rfl
    | succ n =>
      obtain ⟨hb,hs⟩ := not_or.mp (fun hm => h (List.mem_cons.mpr hm))
      rw [scanFor, if_neg (Ne.symm hb), ih n hs]
      rfl

/-- A line is read back as the message it was written from, whatever the
destination held before. -/
theorem doRecvInput_line (i : BridgeInput) (now : ℕ) (m : Received) (rest : Block)
    (h : i.source = lineText backend codec m.1 m.2++newline::rest) :
    ∃ bufferSize, i.doRecvInput backend codec now (lineText backend codec m.1 m.2).length =
      { i with
        incoming := { i.incoming with
          next := ⟨i.incoming.next.messages++[⟨m.1,m.2,now⟩]⟩ }
        recvDest := m.2
        bufferSize := bufferSize
        source := rest } := by
  have htake : i.source.take (lineText backend codec m.1 m.2).length =
      lineText backend codec m.1 m.2 := by
    rw [h, List.take_left]
  have hdrop : i.source.drop ((lineText backend codec m.1 m.2).length+1) = rest := by
    rw [h, ← List.drop_drop, List.drop_left]
    rfl
  obtain ⟨hget,hlen⟩ := getSymbols_putSymbols (codec.decode_encode m.2.data)
  have hread : deserializeMessageHeader backend { i.recvDest with data := [] }
      (lineText backend codec m.1 m.2) =
        some ((m.1,{ m.2 with data := [] }),codec.contentText m.2.data) := by
    rw [deserializeMessageHeader_eq, lineText, headerBytes, SelfCode.decode_encode]
    rfl
  refine ⟨max i.bufferSize (codec.contentText m.2.data).length,?_⟩
  have hcontent : codec.concentrateBits (codec.getSymbols (codec.contentText m.2.data))
      (max i.bufferSize (codec.contentText m.2.data).length) = some m.2.data := by
    rw [SymbolCodec.contentText, hget, hlen]
    exact codec.concentrate_dissolve _ _ (le_max_of_le_right (codec.dissolve_length _))
  simp only [BridgeInput.doRecvInput, htake, hread, hcontent, hdrop, MessageStorage.pushIf]

end Lines

section Output

variable {backend codec}

theorem push_foldl (entries : List StoredMessage) (o : BridgeOutput) :
    entries.foldl (fun o entry => o.push entry) o =
      { o with outgoing := ⟨o.outgoing.current,⟨o.outgoing.next.messages++entries⟩⟩ } := by
  induction entries generalizing o with
  | nil => simp
  | cons entry entries ih =>
    rw [List.foldl_cons, ih]
    simp [BridgeOutput.push, MessageStorage.pushIf]

/-- The send handler takes each message and writes those that are not too old. -/
theorem sendHandler_foldl (now : ℕ) (entries : List StoredMessage) (o : BridgeOutput) :
    (entries.foldl (fun o entry =>
        (sendHandler backend codec o entry.msgId (entry.age now) entry.message).2) o).output =
      o.output++((entries.map (fun entry => (entry,now))).filterMap forwarded).flatMap
        (line backend codec) := by
  induction entries generalizing o with
  | nil => simp
  | cons entry entries ih =>
    rw [List.foldl_cons, ih, List.map_cons]
    by_cases h : (addAge (entry.age now) entry.message).tooOld = true
    · simp [sendHandler, forwarded, h]
    · simp [sendHandler, forwarded, h, line]

variable (backend codec) in
theorem sendOutput_spec (now : ℕ) (meanwhile : List StoredMessage) (o : BridgeOutput) :
    (o.sendOutput backend codec now meanwhile).output = o.output++
      ((o.outgoing.next.messages.map (fun entry => (entry,now))).filterMap forwarded).flatMap
        (line backend codec) ∧
    (o.sendOutput backend codec now meanwhile).outgoing =
      ⟨⟨[]⟩,⟨o.outgoing.current.messages++meanwhile⟩⟩ := by
  have htakes (st : BridgeOutput) (entry : StoredMessage) :
      (sendHandler backend codec st entry.msgId (entry.age now) entry.message).1 = true := by
    simp only [sendHandler]
    split_ifs <;> rfl
  have hfetch (st : BridgeOutput) :
      o.outgoing.next.fetchAll now (sendHandler backend codec) st =
        (!o.outgoing.next.messages.isEmpty,⟨[]⟩,o.outgoing.next.messages.foldl (fun o entry =>
          (sendHandler backend codec o entry.msgId (entry.age now) entry.message).2) st) := by
    rw [MessageStorage.fetchAll, fetchAllEntries_eq StoredMessage.release _
      (fun entry => entry.message.tooManyHops) StoredMessage.release_tooManyHops,
      handled_all _ htakes]
    rfl
  simp only [BridgeOutput.sendOutput, push_foldl, DoubleBuffer.swap, hfetch]
  exact ⟨sendHandler_foldl now _ _,trivial⟩

end Output

/-- What is on its way are the lines of the messages that were sent and not
yet received, cut wherever the stream has delivered so far. -/
structure Inv (s : Link) : Prop where
  outgoing : s.output.outgoing.current.messages = []
  pushed : s.pushed = s.handled.map Prod.fst++s.output.outgoing.next.messages
  written : s.output.output = s.sent.flatMap (line backend codec)
  arrived : s.arrived ≤ s.output.output.length
  received : s.received <+: s.sent
  waiting : s.input.source++s.output.output.drop s.arrived =
    (s.sent.drop s.received.length).flatMap (line backend codec)
  errors : s.input.decodeErrors = 0

section Steps

variable {backend codec maxRead} {s : Link}

theorem sent_extends (s : Link) (e : Event σ) :
    s.sent <+: (step backend codec maxRead s e).sent := by
  cases e with
  | sendOutput now meanwhile =>
    rw [Link.sent, Link.sent, step, List.filterMap_append]
    exact List.prefix_append _ _
  | _ => exact List.prefix_refl _

theorem sendOutput_inv (h : Inv backend codec s) (now : ℕ) (meanwhile : List StoredMessage) :
    Inv backend codec (step backend codec maxRead s (.sendOutput now meanwhile : Event σ)) := by
  obtain ⟨hout,hqueue⟩ := sendOutput_spec backend codec now meanwhile s.output
  have hsent : (step backend codec maxRead s (.sendOutput now meanwhile : Event σ)).sent =
      s.sent++(s.output.outgoing.next.messages.map (fun entry => (entry,now))).filterMap
        forwarded := by
    rw [Link.sent, Link.sent, step, List.filterMap_append]
  have hlen := h.received.length_le
  refine ⟨?_,?_,?_,?_,?_,?_,h.errors⟩
  · simp [step, hqueue]
  · simp [step, hqueue, h.pushed, h.outgoing, Function.comp_def]
  · rw [hsent, List.flatMap_append, ← h.written]
    exact hout
  · simp only [step, hout, List.length_append]
    exact Nat.le_add_right_of_le h.arrived
  · exact h.received.trans (sent_extends s _)
  · rw [hsent]
    simp only [step, hout]
    rw [List.drop_append_of_le_length h.arrived, ← List.append_assoc, h.waiting,
      List.drop_append_of_le_length hlen, List.flatMap_append]

theorem arrive_inv (h : Inv backend codec s) (n : ℕ) :
    Inv backend codec (step backend codec maxRead s (.arrive n : Event σ)) := by
  refine ⟨h.outgoing,h.pushed,h.written,Nat.min_le_right _ _,h.received,?_,h.errors⟩
  apply Eq.trans _ h.waiting
  simp only [step, List.append_assoc]
  congr 1
  by_cases hn : s.arrived+n ≤ s.output.output.length
  · rw [min_eq_left hn, ← List.drop_drop, List.take_append_drop]
  · have hle := Nat.le_of_not_le hn
    rw [min_eq_right hle, List.drop_length, List.append_nil, List.take_of_length_le]
    rw [List.length_drop]
    omega

theorem sent_drop_cases (s : Link) : s.sent.drop s.received.length = [] ∨
    ∃ m rest, s.sent[s.received.length]? = some m ∧
      s.sent.drop s.received.length = m::rest := by
  cases hd : s.sent.drop s.received.length with
  | nil => exact Or.inl rfl
  | cons m rest =>
    refine Or.inr ⟨m,rest,?_,rfl⟩
    rw [← List.head?_drop, hd]
    rfl

/-- The next line is read if it has arrived as a whole; else nothing is. -/
theorem recvInput_cases (hheader : ∀ msgId msg, newline ∉ headerBytes backend msgId msg)
    (hshort : ∀ m ∈ s.sent, (lineText backend codec m.1 m.2).length < maxRead)
    (h : Inv backend codec s) (now : ℕ) :
    (s.input.recvInput backend codec maxRead now = s.input ∧
      (s.output.output.length ≤ s.arrived → s.sent.drop s.received.length = [])) ∨
    ∃ m bufferSize rest, s.sent[s.received.length]? = some m ∧
      s.input.source = line backend codec m++rest ∧
      s.input.recvInput backend codec maxRead now = { s.input with
        incoming := { s.input.incoming with
          next := ⟨s.input.incoming.next.messages++[⟨m.1,m.2,now⟩]⟩ }
        recvDest := m.2
        bufferSize := bufferSize
        source := rest } := by
  have hwait := h.waiting
  rcases sent_drop_cases s with hnil | ⟨m,rest,hm,hd⟩
  · rw [hnil, List.flatMap_nil] at hwait
    have hempty : s.input.source = [] := (List.append_eq_nil_iff.mp hwait).1
    refine Or.inl ⟨?_,fun _ => hnil⟩
    rw [BridgeInput.recvInput, hempty, scanFor_none maxRead List.not_mem_nil]
  · rw [hd, List.flatMap_cons, line, List.append_assoc, List.singleton_append] at hwait
    rcases List.append_eq_append_iff.mp hwait with ⟨more,hbody,hrest⟩ | ⟨more,hsource,hrest⟩
    · apply Or.inl
      constructor
      · rw [BridgeInput.recvInput, scanFor_none]
        intro hmem
        apply newline_not_mem_lineText hheader m
        rw [hbody]
        exact List.mem_append_left _ hmem
      · intro hall
        rw [List.drop_eq_nil_of_le hall] at hrest
        exact absurd hrest (by simp)
    · cases more with
      | nil =>
        apply Or.inl
        constructor
        · rw [BridgeInput.recvInput, scanFor_none]
          rw [hsource, List.append_nil]
          exact newline_not_mem_lineText hheader m
        · intro hall
          rw [List.drop_eq_nil_of_le hall] at hrest
          exact absurd hrest (by simp)
      | cons b more =>
        obtain ⟨rfl,hrest⟩ := List.cons_eq_cons.mp hrest
        apply Or.inr
        obtain ⟨bufferSize,hread⟩ := doRecvInput_line s.input now m more hsource
        refine ⟨m,bufferSize,more,hm,by simp [hsource, line],?_⟩
        rw [BridgeInput.recvInput, hsource, scanFor_line more (newline_not_mem_lineText hheader m)
          (hshort m (List.mem_of_getElem? hm)), ← hread]

variable (σ) in
theorem recvInput_step (hheader : ∀ msgId msg, newline ∉ headerBytes backend msgId msg)
    (hshort : ∀ m ∈ s.sent, (lineText backend codec m.1 m.2).length < maxRead)
    (h : Inv backend codec s) (now : ℕ) :
    (step backend codec maxRead s (.recvInput now : Event σ) = s ∧
      (s.output.output.length ≤ s.arrived → s.received = s.sent)) ∨
    ∃ m, (step backend codec maxRead s (.recvInput now : Event σ)).received = s.received++[m] ∧
      Inv backend codec (step backend codec maxRead s (.recvInput now : Event σ)) := by
  rcases recvInput_cases hheader hshort h now with ⟨hsame,hall⟩ | ⟨m,size,rest,hm,hsource,hread⟩
  · apply Or.inl
    constructor
    · simp only [step, hsame, List.drop_length, List.map_nil, List.append_nil]
    · intro hle
      exact h.received.eq_of_length_le (List.drop_eq_nil_iff.mp (hall hle))
  · apply Or.inr
    refine ⟨m,?_,?_⟩
    · simp [step, hread, toReceived]
    · obtain ⟨hlt,hget⟩ := List.getElem?_eq_some_iff.mp hm
      have hdrop : s.sent.drop s.received.length = m::s.sent.drop (s.received.length+1) := by
        rw [List.drop_eq_getElem_cons hlt, hget]
      have hreceived : (step backend codec maxRead s (.recvInput now : Event σ)).received =
          s.received++[m] := by
        simp [step, hread, toReceived]
      refine ⟨h.outgoing,h.pushed,h.written,h.arrived,?_,?_,?_⟩
      · rw [hreceived]
        obtain ⟨more,hmore⟩ := h.received
        refine ⟨s.sent.drop (s.received.length+1),?_⟩
        show s.received++[m]++s.sent.drop (s.received.length+1) = s.sent
        rw [List.append_assoc, List.singleton_append, ← hdrop]
        conv_lhs => rw [← hmore]
        rw [List.drop_left, hmore]
      · have hw := h.waiting
        rw [hdrop, List.flatMap_cons, hsource, List.append_assoc] at hw
        rw [hreceived, List.length_append, List.length_singleton]
        simp only [step, hread]
        exact List.append_cancel_left hw
      · simp only [step, hread]
        exact h.errors

theorem fetchMessages_inv (h : Inv backend codec s) (now : ℕ) (handler : FetchHandler σ) (st : σ) :
    Inv backend codec (step backend codec maxRead s (.fetchMessages now handler st)) :=
  ⟨h.outgoing,h.pushed,h.written,h.arrived,h.received,h.waiting,h.errors⟩

theorem push_inv (h : Inv backend codec s) (entry : StoredMessage) :
    Inv backend codec (step backend codec maxRead s (.push entry : Event σ)) := by
  refine ⟨h.outgoing,?_,h.written,h.arrived,h.received,h.waiting,h.errors⟩
  simp [step, h.pushed, BridgeOutput.push, MessageStorage.pushIf]

theorem step_inv (hheader : ∀ msgId msg, newline ∉ headerBytes backend msgId msg)
    (hshort : ∀ m ∈ s.sent, (lineText backend codec m.1 m.2).length < maxRead)
    (h : Inv backend codec s) (e : Event σ) :
    Inv backend codec (step backend codec maxRead s e) := by
  cases e with
  | push entry => exact push_inv h entry
  | sendOutput now meanwhile => exact sendOutput_inv h now meanwhile
  | arrive n => exact arrive_inv h n
  | recvInput now =>
    rcases recvInput_step σ hheader hshort h now with ⟨hsame,-⟩ | ⟨m,-,hinv⟩
    · rw [hsame]
      exact h
    · exact hinv
  | fetchMessages now handler st => exact fetchMessages_inv h now handler st

theorem start_inv : Inv backend codec {} :=
  ⟨rfl,rfl,rfl,le_rfl,List.prefix_refl _,rfl,rfl⟩

end Steps

section Runs

variable {backend codec maxRead} {es : List (Event σ)}

theorem after_inv (hheader : ∀ msgId msg, newline ∉ headerBytes backend msgId msg)
    (hshort : ∀ m ∈ (after backend codec maxRead es).sent,
      (lineText backend codec m.1 m.2).length < maxRead) :
    Inv backend codec (after backend codec maxRead es) := by
  induction es using List.reverseRecOn with
  | nil => exact start_inv
  | append_singleton es e ih =>
    rw [after, run_append] at hshort ⊢
    have hshort' (m) (hm : m ∈ (after backend codec maxRead es).sent) :=
      hshort m ((sent_extends _ e).subset hm)
    exact step_inv hheader hshort' (ih hshort') e

/-- Once all has arrived each call reads a line until none is left. -/
theorem recvInput_all (hheader : ∀ msgId msg, newline ∉ headerBytes backend msgId msg)
    (now n : ℕ) {s : Link}
    (hshort : ∀ m ∈ s.sent, (lineText backend codec m.1 m.2).length < maxRead)
    (h : Inv backend codec s) (hall : s.output.output.length ≤ s.arrived)
    (hn : s.sent.length ≤ s.received.length+n) :
    (run (step backend codec maxRead) s
      (List.replicate n (.recvInput now : Event σ))).received = s.sent := by
  induction n generalizing s with
  | zero => exact h.received.eq_of_length_le hn
  | succ n ih =>
    rw [List.replicate_succ, run]
    rcases recvInput_step σ hheader hshort h now with ⟨hsame,hdone⟩ | ⟨m,hreceived,hinv⟩
    · rw [hsame]
      apply ih hshort h hall
      rw [hdone hall]
      omega
    · apply ih (s := step backend codec maxRead s (.recvInput now : Event σ)) hshort hinv hall
      rw [hreceived, List.length_append, List.length_singleton]
      show s.sent.length ≤ _
      omega

end Runs

/-- The lines of one bridge are read by the other one as the messages they were
written from: in order, none lost, merged or duplicated, and all of them once
they have arrived. -/
theorem bridge_stream_restored
    (hheader : ∀ msgId msg, newline ∉ headerBytes backend msgId msg) (es : List (Event σ))
    (hshort : ∀ m ∈ (after backend codec maxRead es).sent,
      (lineText backend codec m.1 m.2).length < maxRead) :
    (after backend codec maxRead es).pushed =
      (after backend codec maxRead es).handled.map Prod.fst++
        (after backend codec maxRead es).output.outgoing.next.messages ∧
    (after backend codec maxRead es).received <+: (after backend codec maxRead es).sent ∧
    (after backend codec maxRead es).input.decodeErrors = 0 ∧
    ∀ now n, (after backend codec maxRead es).sent.length ≤ n →
      (after backend codec maxRead
        (es++.arrive (after backend codec maxRead es).output.output.length::
          List.replicate n (.recvInput now))).received = (after backend codec maxRead es).sent := by
  have h := after_inv hheader hshort
  refine ⟨h.pushed,h.received,h.errors,fun now n hn => ?_⟩
  rw [after, run_append, run]
  apply recvInput_all hheader now n (s := step backend codec maxRead
    (after backend codec maxRead es) (.arrive _ : Event σ)) hshort (arrive_inv h _)
  · simp only [step, le_min_iff]
    exact ⟨Nat.le_add_left _ _,le_rfl⟩
  · exact hn.trans (Nat.le_add_left _ _)

namespace SampleCodec

def dissolveBits : Block → Block
  | a::b::c::rest => a/4::(a%4*16+b/16)::(b%16*4+c/64)::c%64::dissolveBits rest
  | [a,b] => [a/4,a%4*16+b/16,b%16*4]
  | [a] => [a/4,a%4*16]
  | [] => []

def concentrate : Block → Block
  | s::t::u::v::rest => (s*4+t/16)::(t%16*16+u/4)::(u%4*64+v)::concentrate rest
  | [s,t,u] => [s*4+t/16,t%16*16+u/4]
  | [s,t] => [s*4+t/16]
  | _ => []

/-- The bytes that groups of six bits are joined to. -/
theorem join_bits (a b c : Byte) :
    (a/4*4+(a%4*16+b/16)/16 = a ∧ a/4*4+a%4*16/16 = a) ∧
    ((a%4*16+b/16)%16*16+(b%16*4+c/64)/4 = b ∧ (a%4*16+b/16)%16*16+b%16*4/4 = b) ∧
    (b%16*4+c/64)%4*64+c%64 = c := by
  have := a.toNat_lt
  have := b.toNat_lt
  have := c.toNat_lt
  refine ⟨⟨?_,?_⟩,⟨?_,?_⟩,?_⟩ <;> apply UInt8.toNat_inj.mp <;>
    simp only [UInt8.toNat_add, UInt8.toNat_mul, UInt8.toNat_div, UInt8.toNat_mod,
      UInt8.reduceToNat] <;> omega

theorem six_bits (a b c : Byte) : (a/4 < 64 ∧ a%4*16+b/16 < 64 ∧ b%16*4+c/64 < 64 ∧ c%64 < 64) ∧
    a%4*16 < 64 ∧ b%16*4 < 64 := by
  have := a.toNat_lt
  have := b.toNat_lt
  have := c.toNat_lt
  refine ⟨⟨?_,?_,?_,?_⟩,?_,?_⟩ <;> apply UInt8.lt_iff_toNat_lt.mpr <;>
    simp only [UInt8.toNat_add, UInt8.toNat_mul, UInt8.toNat_div, UInt8.toNat_mod,
      UInt8.reduceToNat] <;> omega

theorem dissolveBits_lt (data : Block) : ∀ b ∈ dissolveBits data, b < 64 := by
  fun_induction dissolveBits data with
  | case1 a b c rest ih =>
    obtain ⟨⟨h1,h2,h3,h4⟩,-⟩ := six_bits a b c
    simp only [List.mem_cons, forall_eq_or_imp]
    exact ⟨h1,h2,h3,h4,ih⟩
  | case2 a b =>
    obtain ⟨⟨h1,h2,-,-⟩,-,h3⟩ := six_bits a b 0
    simp [h1, h2, h3]
  | case3 a =>
    obtain ⟨⟨h1,-⟩,h2,-⟩ := six_bits a 0 0
    simp [h1, h2]
  | case4 => simp

theorem concentrate_dissolveBits (data : Block) : concentrate (dissolveBits data) = data := by
  fun_induction dissolveBits data with
  | case1 a b c rest ih =>
    obtain ⟨⟨h1,-⟩,⟨h2,-⟩,h3⟩ := join_bits a b c
    simp only [concentrate, h1, h2, h3, ih]
  | case2 a b =>
    obtain ⟨⟨h1,-⟩,⟨-,h2⟩,-⟩ := join_bits a b 0
    simp only [concentrate, h1, h2]
  | case3 a =>
    obtain ⟨⟨-,h1⟩,-⟩ := join_bits a 0 0
    simp only [concentrate, h1]
  | case4 => rfl

theorem length_dissolveBits (data : Block) : data.length ≤ (dissolveBits data).length := by
  fun_induction dissolveBits data <;> simp only [List.length_cons, List.length_nil] <;> omega

def encode (b : Byte) : Option Byte :=
  if b < 26 then some (b+65)
  else if b < 52 then some (b+71)
  else if b < 62 then some (b-4)
  else if b = 62 then some 43
  else if b = 63 then some 47
  else none

def decode (c : Byte) : Option Byte :=
  if 65 ≤ c ∧ c ≤ 90 then some (c-65)
  else if 97 ≤ c ∧ c ≤ 122 then some (c-71)
  else if 48 ≤ c ∧ c ≤ 57 then some (c+4)
  else if c = 43 then some 62
  else if c = 47 then some 63
  else none

theorem decode_encode {b : Byte} (h : b < 64) :
    ∃ c, encode b = some c ∧ c ≠ 10 ∧ decode c = some b := by
  have hall : ∀ n < 64, ∃ c ∈ encode (UInt8.ofNat n), c ≠ 10 ∧ decode c = some (UInt8.ofNat n) := by
    decide
  obtain ⟨c,hc,hne,hd⟩ := hall b.toNat (UInt8.lt_iff_toNat_lt.mp h)
  rw [UInt8.ofNat_toNat] at hc hd
  exact ⟨c,hc,hne,hd⟩

end SampleCodec

def sampleCodec : SymbolCodec where
  dissolveBits := SampleCodec.dissolveBits
  concentrateBits symbols size :=
    if (SampleCodec.concentrate symbols).length ≤ size then some (SampleCodec.concentrate symbols)
    else none
  encode := SampleCodec.encode
  decode := SampleCodec.decode
  decode_encode data b hb := SampleCodec.decode_encode (SampleCodec.dissolveBits_lt data b hb)
  dissolve_length := SampleCodec.length_dissolveBits
  concentrate_dissolve data size h := by
    rw [SampleCodec.concentrate_dissolveBits, if_pos h]

def textNumber : LocalCode Byte ℕ := .unary 1 0 UInt8.zero_ne_one

/-- A serializer that writes all fields as text of two characters. -/
def textBackend : SerializerBackend where
  identifier := .retract SampleSerializer.toNumber SampleSerializer.ofNumber
    SampleSerializer.ofNumber_toNumber textNumber
  endpointId := textNumber
  sequence := textNumber
  int8 := .retract (fun i => i.toUInt8.toNat) (fun n => some (UInt8.ofNat n).toInt8)
    (fun i => by rw [UInt8.ofNat_toNat]; rfl) textNumber
  priority := .retract MessagePriority.value
    (fun n => [.idle,.low,.normal,.high,.critical][n]?) (fun p => by cases p <;> rfl) textNumber
  cryptoFlags := .retract
    (fun f => (if f.asymmetric then 1 else 0)+(if f.signedHeader then 2 else 0)+
      (if f.signedContent then 4 else 0))
    (fun n => some ⟨n%2 = 1,n/2%2 = 1,n/4%2 = 1⟩)
    (fun f => by rcases f with ⟨_ | _,_ | _,_ | _⟩ <;> rfl) textNumber

theorem newline_not_mem_textNumber (n : ℕ) : newline ∉ textNumber.encode n := by
  simp [textNumber, LocalCode.unary, SelfCode.unary, newline]

theorem newline_not_mem_textHeader (msgId : MessageId) (msg : MessageInfo) :
    newline ∉ headerBytes textBackend msgId msg := by
  simp only [headerBytes, headerCode, LocalCode.pair, SelfCode.pair, textBackend, LocalCode.retract,
    SelfCode.retract, List.mem_append, newline_not_mem_textNumber, or_self, not_false_eq_true]

def textMessage (data : Block) (insertTime : ℕ) : StoredMessage :=
  ⟨msgbusId .ping,{ sourceId := 2, data := data },insertTime⟩

/-- Three messages, one of them too old and one without content; the lines
arrive in pieces, and a call comes too early. -/
def sampleLines : List (Event Unit) := [
  .push (textMessage [1,2,3,255] 100000), .push (textMessage [9] 0),
  .sendOutput 100000 [textMessage [] 100000], .arrive 10, .recvInput 1, .sendOutput 100000 [],
  .arrive 200, .recvInput 2]

theorem sampleLines_restored :
    (after textBackend sampleCodec 400 sampleLines).received.map (fun m => m.2.data) =
      [[1,2,3,255]] ∧
    (after textBackend sampleCodec 400 sampleLines).received <+:
      (after textBackend sampleCodec 400 sampleLines).sent ∧
    ∀ now n, (after textBackend sampleCodec 400 sampleLines).sent.length ≤ n →
      (after textBackend sampleCodec 400 (sampleLines++.arrive (after textBackend sampleCodec 400
        sampleLines).output.output.length::List.replicate n (.recvInput now))).received =
          (after textBackend sampleCodec 400 sampleLines).sent := by
  have h := bridge_stream_restored textBackend sampleCodec 400 newline_not_mem_textHeader
    sampleLines (by decide +kernel)
  exact ⟨by decide +kernel,h.2.1,h.2.2.2⟩

end BridgeStream

end MsgBus
