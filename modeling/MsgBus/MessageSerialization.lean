import MsgBus.Types

/-!
# Writing and reading a message

A message is written field by field behind its identifier and its content is
appended as it is. The reader lists the same fields by hand, stores each of
them over what the target message held before and takes the rest of the source
as the content. The field codecs are those of the serializer backend, one for
each type of a field.
-/

set_option autoImplicit false

namespace MsgBus

structure SerializerBackend where
  identifier : LocalCode Byte Identifier
  endpointId : LocalCode Byte EndpointId
  sequence : LocalCode Byte MessageSequence
  int8 : LocalCode Byte Int8
  priority : LocalCode Byte MessagePriority
  cryptoFlags : LocalCode Byte MessageCryptoFlags

structure BlockDataSink where
  size : ℕ
  done : Block := []
  deriving DecidableEq, Repr

namespace BlockDataSink

def write (sink : BlockDataSink) (data : Block) : Option BlockDataSink :=
  if sink.done.length+data.length ≤ sink.size then
    some { sink with done := sink.done ++ data }
  else none

/-- Two writes one after the other are one write of both blocks. -/
theorem write_bind_write {α : Type*} (sink : BlockDataSink) (a b : Block)
    (k : BlockDataSink → Option α) :
    ((sink.write a).bind fun s => (s.write b).bind k) = (sink.write (a ++ b)).bind k := by
  by_cases ha : sink.done.length+a.length ≤ sink.size
  · simp only [write, if_pos ha, Option.bind_some, List.length_append, List.append_assoc,
      Nat.add_assoc]
  · have hab : ¬ sink.done.length+(a ++ b).length ≤ sink.size := by
      rw [List.length_append]
      omega
    simp only [write, if_neg ha, if_neg hab, Option.bind_none]

theorem write_some {sink sink' : BlockDataSink} {data : Block}
    (h : sink.write data = some sink') :
    sink'.size = sink.size ∧ sink'.done = sink.done ++ data ∧
      sink.done.length+data.length ≤ sink.size := by
  unfold write at h
  split_ifs at h with hfits
  cases h
  exact ⟨rfl,rfl,hfits⟩

end BlockDataSink

section Serialization

variable (backend : SerializerBackend)

def serializeMessageHeader (msgId : MessageId) (msg : MessageView) (sink : BlockDataSink) :
    Option BlockDataSink := do
  let sink ← sink.write (backend.identifier.encode msgId.class_)
  let sink ← sink.write (backend.identifier.encode msgId.method)
  let sink ← sink.write (backend.endpointId.encode msg.sourceId)
  let sink ← sink.write (backend.endpointId.encode msg.targetId)
  let sink ← sink.write (backend.endpointId.encode msg.serializerId)
  let sink ← sink.write (backend.sequence.encode msg.sequenceNo)
  let sink ← sink.write (backend.int8.encode msg.hopCount)
  let sink ← sink.write (backend.int8.encode msg.ageQuarterSeconds)
  let sink ← sink.write (backend.priority.encode msg.priority)
  sink.write (backend.cryptoFlags.encode msg.cryptoFlags)

def serializeMessage (msgId : MessageId) (msg : MessageView) (sink : BlockDataSink) :
    Option BlockDataSink := do
  let sink ← serializeMessageHeader backend msgId msg sink
  sink.write msg.data

/-- The fields are stored over those of the message that is read into. -/
def deserializeMessageHeader (msg : MessageView) (source : Block) :
    Option ((MessageId × MessageView) × Block) := do
  let (classId,source) ← backend.identifier.decode source
  let (methodId,source) ← backend.identifier.decode source
  let (sourceId,source) ← backend.endpointId.decode source
  let (targetId,source) ← backend.endpointId.decode source
  let (serializerId,source) ← backend.endpointId.decode source
  let (sequenceNo,source) ← backend.sequence.decode source
  let (hopCount,source) ← backend.int8.decode source
  let (ageQuarterSeconds,source) ← backend.int8.decode source
  let (priority,source) ← backend.priority.decode source
  let (cryptoFlags,source) ← backend.cryptoFlags.decode source
  return ((⟨classId,methodId⟩,{ msg with
    sourceId := sourceId
    targetId := targetId
    serializerId := serializerId
    sequenceNo := sequenceNo
    hopCount := hopCount
    ageQuarterSeconds := ageQuarterSeconds
    priority := priority
    cryptoFlags := cryptoFlags }),source)

def deserializeMessage (msg : MessageView) (source : Block) :
    Option (MessageId × MessageView) := do
  let ((msgId,msg),source) ← deserializeMessageHeader backend msg source
  return (msgId,{ msg with data := source })

/-- The header as the reader sees it: the codes of the ten fields in a row. -/
def headerCode : LocalCode Byte (Identifier × Identifier × EndpointId × EndpointId ×
    EndpointId × MessageSequence × Int8 × Int8 × MessagePriority × MessageCryptoFlags) :=
  .pair backend.identifier (.pair backend.identifier (.pair backend.endpointId
    (.pair backend.endpointId (.pair backend.endpointId (.pair backend.sequence
      (.pair backend.int8 (.pair backend.int8 (.pair backend.priority
        backend.cryptoFlags))))))))

def headerFields (msgId : MessageId) (msg : MessageInfo) : Identifier × Identifier ×
    EndpointId × EndpointId × EndpointId × MessageSequence × Int8 × Int8 ×
      MessagePriority × MessageCryptoFlags :=
  (msgId.class_,msgId.method,msg.sourceId,msg.targetId,msg.serializerId,msg.sequenceNo,
    msg.hopCount,msg.ageQuarterSeconds,msg.priority,msg.cryptoFlags)

def headerBytes (msgId : MessageId) (msg : MessageInfo) : Block :=
  (headerCode backend).encode (headerFields msgId msg)

theorem headerBytes_ne_nil (msgId : MessageId) (msg : MessageInfo) :
    headerBytes backend msgId msg ≠ [] := by
  have h : backend.identifier.encode msgId.class_ ≠ [] := by
    by_cases hc : msgId.class_ = .ping
    · exact backend.identifier.encode_ne_nil (b := .pong) (by rw [hc]; decide)
    · exact backend.identifier.encode_ne_nil hc
  exact fun hnil => h (List.append_eq_nil_iff.mp hnil).1

theorem serializeMessageHeader_eq (msgId : MessageId) (msg : MessageView)
    (sink : BlockDataSink) : serializeMessageHeader backend msgId msg sink =
      sink.write (headerBytes backend msgId msg.toMessageInfo) := by
  have hlast (s : BlockDataSink) (a b : Block) :
      ((s.write a).bind fun s => s.write b) = s.write (a ++ b) := by
    simpa only [Option.bind_some, Option.bind_fun_some] using s.write_bind_write a b some
  simp only [serializeMessageHeader, Option.bind_eq_bind, hlast, headerBytes, headerCode,
    headerFields, LocalCode.pair, SelfCode.pair]

theorem serializeMessage_eq (msgId : MessageId) (msg : MessageView) (sink : BlockDataSink) :
    serializeMessage backend msgId msg sink =
      sink.write (headerBytes backend msgId msg.toMessageInfo ++ msg.data) := by
  rw [serializeMessage, serializeMessageHeader_eq]
  simpa only [Option.bind_eq_bind, Option.bind_some, Option.bind_fun_some] using
    sink.write_bind_write (headerBytes backend msgId msg.toMessageInfo) msg.data some

/-- The reader takes what the header code takes. -/
theorem deserializeMessageHeader_eq (msg : MessageView) (source : Block) :
    deserializeMessageHeader backend msg source =
      ((headerCode backend).decode source).bind fun
        | ((classId,methodId,sourceId,targetId,serializerId,sequenceNo,hopCount,
            ageQuarterSeconds,priority,cryptoFlags),rest) =>
          some ((⟨classId,methodId⟩,⟨⟨sourceId,targetId,serializerId,sequenceNo,hopCount,
            ageQuarterSeconds,priority,cryptoFlags⟩,msg.data⟩),rest) := by
  simp only [headerCode, LocalCode.pair_decode_bind]
  rfl

theorem deserializeMessage_append (dest : MessageView) (msgId : MessageId) (msg : MessageInfo)
    (content : Block) : deserializeMessage backend dest (headerBytes backend msgId msg ++ content) =
      some (msgId,⟨msg,content⟩) := by
  simp only [deserializeMessage, deserializeMessageHeader_eq, headerBytes,
    SelfCode.decode_encode, headerFields, Option.bind_eq_bind, Option.bind_some, pure]

theorem serializeMessage_done {msgId : MessageId} {msg : MessageView} {size : ℕ}
    {sink : BlockDataSink} (h : serializeMessage backend msgId msg ⟨size,[]⟩ = some sink) :
    sink.done = headerBytes backend msgId msg.toMessageInfo ++ msg.data ∧
      sink.done.length ≤ size := by
  rw [serializeMessage_eq] at h
  obtain ⟨-,hdone,hfits⟩ := BlockDataSink.write_some h
  rw [List.nil_append] at hdone
  rw [List.length_nil, Nat.zero_add] at hfits
  exact ⟨hdone,hdone ▸ hfits⟩

theorem deserializeMessage_done (dest : MessageView) {msgId : MessageId} {msg : MessageView}
    {size : ℕ} {sink : BlockDataSink}
    (h : serializeMessage backend msgId msg ⟨size,[]⟩ = some sink) :
    deserializeMessage backend dest sink.done = some (msgId,msg) := by
  rw [(serializeMessage_done backend h).1, deserializeMessage_append]

theorem deserializeMessage_truncated (dest : MessageView) (msgId : MessageId) (msg : MessageInfo)
    {source : Block} (hp : source <+: headerBytes backend msgId msg)
    (hne : source ≠ headerBytes backend msgId msg) :
    deserializeMessage backend dest source = none := by
  have hd := (headerCode backend).truncated hp hne
  simp only [deserializeMessage, deserializeMessageHeader_eq, hd, Option.bind_eq_bind,
    Option.bind_none]

/-- Each message is written into a frame of its own, of a size of its own. -/
def writeFrames : List ((MessageId × MessageView) × ℕ) → Option (List Block)
  | [] => some []
  | ((msgId,msg),size)::messages => do
    let sink ← serializeMessage backend msgId msg ⟨size,[]⟩
    let frames ← writeFrames messages
    return sink.done::frames

theorem writeFrames_restored (dest : MessageView) {messages : List ((MessageId × MessageView) × ℕ)}
    {frames : List Block} (h : writeFrames backend messages = some frames) :
    frames.map (deserializeMessage backend dest) = messages.map fun m => some m.1 := by
  induction messages generalizing frames with
  | nil => cases h; rfl
  | cons m messages ih =>
    obtain ⟨⟨msgId,msg⟩,size⟩ := m
    simp only [writeFrames, Option.bind_eq_bind, Option.bind_eq_some_iff, pure,
      Option.some.injEq] at h
    obtain ⟨sink,hsink,rest,hrest,rfl⟩ := h
    rw [List.map_cons, List.map_cons, deserializeMessage_done backend dest hsink, ih hrest]

/-- Whatever was in the message that is read into, what a message was written
to is read back as that message, each frame of a sequence by itself, and a
header that was cut short yields no message. -/
theorem serialize_deserialize_message (dest : MessageView) :
    (∀ msgId msg size sink, serializeMessage backend msgId msg ⟨size,[]⟩ = some sink →
      deserializeMessage backend dest sink.done = some (msgId,msg)) ∧
    (∀ messages frames, writeFrames backend messages = some frames →
      frames.map (deserializeMessage backend dest) = messages.map fun m => some m.1) ∧
    (∀ msgId msg size header source,
      serializeMessageHeader backend msgId msg ⟨size,[]⟩ = some header →
      source <+: header.done → source ≠ header.done →
      deserializeMessage backend dest source = none) := by
  refine ⟨?_,?_,?_⟩
  · intro msgId msg size sink h
    exact deserializeMessage_done backend dest h
  · intro messages frames h
    exact writeFrames_restored backend dest h
  · intro msgId msg size header source h hp hne
    rw [serializeMessageHeader_eq] at h
    have hdone := (BlockDataSink.write_some h).2.1
    rw [List.nil_append] at hdone
    rw [hdone] at hp hne
    exact deserializeMessage_truncated backend dest msgId msg.toMessageInfo hp hne

end Serialization

end MsgBus
