import MsgBus.MqttBridge

/-!
# Topics of the MQTT connection

The topic of a message names its class and method, the sender and the target.
A connection subscribes with any sender to the messages of a class and method
that are for itself or for all. All topics are written into one string of the
connection, which keeps the prefix they share.
-/

set_option autoImplicit false

namespace MsgBus

/-- Identifiers are packed texts; the value of the empty one is zero. -/
structure IdentifierNames (ι : Type) [Zero ι] extends IdentifierCharset where
  name : ι → List Char
  ofName : List Char → ι
  canBeEncoded_name : ∀ id, canBeEncoded (name id) = true
  name_ofName : ∀ {text}, canBeEncoded text = true → name (ofName text) = text
  ofName_name : ∀ id, ofName (name id) = id
  name_zero : name 0 = []
  plus_notMem : ∀ {text}, canBeEncoded text = true → '+' ∉ text

namespace IdentifierNames

variable {ι : Type} [Zero ι] (names : IdentifierNames ι)

theorem name_inj {a b : ι} : names.name a = names.name b ↔ a = b := by
  constructor
  · intro h
    rw [← names.ofName_name a, h, names.ofName_name]
  · exact congrArg _

theorem name_eq_nil {a : ι} : names.name a = [] ↔ a = 0 := by
  rw [← names.name_zero, name_inj]

theorem slash_notMem_name (id : ι) : '/' ∉ names.name id :=
  names.slash_notMem (names.canBeEncoded_name id)

theorem name_ne_plus (id : ι) : names.name id ≠ ['+'] := by
  intro h
  exact names.plus_notMem (names.canBeEncoded_name id) (h ▸ List.mem_singleton_self _)

end IdentifierNames

structure NamedMessageId (ι : Type) where
  class_ : ι
  method : ι
  deriving DecidableEq, Repr

def NamedMessageId.isValid {ι : Type} [Zero ι] [DecidableEq ι] (msgId : NamedMessageId ι) : Bool :=
  msgId.class_ ≠ 0 && msgId.method ≠ 0

structure PahoMqttConnection (ι : Type) where
  clientUid : ι
  tempTopic : List Char := []
  received : DoubleBuffer MessageStorage := ⟨{},{}⟩

namespace PahoMqttConnection

def topicPrefix : List Char := "eagi/bus/".toList

/-- `std::string::resize`. -/
def resize (text : List Char) (size : ℕ) : List Char :=
  text.take size ++ List.replicate (size-text.length) '\x00'

def startTopic (tempTopic : List Char) : List Char :=
  if tempTopic.isEmpty then topicPrefix else resize tempTopic topicPrefix.length

/-- The string is empty or has kept the prefix. -/
structure Inv {ι : Type} (uid : ι) (s : PahoMqttConnection ι) : Prop where
  clientUid : s.clientUid = uid
  tempTopic : s.tempTopic = [] ∨ topicPrefix <+: s.tempTopic

theorem Inv.startTopic {ι : Type} {uid : ι} {s : PahoMqttConnection ι}
    (h : Inv uid s) : startTopic s.tempTopic = topicPrefix := by
  obtain hnil | ⟨rest,hrest⟩ := h.tempTopic
  · rw [hnil]
    rfl
  · have hne : s.tempTopic.isEmpty = false := by
      rw [← hrest]
      rfl
    have hsize : topicPrefix.length-s.tempTopic.length = 0 := by
      rw [← hrest, List.length_append]
      omega
    rw [PahoMqttConnection.startTopic, hne, if_neg (by decide), resize, hsize, ← hrest,
      List.take_left, List.replicate_zero, List.append_nil]

variable {ι : Type} [Zero ι] [DecidableEq ι] (names : IdentifierNames ι)

def hasUid (s : PahoMqttConnection ι) (uid : List Char) : Bool :=
  ['_'] = uid || names.name s.clientUid = uid

def topicToMsgId (s : PahoMqttConnection ι) (topic : List Char) : NamedMessageId ι × ι :=
  if topicPrefix.isPrefixOf topic then
    let topic := topic.drop topicPrefix.length
    let (clsStr,clsTail) := TopicLevels.splitFirst '/' topic
    let (mthStr,mthTail) := TopicLevels.splitFirst '/' clsTail
    let (srcId,dstId) := TopicLevels.splitFirst '/' mthTail
    if !clsStr.isEmpty && !mthStr.isEmpty && s.hasUid names dstId &&
        names.canBeEncoded clsStr && names.canBeEncoded mthStr && names.canBeEncoded srcId then
      (⟨names.ofName clsStr,names.ofName mthStr⟩,names.ofName srcId)
    else (⟨0,0⟩,0)
  else (⟨0,0⟩,0)

def msgIdToSubscrTopic (s : PahoMqttConnection ι) (msgId : NamedMessageId ι) (sourceId : ι)
    (broadcast : Bool) : List Char × PahoMqttConnection ι :=
  let topic := startTopic s.tempTopic ++ names.name msgId.class_ ++ ['/'] ++
    names.name msgId.method ++
    if broadcast then "/+/_".toList else "/+/".toList ++ names.name sourceId
  (topic,{ s with tempTopic := topic })

def msgIdToTopic (s : PahoMqttConnection ι) (msgId : NamedMessageId ι) (targetId : ι) :
    List Char × PahoMqttConnection ι :=
  let topic := startTopic s.tempTopic ++ names.name msgId.class_ ++ ['/'] ++
    names.name msgId.method ++ ['/'] ++ names.name s.clientUid ++
    if targetId ≠ 0 then ['/'] ++ names.name targetId else "/_".toList
  (topic,{ s with tempTopic := topic })

/-- The messages that are special to the bus are received like all others. -/
def messageArrived (backend : SerializerBackend) (s : PahoMqttConnection ι) (topic : List Char)
    (data : Block) (now : ℕ) : PahoMqttConnection ι :=
  let (msgId,srcId) := s.topicToMsgId names topic
  if msgId.isValid && s.clientUid ≠ srcId then
    match deserializeMessage backend {} data with
    | some (msgId,message) =>
      { s with received := { s.received with
          next := s.received.next.pushIf (some ⟨msgId,message,now⟩) } }
    | none => s
  else s

/-! ## The string that topics are written into -/

inductive TopicCall (ι : Type) where
  | subscrTopic (msgId : NamedMessageId ι) (sourceId : ι) (broadcast : Bool)
  | topic (msgId : NamedMessageId ι) (targetId : ι)

def call (s : PahoMqttConnection ι) : TopicCall ι → PahoMqttConnection ι
  | .subscrTopic msgId sourceId broadcast =>
    (s.msgIdToSubscrTopic names msgId sourceId broadcast).2
  | .topic msgId targetId => (s.msgIdToTopic names msgId targetId).2

/-- The connection of a client after some topics have been written. -/
def after (clientUid : ι) (calls : List (TopicCall ι)) : PahoMqttConnection ι :=
  StepRun.run (call names) { clientUid } calls

variable {names} {uid : ι} {s : PahoMqttConnection ι}

theorem Inv.call (h : Inv uid s) (c : TopicCall ι) : Inv uid (s.call names c) := by
  cases c with
  | subscrTopic msgId sourceId broadcast =>
    refine ⟨h.clientUid,Or.inr ?_⟩
    simp only [PahoMqttConnection.call, msgIdToSubscrTopic, h.startTopic, List.append_assoc]
    exact List.prefix_append _ _
  | topic msgId targetId =>
    refine ⟨h.clientUid,Or.inr ?_⟩
    simp only [PahoMqttConnection.call, msgIdToTopic, h.startTopic, List.append_assoc]
    exact List.prefix_append _ _

theorem after_inv (calls : List (TopicCall ι)) : Inv uid (after names uid calls) :=
  StepRun.run_keeps (fun _ c h => h.call c) ⟨rfl,Or.inl rfl⟩

/-! ## Levels -/

variable (names)

def topicLevels (msgId : NamedMessageId ι) (source target : List Char) : List (List Char) :=
  ["eagi".toList,"bus".toList,names.name msgId.class_,names.name msgId.method,source,target]

/-- The last level of what is for a target, zero being all. -/
def targetLevel (targetId : ι) : List Char := if targetId = 0 then ['_'] else names.name targetId

variable {names}

omit [DecidableEq ι] in
theorem startTopic_levels (h : Inv uid s) (msgId : NamedMessageId ι) (source target : List Char) :
    startTopic s.tempTopic ++ names.name msgId.class_ ++ ['/'] ++ names.name msgId.method ++
      ['/'] ++ source ++ ['/'] ++ target =
        ['/'].intercalate (topicLevels names msgId source target) := by
  rw [h.startTopic]
  change "eagi/bus/".toList ++ _ ++ _ ++ _ ++ _ ++ _ ++ _ ++ _ = _
  simp [topicLevels]

omit [DecidableEq ι] in
theorem msgIdToSubscrTopic_levels (h : Inv uid s) (msgId : NamedMessageId ι) (sourceId : ι)
    (broadcast : Bool) : (s.msgIdToSubscrTopic names msgId sourceId broadcast).1 =
      ['/'].intercalate (topicLevels names msgId ['+']
        (if broadcast then ['_'] else names.name sourceId)) := by
  rw [← startTopic_levels h]
  cases broadcast <;> simp [msgIdToSubscrTopic]

theorem msgIdToTopic_levels (h : Inv uid s) (msgId : NamedMessageId ι) (targetId : ι) :
    (s.msgIdToTopic names msgId targetId).1 =
      ['/'].intercalate
        (topicLevels names msgId (names.name uid) (targetLevel names targetId)) := by
  rw [← startTopic_levels h]
  by_cases ht : targetId = 0
  · simp [msgIdToTopic, h.clientUid, targetLevel, ht]
  · simp [msgIdToTopic, h.clientUid, targetLevel, ht]

omit [DecidableEq ι] in
theorem topicLevels_slash {source target : List Char} (msgId : NamedMessageId ι) (hs : '/' ∉ source)
    (ht : '/' ∉ target) : ∀ level ∈ topicLevels names msgId source target, '/' ∉ level := by
  simp [topicLevels, names.slash_notMem_name, hs, ht]

theorem targetLevel_slash (targetId : ι) : '/' ∉ targetLevel names targetId := by
  rw [targetLevel]
  split_ifs
  · decide
  · exact names.slash_notMem_name targetId

omit [DecidableEq ι] in
/-- A filter for any source matches what has the same last level. -/
theorem subscrTopic_matches {source target last : List Char} (msgId : NamedMessageId ι)
    (hs : '/' ∉ source) (ht : '/' ∉ target) (hl : '/' ∉ last) (hplus : last ≠ ['+']) :
    TopicLevels.Matches '/' '+' (['/'].intercalate (topicLevels names msgId ['+'] last))
      (['/'].intercalate (topicLevels names msgId source target)) ↔ last = target := by
  rw [TopicLevels.matches_intercalate '+' (topicLevels_slash msgId (by decide) hl)
    (topicLevels_slash msgId hs ht) (List.cons_ne_nil _ _) (List.cons_ne_nil _ _)]
  simp [topicLevels, hplus]

theorem topicToMsgId_levels (s : PahoMqttConnection ι) (msgId : NamedMessageId ι)
    {source : List Char} (hs : '/' ∉ source) (target : List Char) :
    s.topicToMsgId names (['/'].intercalate (topicLevels names msgId source target)) =
      if msgId.isValid && s.hasUid names target && names.canBeEncoded source then
        (msgId,names.ofName source)
      else (⟨0,0⟩,0) := by
  have htext : ['/'].intercalate (topicLevels names msgId source target) =
      topicPrefix ++ (names.name msgId.class_ ++ '/'::(names.name msgId.method ++
        '/'::(source ++ '/'::target))) := by
    change _ = "eagi/bus/".toList ++ _
    simp [topicLevels]
  have hprefix : topicPrefix.isPrefixOf
      (['/'].intercalate (topicLevels names msgId source target)) = true := by
    rw [List.isPrefixOf_iff_prefix, htext]
    exact List.prefix_append _ _
  have hvalid : msgId.isValid = (!(names.name msgId.class_).isEmpty &&
      !(names.name msgId.method).isEmpty) := by
    by_cases hc : msgId.class_ = 0 <;> by_cases hm : msgId.method = 0 <;>
      simp [NamedMessageId.isValid, names.name_zero, names.name_eq_nil, hc, hm]
  simp only [topicToMsgId, hprefix, if_true]
  rw [htext, List.drop_left, TopicLevels.splitFirst_append (names.slash_notMem_name _)]
  simp only [TopicLevels.splitFirst_append (names.slash_notMem_name _),
    TopicLevels.splitFirst_append hs, names.canBeEncoded_name, names.ofName_name, Bool.and_true,
    hvalid]

/-- An identifier is read only from a topic that has all its levels. -/
theorem topicToMsgId_read {s : PahoMqttConnection ι} {text : List Char} (hu : s.clientUid ≠ 0)
    (h : s.topicToMsgId names text ≠ (⟨0,0⟩,0)) :
    ∃ msgId sourceId target, msgId.isValid = true ∧ s.hasUid names target = true ∧
      text = ['/'].intercalate (topicLevels names msgId (names.name sourceId) target) := by
  simp only [topicToMsgId] at h
  split_ifs at h with hprefix hread
  · obtain ⟨rest,rfl⟩ := List.isPrefixOf_iff_prefix.mp hprefix
    rw [List.drop_left] at hread
    rcases hcls : TopicLevels.splitFirst '/' rest with ⟨cls,clsTail⟩
    rcases hmth : TopicLevels.splitFirst '/' clsTail with ⟨mth,mthTail⟩
    rcases hsrc : TopicLevels.splitFirst '/' mthTail with ⟨src,dst⟩
    simp only [hcls, hmth, hsrc, Bool.and_eq_true, Bool.not_eq_true', List.isEmpty_eq_false_iff]
      at hread
    obtain ⟨⟨⟨⟨⟨hclsNe,hmthNe⟩,huid⟩,hclsOk⟩,hmthOk⟩,hsrcOk⟩ := hread
    have hdst : dst ≠ [] := by
      rintro rfl
      simp [hasUid, names.name_eq_nil, hu] at huid
    -- the tails are not empty, thus each was behind a separator
    have hmthTail := TopicLevels.eq_append_of_splitFirst hsrc hdst
    have hclsTail := TopicLevels.eq_append_of_splitFirst hmth (by simp [hmthTail])
    have hrest := TopicLevels.eq_append_of_splitFirst hcls (by simp [hclsTail])
    refine ⟨⟨names.ofName cls,names.ofName mth⟩,names.ofName src,dst,?_,huid,?_⟩
    · simp [NamedMessageId.isValid, ← names.name_eq_nil, names.name_ofName hclsOk,
        names.name_ofName hmthOk, hclsNe, hmthNe]
    · change "eagi/bus/".toList ++ rest = _
      simp [topicLevels, names.name_ofName hclsOk, names.name_ofName hmthOk,
        names.name_ofName hsrcOk, hrest, hclsTail, hmthTail]
  · exact absurd rfl h
  · exact absurd rfl h

theorem hasUid_targetLevel {targetId : ι} (h : Inv uid s)
    (ht : names.name targetId ≠ ['_']) :
    s.hasUid names (targetLevel names targetId) = true ↔ targetId = uid ∨ targetId = 0 := by
  rw [hasUid, Bool.or_eq_true, decide_eq_true_iff, decide_eq_true_iff, h.clientUid, targetLevel]
  split_ifs with hzero
  · simp [hzero]
  · rw [names.name_inj]
    simp [hzero, Ne.symm ht, eq_comm]

theorem topicToMsgId_topic {b : PahoMqttConnection ι} {receiver targetId : ι} (ha : Inv uid s)
    (hb : Inv receiver b) (ht : names.name targetId ≠ ['_']) (msgId : NamedMessageId ι) :
    b.topicToMsgId names (s.msgIdToTopic names msgId targetId).1 =
      if msgId.isValid = true ∧ (targetId = receiver ∨ targetId = 0) then (msgId,uid)
      else (⟨0,0⟩,0) := by
  rw [msgIdToTopic_levels ha, topicToMsgId_levels b msgId (names.slash_notMem_name uid),
    names.canBeEncoded_name, names.ofName_name, Bool.and_true]
  simp only [Bool.and_eq_true, hasUid_targetLevel hb ht]

theorem exists_subscrTopic_matches {b : PahoMqttConnection ι} {receiver targetId : ι}
    (ha : Inv uid s) (hb : Inv receiver b) (ht : names.name targetId ≠ ['_'])
    (msgId : NamedMessageId ι) :
    (∃ broadcast, TopicLevels.Matches '/' '+'
        (b.msgIdToSubscrTopic names msgId receiver broadcast).1
        (s.msgIdToTopic names msgId targetId).1) ↔
      targetId = receiver ∨ targetId = 0 := by
  have hlast (broadcast : Bool) : TopicLevels.Matches '/' '+'
      (b.msgIdToSubscrTopic names msgId receiver broadcast).1
      (s.msgIdToTopic names msgId targetId).1 ↔
      (if broadcast then ['_'] else names.name receiver) = targetLevel names targetId := by
    rw [msgIdToSubscrTopic_levels hb, msgIdToTopic_levels ha]
    refine subscrTopic_matches msgId (names.slash_notMem_name uid)
      (targetLevel_slash targetId) ?_ ?_
    · cases broadcast
      · exact names.slash_notMem_name receiver
      · rw [if_pos rfl]
        decide
    · cases broadcast
      · exact names.name_ne_plus receiver
      · rw [if_pos rfl]
        decide
  rw [Bool.exists_bool, hlast, hlast, or_comm, ← hasUid_targetLevel hb ht, hasUid,
    Bool.or_eq_true, decide_eq_true_iff, decide_eq_true_iff, hb.clientUid]
  rfl

/-- A message is received by those that its topic is for, the sender apart. -/
theorem messageArrived_topic {backend : SerializerBackend} {b : PahoMqttConnection ι}
    {receiver targetId : ι} (ha : Inv uid s) (hb : Inv receiver b)
    (ht : names.name targetId ≠ ['_']) {msgId : NamedMessageId ι} (hvalid : msgId.isValid = true)
    {data : Block} {entryId : MessageId} {message : MessageView}
    (hdata : deserializeMessage backend {} data = some (entryId,message)) (now : ℕ) :
    b.messageArrived names backend (s.msgIdToTopic names msgId targetId).1 data now =
      if (targetId = receiver ∨ targetId = 0) ∧ receiver ≠ uid then
        { b with received := { b.received with
            next := b.received.next.pushIf (some ⟨entryId,message,now⟩) } }
      else b := by
  rw [messageArrived, topicToMsgId_topic ha hb ht, hb.clientUid]
  by_cases hfor : targetId = receiver ∨ targetId = 0
  · rw [if_pos ⟨hvalid,hfor⟩]
    simp [hvalid, hfor, hdata]
  · rw [if_neg (fun h => hfor h.2), if_neg (fun h => hfor h.1)]
    simp [NamedMessageId.isValid]

/-- A topic matches what a connection subscribes to if it is for that connection
or for all; such topics, and no other texts, are read as they have been written,
unless a part of the message identifier is empty. -/
theorem topic_read_by_target (names : IdentifierNames ι) (msgId : NamedMessageId ι)
    (sender receiver target : ι) (sent subscribed : List (TopicCall ι))
    (ht : names.name target ≠ ['_']) :
    let a := after names sender sent
    let b := after names receiver subscribed
    let topic := (a.msgIdToTopic names msgId target).1
    ((∃ broadcast, TopicLevels.Matches '/' '+'
        (b.msgIdToSubscrTopic names msgId receiver broadcast).1 topic) ↔
      target = receiver ∨ target = 0) ∧
    (b.topicToMsgId names topic =
      if msgId.isValid = true ∧ (target = receiver ∨ target = 0) then (msgId,sender)
      else (⟨0,0⟩,0)) ∧
    (receiver ≠ 0 → ∀ text, b.topicToMsgId names text ≠ (⟨0,0⟩,0) →
      ∃ msgId source target, msgId.isValid = true ∧ (target = receiver ∨ target = 0) ∧
        ∀ calls, text = ((after names source calls).msgIdToTopic names msgId target).1) := by
  intro a b topic
  have ha : Inv sender a := after_inv sent
  have hb : Inv receiver b := after_inv subscribed
  refine ⟨exists_subscrTopic_matches ha hb ht msgId,topicToMsgId_topic ha hb ht msgId,?_⟩
  intro hr text htext
  obtain ⟨msgId,source,last,hvalid,huid,rfl⟩ := topicToMsgId_read (hb.clientUid ▸ hr) htext
  rw [hasUid, Bool.or_eq_true, decide_eq_true_iff, decide_eq_true_iff, hb.clientUid] at huid
  obtain rfl | rfl := huid
  · refine ⟨msgId,source,0,hvalid,Or.inr rfl,fun calls => ?_⟩
    rw [msgIdToTopic_levels (after_inv calls), targetLevel, if_pos rfl]
  · refine ⟨msgId,source,receiver,hvalid,Or.inl rfl,fun calls => ?_⟩
    rw [msgIdToTopic_levels (after_inv calls), targetLevel, if_neg hr]

/-! ### Named samples -/

abbrev SampleId : Type := ClientUid MqttBridges.sampleCharset

instance : Zero SampleId := ⟨[],by decide⟩

def sampleNames : IdentifierNames SampleId where
  toIdentifierCharset := MqttBridges.sampleCharset
  name := Subtype.val
  ofName text := if h : MqttBridges.sampleCharset.canBeEncoded text = true then ⟨text,h⟩ else 0
  canBeEncoded_name id := id.property
  name_ofName h := by rw [dif_pos h]
  ofName_name id := dif_pos id.property
  name_zero := rfl
  plus_notMem h hmem := by
    simp only [MqttBridges.sampleCharset, Bool.and_eq_true, List.all_eq_true] at h
    exact absurd (h.2 '+' hmem) (by decide)

def sampleName (text : List Char) : SampleId := sampleNames.ofName text

/-- What is sent to one connection is read by it and by no other one. -/
theorem topic_read_by_other : (sampleNames.name (sampleName ['b']) ≠ ['_']) ∧
    let msgId : NamedMessageId SampleId := ⟨sampleName ['m'],sampleName ['n']⟩
    let a := after sampleNames (sampleName ['a']) [.topic msgId 0]
    let b := after sampleNames (sampleName ['b']) []
    let c := after sampleNames (sampleName ['c']) []
    let topic := (a.msgIdToTopic sampleNames msgId (sampleName ['b'])).1
    b.topicToMsgId sampleNames topic = (msgId,sampleName ['a']) ∧
    c.topicToMsgId sampleNames topic = (⟨0,0⟩,0) := by
  have ht : sampleNames.name (sampleName ['b']) ≠ ['_'] := by decide
  have hread (receiver : SampleId) (subscribed : List (TopicCall SampleId)) :=
    (topic_read_by_target sampleNames ⟨sampleName ['m'],sampleName ['n']⟩ (sampleName ['a'])
      receiver (sampleName ['b']) [.topic ⟨sampleName ['m'],sampleName ['n']⟩ 0] subscribed
      ht).2.1
  exact ⟨ht,(hread (sampleName ['b']) _).trans (if_pos (by decide)),
    (hread (sampleName ['c']) _).trans (if_neg (by decide))⟩

/-- A message whose class has no name is not read by the one it is sent to. -/
theorem unnamed_class_not_read : ¬ ∀ (msgId : NamedMessageId SampleId)
    (sender receiver target : SampleId), sampleNames.name sender ≠ ['_'] →
    sampleNames.name receiver ≠ ['_'] → sampleNames.name target ≠ ['_'] →
    target = receiver ∨ target = 0 →
    (after sampleNames receiver []).topicToMsgId sampleNames
      ((after sampleNames sender []).msgIdToTopic sampleNames msgId target).1 = (msgId,sender) := by
  intro h
  have hread := h ⟨0,sampleName ['n']⟩ (sampleName ['a']) (sampleName ['b']) (sampleName ['b'])
    (by decide) (by decide) (by decide) (Or.inl rfl)
  exact absurd hread (by decide)

end PahoMqttConnection

end MsgBus
