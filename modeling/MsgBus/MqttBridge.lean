import MsgBus.Lib.StepRun
import MsgBus.Lib.TopicLevels
import MsgBus.PendingBlob
import MsgBus.MessageStorage
import MsgBus.SampleSerializer

/-!
# Bridges over an MQTT broker

Every bridge publishes under a topic that ends with the unique identifier of
its client and subscribes to all such topics, its own included. What comes
back from the broker is recognised by its end. The broker may deliver what was
published to any subscriber, at any time and more than once.
-/

set_option autoImplicit false

namespace MsgBus

/-- Which texts can be encoded as an identifier. -/
structure IdentifierCharset where
  canBeEncoded : List Char → Bool
  slash_notMem : ∀ {text}, canBeEncoded text = true → '/' ∉ text

abbrev ClientUid (charset : IdentifierCharset) := { uid // charset.canBeEncoded uid = true }

structure MqttPublication where
  topic : List Char
  payload : Block
  deriving DecidableEq, Repr

structure MqttBridgeState (charset : IdentifierCharset) where
  clientUid : ClientUid charset
  created : Bool := true
  connected : Bool := true
  subscribed : Bool := true
  received : DoubleBuffer MessageStorage := ⟨{},{}⟩

namespace MqttBridgeState

variable {charset : IdentifierCharset}

def getClientUid (login : Option (List Char)) (randomIdentifier : ClientUid charset) :
    ClientUid charset :=
  match login with
  | some uid => if h : charset.canBeEncoded uid = true then ⟨uid,h⟩ else randomIdentifier
  | none => randomIdentifier

def ofLocator (login : Option (List Char)) (randomIdentifier : ClientUid charset) :
    MqttBridgeState charset :=
  { clientUid := getClientUid login randomIdentifier }

def topicPrefix : List Char := "eagi/bus/brdg/".toList

def pattern : List Char := topicPrefix ++ ['+']

def topic (s : MqttBridgeState charset) : List Char := topicPrefix ++ s.clientUid.val

def topicOk (s : MqttBridgeState charset) (topic : List Char) : Bool :=
  !s.clientUid.val.isSuffixOf topic

def isUsable (s : MqttBridgeState charset) : Bool := s.created && s.connected && s.subscribed

def connectionLost (s : MqttBridgeState charset) : MqttBridgeState charset :=
  { s with connected := false }

/-- The client library tells whether it has published the content. -/
def doSend (s : MqttBridgeState charset) (content : Block) (success : Bool) :
    Option MqttPublication :=
  if s.isUsable && success then some ⟨s.topic,content⟩ else none

section Serialized

variable (backend : SerializerBackend)

def push (s : MqttBridgeState charset) (msgId : MessageId) (message : MessageView)
    (success : Bool) : Option MqttPublication := do
  let sink ← serializeMessage backend msgId message ⟨4*1024,[]⟩
  s.doSend sink.done success

def messageArrived (s : MqttBridgeState charset) (topic : List Char) (data : Block) (now : ℕ) :
    MqttBridgeState charset :=
  if s.topicOk topic then
    match deserializeMessage backend {} data with
    | some (msgId,message) =>
      { s with received := { s.received with
          next := s.received.next.pushIf (some ⟨msgId,message,now⟩) } }
    | none => s
  else s

end Serialized

def fetchMessages {σ : Type} (s : MqttBridgeState charset) (now : ℕ) (handler : FetchHandler σ)
    (st : σ) : Bool × MqttBridgeState charset × σ :=
  let received := s.received.swap
  let (fetchedSome,current,st) := received.current.fetchAll now handler st
  (fetchedSome,{ s with received := { received with current } },st)

theorem topicPrefix_append (level : List Char) : topicPrefix ++ level =
    ['/'].intercalate ["eagi".toList,"bus".toList,"brdg".toList,level] := by
  change "eagi/bus/brdg/".toList ++ level = _
  simp

theorem topicPrefix_levels {level : List Char} (h : '/' ∉ level) :
    ∀ l ∈ ["eagi".toList,"bus".toList,"brdg".toList,level], '/' ∉ l := by
  simp [h]

/-- What was published with the topic of a bridge matches what each subscribes to. -/
theorem pattern_matches (s : MqttBridgeState charset) :
    TopicLevels.Matches '/' '+' pattern s.topic := by
  have hslash := charset.slash_notMem s.clientUid.property
  change TopicLevels.Matches '/' '+' (topicPrefix ++ ['+']) (topicPrefix ++ s.clientUid.val)
  rw [topicPrefix_append, topicPrefix_append]
  refine (TopicLevels.matches_intercalate '+' (topicPrefix_levels (by decide))
    (topicPrefix_levels hslash) (List.cons_ne_nil _ _) (List.cons_ne_nil _ _)).mpr ?_
  simp

/-- A topic is refused by the bridges whose identifier it ends with. -/
theorem topicOk_iff (s t : MqttBridgeState charset) :
    t.topicOk s.topic = true ↔ ¬ t.clientUid.val <:+ s.clientUid.val := by
  have hslash := charset.slash_notMem t.clientUid.property
  have htopic : s.topic = "eagi/bus/brdg".toList ++ '/'::s.clientUid.val := by
    change "eagi/bus/brdg/".toList ++ s.clientUid.val = _
    simp
  rw [topicOk, Bool.not_eq_true', Bool.eq_false_iff, ne_eq, List.isSuffixOf_iff_suffix, htopic,
    TopicLevels.suffix_append_cons_iff hslash]

section Published

variable {backend : SerializerBackend} {s : MqttBridgeState charset} {msgId : MessageId}
  {message : MessageView} {success : Bool} {publication : MqttPublication}

theorem push_topic (h : s.push backend msgId message success = some publication) :
    publication.topic = s.topic := by
  obtain ⟨sink,-,hsend⟩ := Option.bind_eq_some_iff.mp h
  simp only [doSend] at hsend
  split_ifs at hsend
  cases hsend
  rfl

theorem push_payload (h : s.push backend msgId message success = some publication) :
    deserializeMessage backend {} publication.payload = some (msgId,message) := by
  obtain ⟨sink,hsink,hsend⟩ := Option.bind_eq_some_iff.mp h
  simp only [doSend] at hsend
  split_ifs at hsend
  cases hsend
  exact deserializeMessage_done backend {} hsink

end Published

end MqttBridgeState

/-! ## Runs -/

/-- What has been published, with its origin. -/
structure MqttPublished (ι : Type) where
  sender : ι
  msgId : MessageId
  message : MessageView
  publication : MqttPublication

structure MqttBridges (charset : IdentifierCharset) (ι : Type) where
  bridges : ι → MqttBridgeState charset
  published : List (MqttPublished ι) := []

inductive MqttBridgeEvent (ι : Type) where
  | push (bridge : ι) (msgId : MessageId) (message : MessageView) (success : Bool)
  | deliver (publication : ℕ) (bridge : ι) (now : ℕ)
  | fetchMessages (bridge : ι) (now : ℕ) (handler : FetchHandler Unit)
  | connectionLost (bridge : ι)

namespace MqttBridges

open MqttBridgeState (pattern pattern_matches topicOk_iff push_topic push_payload)

variable {charset : IdentifierCharset} {ι : Type}

/-- A publication that is to be delivered, if there is one. -/
def Delivers (s : MqttBridges charset ι) (e : MqttBridgeEvent ι) (published : MqttPublished ι)
    (bridge : ι) (now : ℕ) : Prop :=
  ∃ publication, e = .deliver publication bridge now ∧ s.published[publication]? = some published

variable [DecidableEq ι]

def updateBridge (s : MqttBridges charset ι) (bridge : ι) (state : MqttBridgeState charset) :
    MqttBridges charset ι :=
  { s with bridges := Function.update s.bridges bridge state }

variable (backend : SerializerBackend)

/-- The broker delivers what matches the pattern of a subscriber. -/
def step (s : MqttBridges charset ι) : MqttBridgeEvent ι → MqttBridges charset ι
  | .push bridge msgId message success =>
    match (s.bridges bridge).push backend msgId message success with
    | some publication =>
      { s with published := s.published ++ [⟨bridge,msgId,message,publication⟩] }
    | none => s
  | .deliver publication bridge now =>
    match s.published[publication]? with
    | some published =>
      if TopicLevels.Matches '/' '+' pattern published.publication.topic then
        s.updateBridge bridge ((s.bridges bridge).messageArrived backend
          published.publication.topic published.publication.payload now)
      else s
    | none => s
  | .fetchMessages bridge now handler =>
    s.updateBridge bridge ((s.bridges bridge).fetchMessages now handler ()).2.1
  | .connectionLost bridge => s.updateBridge bridge (s.bridges bridge).connectionLost

/-- What a bridge with another identifier has published is received as it was
pushed, and nothing that the bridge has published itself. -/
structure Heard (s : MqttBridges charset ι) (e : MqttBridgeEvent ι) : Prop where
  others : ∀ published bridge now, s.Delivers e published bridge now →
    (s.bridges published.sender).clientUid ≠ (s.bridges bridge).clientUid →
    ((step backend s e).bridges bridge).received.next =
      (s.bridges bridge).received.next.pushIf (some ⟨published.msgId,published.message,now⟩)
  own : ∀ published bridge now, s.Delivers e published bridge now → published.sender = bridge →
    (step backend s e).bridges bridge = s.bridges bridge

/-- No other identifier that ends with that of the bridge is delivered to it. -/
def Distinguished (s : MqttBridges charset ι) (e : MqttBridgeEvent ι) : Prop :=
  ∀ published bridge now, s.Delivers e published bridge now →
    (s.bridges published.sender).clientUid ≠ (s.bridges bridge).clientUid →
    ¬ (s.bridges bridge).clientUid.val <:+ (s.bridges published.sender).clientUid.val

/-- Publications have the topic of their sender and the message in their payload. -/
def Published (s : MqttBridges charset ι) : Prop :=
  ∀ published ∈ s.published,
    published.publication.topic = (s.bridges published.sender).topic ∧
    deserializeMessage backend {} published.publication.payload =
      some (published.msgId,published.message)

variable {backend} {s : MqttBridges charset ι} {e : MqttBridgeEvent ι}

theorem updateBridge_clientUid {bridge : ι} {state : MqttBridgeState charset}
    (h : state.clientUid = (s.bridges bridge).clientUid) (i : ι) :
    ((s.updateBridge bridge state).bridges i).clientUid = (s.bridges i).clientUid := by
  by_cases hi : i = bridge
  · subst hi
    simp [updateBridge, h]
  · simp [updateBridge, hi]

theorem step_clientUid (i : ι) :
    ((step backend s e).bridges i).clientUid = (s.bridges i).clientUid := by
  cases e with
  | push bridge msgId message success =>
    simp only [step]
    split <;> rfl
  | deliver publication bridge now =>
    simp only [step]
    split
    · split_ifs
      · refine updateBridge_clientUid ?_ i
        simp only [MqttBridgeState.messageArrived]
        split_ifs
        · split <;> rfl
        · rfl
      · rfl
    · rfl
  | fetchMessages bridge now handler =>
    refine updateBridge_clientUid ?_ i
    rfl
  | connectionLost bridge =>
    refine updateBridge_clientUid ?_ i
    rfl

variable (backend s e) in
theorem step_published : (step backend s e).published = s.published ∨
    ∃ bridge msgId message success publication,
      (s.bridges bridge).push backend msgId message success = some publication ∧
      (step backend s e).published = s.published ++ [⟨bridge,msgId,message,publication⟩] := by
  cases e with
  | push bridge msgId message success =>
    simp only [step]
    split
    · exact Or.inr ⟨bridge,msgId,message,success,_,‹_›,rfl⟩
    · exact Or.inl rfl
  | deliver publication bridge now =>
    simp only [step]
    split
    · split_ifs <;> exact Or.inl rfl
    · exact Or.inl rfl
  | fetchMessages bridge now handler => exact Or.inl rfl
  | connectionLost bridge => exact Or.inl rfl

theorem Published.step (h : s.Published backend) : (step backend s e).Published backend := by
  have htopic (i : ι) : ((MqttBridges.step backend s e).bridges i).topic = (s.bridges i).topic := by
    simp only [MqttBridgeState.topic, step_clientUid]
  intro published hmem
  rw [htopic]
  obtain hsame | ⟨bridge,msgId,message,success,publication,hpush,hadded⟩ :=
    step_published backend s e
  · exact h published (hsame ▸ hmem)
  · rw [hadded, List.mem_append, List.mem_singleton] at hmem
    obtain hmem | rfl := hmem
    · exact h published hmem
    · exact ⟨push_topic hpush,push_payload hpush⟩

/-- A delivery is decided by the identifiers of the two bridges. -/
theorem step_delivers {published : MqttPublished ι} {bridge : ι} {now : ℕ}
    (h : s.Published backend) (hd : s.Delivers e published bridge now) :
    (step backend s e).bridges bridge =
      if (s.bridges bridge).clientUid.val <:+ (s.bridges published.sender).clientUid.val then
        s.bridges bridge
      else { s.bridges bridge with received := { (s.bridges bridge).received with
        next := (s.bridges bridge).received.next.pushIf
          (some ⟨published.msgId,published.message,now⟩) } } := by
  obtain ⟨publication,rfl,hp⟩ := hd
  obtain ⟨htopic,hpayload⟩ := h published (List.mem_of_getElem? hp)
  have hmatches : TopicLevels.Matches '/' '+' pattern published.publication.topic :=
    htopic ▸ pattern_matches _
  simp only [step, hp, if_pos hmatches, updateBridge, Function.update_self,
    MqttBridgeState.messageArrived, hpayload]
  by_cases hend : (s.bridges bridge).clientUid.val <:+ (s.bridges published.sender).clientUid.val
  · have hno : ¬ (s.bridges bridge).topicOk published.publication.topic = true := by
      rw [htopic, topicOk_iff, not_not]
      exact hend
    rw [if_neg hno, if_pos hend]
  · have hok : (s.bridges bridge).topicOk published.publication.topic = true := by
      rw [htopic, topicOk_iff]
      exact hend
    rw [if_pos hok, if_neg hend]

theorem heard_iff_distinguished (h : s.Published backend) :
    Heard backend s e ↔ s.Distinguished e := by
  constructor
  · intro hheard published bridge now hd hne hend
    have hnext := hheard.others published bridge now hd hne
    rw [step_delivers h hd, if_pos hend] at hnext
    have hlength := congrArg (fun storage => storage.messages.length) hnext
    simp [MessageStorage.pushIf] at hlength
  · intro hdist
    constructor
    · intro published bridge now hd hne
      rw [step_delivers h hd, if_neg (hdist published bridge now hd hne)]
    · intro published bridge now hd hsender
      rw [step_delivers h hd, if_pos (hsender ▸ List.suffix_refl _)]

/-- The bridges hear each other, and not themselves, in just those runs in which
none is delivered a message of another one whose identifier ends with its own. -/
theorem bridges_heard_iff (backend : SerializerBackend) (bridges : ι → MqttBridgeState charset)
    (es : List (MqttBridgeEvent ι)) :
    StepRun.Steps (step backend) (Heard backend) { bridges } es ↔
      StepRun.Steps (step backend) Distinguished { bridges } es := by
  have hiff (s : MqttBridges charset ι) (e : MqttBridgeEvent ι) (h : s.Published backend) :
      Heard backend s e ↔ s.Distinguished e := heard_iff_distinguished h
  exact StepRun.steps_iff hiff (fun s e h _ => h.step) (fun published hmem => by cases hmem)

/-! ### Two bridges -/

def sampleCharset : IdentifierCharset where
  canBeEncoded text := text.length ≤ 10 && text.all fun c => c.isAlphanum || c = '_'
  slash_notMem h hmem := by
    rw [Bool.and_eq_true, List.all_eq_true] at h
    exact absurd (h.2 '/' hmem) (by decide)

def sampleBridges (second : Bool) : MqttBridgeState sampleCharset :=
  .ofLocator (some (if second then "2".toList else "12".toList)) ⟨"k3".toList,by decide⟩

/-- The bridge `2` takes what the bridge `12` has published for its own. -/
theorem suffix_not_heard : ¬ ∀ es : List (MqttBridgeEvent Bool),
    StepRun.Steps (step sampleBackend) (Heard sampleBackend) { bridges := sampleBridges } es := by
  intro h
  have hheard := (h [.push false (msgbusId .ping) { data := [7] } true,.deliver 0 true 0]).2.1
  have hnext := hheard.others ⟨false,msgbusId .ping,{ data := [7] },⟨"eagi/bus/brdg/12".toList,
    [0,0,0,11,0,0,0,0,0,0,0,0,0,0,2,0,7]⟩⟩ true 0 ⟨0,rfl,by rfl⟩ (by decide)
  exact absurd hnext (by decide)

end MqttBridges

end MsgBus
