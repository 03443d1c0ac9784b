import Mathlib.Data.List.Forall2
import Mathlib.Data.Prod.Lex
import MsgBus.Lib.Alternation
import MsgBus.Lib.OrderedMap
import MsgBus.Lib.StepRun
import MsgBus.Types

/-!
# Announced streams

A relay keeps the streams that providers announce, and announce again from time
to time, until they retract them. Listeners get a signal when a stream has been
announced or retracted. Nothing puts a consumer into the set that the messages
would be forwarded to.
-/

set_option autoImplicit false

namespace MsgBus

/-- The kind and the encoding are identifiers; the value of an empty one is zero. -/
structure StreamInfo where
  id : ℕ := 0
  kind : ℕ := 0
  encoding : ℕ := 0
  description : String := ""
  deriving DecidableEq, Repr

namespace StreamInfo

def Same (a b : StreamInfo) : Prop :=
  a.kind = b.kind ∧ a.encoding = b.encoding ∧ a.description = b.description

instance (a b : StreamInfo) : Decidable (a.Same b) := inferInstanceAs (Decidable (_ ∧ _))

/-- The parameter says whether the identifier is looked at, too. -/
def Shows (exact : Bool) (a b : StreamInfo) : Prop := a.Same b ∧ (exact = true → a.id = b.id)

end StreamInfo

abbrev StreamKey := EndpointId ×ₗ ℕ

def streamKey (providerId : EndpointId) (id : ℕ) : StreamKey := toLex (providerId,id)

structure StreamStatus where
  info : StreamInfo := {}
  streamTimeout : RestartTimeout
  forwardSet : List EndpointId := []
  deriving DecidableEq, Repr

structure StreamSignal where
  announced : Bool
  providerId : EndpointId
  info : StreamInfo
  verified : ℕ
  deriving DecidableEq, Repr

/-- The signals that are emitted and the messages that are posted, with their
method. -/
structure StreamOutput where
  signals : List StreamSignal := []
  posted : List (String × MessageView) := []
  deriving DecidableEq, Repr

/-- How the contents of the messages are read. -/
structure StreamCodec where
  info : MessageView → Option StreamInfo
  id : MessageView → Option ℕ

structure StreamRelay where
  streams : OrderedMap StreamKey StreamStatus := OrderedMap.empty

namespace StreamRelay

def forwardStream (method : String) (announced : Bool) (providerId : EndpointId)
    (stream : StreamStatus) (verified : ℕ) (message : MessageView) : StreamOutput where
  signals := [⟨announced,providerId,stream.info,verified⟩]
  posted := stream.forwardSet.map fun consumerId => (method,{ message with targetId := consumerId })

def forwardStreamAnnounce : EndpointId → StreamStatus → ℕ → MessageView → StreamOutput :=
  forwardStream "appeared" true

def forwardStreamRetract : EndpointId → StreamStatus → ℕ → MessageView → StreamOutput :=
  forwardStream "disapeared" false

def hasChanged (stream : StreamStatus) (info : StreamInfo) : Bool :=
  (stream.info.kind ≠ 0 || info.kind ≠ 0) || (stream.info.encoding ≠ 0 || info.encoding ≠ 0) ||
    stream.info.description ≠ info.description

/-- The stream of the key, or a new one, and whether it has been added. -/
def findStream (s : StreamRelay) (key : StreamKey) (now : ℕ) : StreamStatus × Bool :=
  match s.streams.find? key with
  | some stream => (stream,false)
  | none => ({ streamTimeout := ⟨5000,now+5000⟩ },true)

variable (codec : StreamCodec)

def handleStreamAnnounce (s : StreamRelay) (message : MessageView) (verified now : ℕ) :
    StreamRelay × StreamOutput :=
  match codec.info message with
  | none => (s,{})
  | some info =>
    let key := streamKey message.sourceId info.id
    let (stream,added) := s.findStream key now
    let changed := hasChanged stream info
    let updated := if changed then { stream with info } else stream
    let retracted := if changed && !added then
        forwardStreamRetract message.sourceId stream verified message
      else {}
    let announced := if added || changed then
        forwardStreamAnnounce message.sourceId updated verified message
      else {}
    (⟨s.streams.assign key { updated with streamTimeout := updated.streamTimeout.reset now }⟩,
      ⟨retracted.signals ++ announced.signals,retracted.posted ++ announced.posted⟩)

def handleStreamRetract (s : StreamRelay) (message : MessageView) (verified : ℕ) :
    StreamRelay × StreamOutput :=
  match codec.id message with
  | none => (s,{})
  | some id =>
    let key := streamKey message.sourceId id
    match s.streams.find? key with
    | some stream =>
      (⟨s.streams.erase key⟩,forwardStreamRetract message.sourceId stream verified message)
    | none => (s,{})

variable {codec} {s : StreamRelay} {message : MessageView} {info : StreamInfo}

/-- An announcement counts as no change only if there is neither kind nor
encoding, before and after. -/
theorem hasChanged_iff {stream : StreamStatus} {old : StreamInfo} (h : stream.info.Same old) :
    hasChanged stream info = true ↔ ¬ (info.Same old ∧ info.kind = 0 ∧ info.encoding = 0) := by
  obtain ⟨hkind,hencoding,hdescription⟩ := h
  simp only [hasChanged, hkind, hencoding, hdescription, StreamInfo.Same, Bool.or_eq_true,
    decide_eq_true_iff]
  grind

theorem hasChanged_new {stream : StreamStatus} (h : stream.info = {}) :
    hasChanged stream info = true ↔ ¬ StreamInfo.Same {} info := by
  simp only [hasChanged, h, StreamInfo.Same, Bool.or_eq_true, decide_eq_true_iff]
  grind

/-- A new stream is shown as it was announced, or as the default one. -/
theorem announce_new (hinfo : codec.info message = some info)
    (hnone : s.streams.find? (streamKey message.sourceId info.id) = none) (verified now : ℕ) :
    s.handleStreamAnnounce codec message verified now =
      (⟨s.streams.assign (streamKey message.sourceId info.id)
        ⟨if StreamInfo.Same {} info then {} else info,⟨5000,now+5000⟩,[]⟩⟩,
        ⟨[⟨true,message.sourceId,if StreamInfo.Same {} info then {} else info,verified⟩],[]⟩) := by
  have hchanged : hasChanged ({ streamTimeout := ⟨5000,now+5000⟩ } : StreamStatus) info = true ↔
      ¬ StreamInfo.Same {} info := hasChanged_new rfl
  simp only [handleStreamAnnounce, hinfo, findStream, hnone]
  by_cases hsame : StreamInfo.Same {} info
  · rw [Bool.eq_false_iff.mpr (fun h => hchanged.mp h hsame), if_pos hsame]
    rfl
  · rw [hchanged.mpr hsame, if_neg hsame]
    rfl

theorem announce_old {stream : StreamStatus} (hinfo : codec.info message = some info)
    (hsome : s.streams.find? (streamKey message.sourceId info.id) = some stream)
    (hforward : stream.forwardSet = []) (verified now : ℕ) :
    s.handleStreamAnnounce codec message verified now =
      if hasChanged stream info then
        (⟨s.streams.assign (streamKey message.sourceId info.id)
          ⟨info,stream.streamTimeout.reset now,[]⟩⟩,
          ⟨[⟨false,message.sourceId,stream.info,verified⟩,
            ⟨true,message.sourceId,info,verified⟩],[]⟩)
      else
        (⟨s.streams.assign (streamKey message.sourceId info.id)
          ⟨stream.info,stream.streamTimeout.reset now,[]⟩⟩,{}) := by
  obtain ⟨old,streamTimeout,forwardSet⟩ := stream
  obtain rfl : forwardSet = [] := hforward
  simp only [handleStreamAnnounce, hinfo, findStream, hsome]
  cases hasChanged ⟨old,streamTimeout,[]⟩ info <;> rfl

end StreamRelay

/-! ## Runs -/

inductive StreamEvent where
  | announce (message : MessageView) (verified now : ℕ)
  | retract (message : MessageView) (verified : ℕ)

/-- A relay with what was announced last under each key that has not been
retracted since, and what has been signalled for it. -/
structure StreamRun where
  relay : StreamRelay := {}
  announced : StreamKey → Option StreamInfo := fun _ => none
  reports : StreamKey → List Bool := fun _ => []

namespace StreamRun

variable (codec : StreamCodec) (exact : Bool)

def handle (s : StreamRun) : StreamEvent → StreamRelay × StreamOutput
  | .announce message verified now => s.relay.handleStreamAnnounce codec message verified now
  | .retract message verified => s.relay.handleStreamRetract codec message verified

/-- What an event is about: the key, and what is announced unless it retracts. -/
def subject : StreamEvent → Option (StreamKey × Option StreamInfo)
  | .announce message _ _ =>
    (codec.info message).map fun info => (streamKey message.sourceId info.id,some info)
  | .retract message _ => (codec.id message).map fun id => (streamKey message.sourceId id,none)

def step (s : StreamRun) (e : StreamEvent) : StreamRun :=
  let (relay,output) := s.handle codec e
  match subject codec e with
  | none => { s with relay }
  | some (key,info) =>
    { relay
      announced := Function.update s.announced key info
      reports := Function.update s.reports key
        (s.reports key ++ output.signals.map StreamSignal.announced) }

/-- The signals for what was announced before and what is announced now. -/
def expected : Option StreamInfo → Option StreamInfo → List (Bool × StreamInfo)
  | none, none => []
  | none, some info => [(true,info)]
  | some old, none => [(false,old)]
  | some old, some info => if info.Same old then [] else [(false,old),(true,info)]

def Signals (key : StreamKey) (signal : StreamSignal) (x : Bool × StreamInfo) : Prop :=
  signal.announced = x.1 ∧ signal.providerId = (ofLex key).1 ∧ signal.info.Shows exact x.2

/-- The signals of a step are those expected of it; nothing is forwarded when
there are none. -/
structure Emits (s : StreamRun) (e : StreamEvent) : Prop where
  signals : ∀ key info, subject codec e = some (key,info) →
    List.Forall₂ (Signals exact key) (s.handle codec e).2.signals (expected (s.announced key) info)
  unread : subject codec e = none → (s.handle codec e).2.signals = []
  posted : (s.handle codec e).2.signals = [] → (s.handle codec e).2.posted = []

/-- A stream announced again with the same information has no kind and no
encoding. If the identifier is looked at, then a stream that is new is not
without kind, encoding and description, or its identifier is zero. -/
def Distinct (s : StreamRun) (e : StreamEvent) : Prop :=
  ∀ key info, subject codec e = some (key,some info) →
    match s.announced key with
    | some old => info.Same old → info.kind = 0 ∧ info.encoding = 0
    | none => exact = true → StreamInfo.Same {} info → info.id = 0

def Alternating (s : StreamRun) : Prop := ∀ key, ∃ up, Alternation.Reports up (s.reports key)

/-! ### What is kept of what was announced -/

def Tracks (key : StreamKey) : Option StreamInfo → Option StreamStatus → Prop
  | none, none => True
  | some old, some stream =>
    old.id = (ofLex key).2 ∧ stream.forwardSet = [] ∧ StreamInfo.Shows exact stream.info old
  | _, _ => False

structure Inv (s : StreamRun) : Prop where
  tracks : ∀ key, Tracks exact key (s.announced key) (s.relay.streams.find? key)
  reports : ∀ key, Alternation.Reports (s.announced key).isSome (s.reports key)

theorem inv_start : Inv exact {} := ⟨fun _ => trivial,fun _ => Alternation.reports_nil⟩

variable {codec exact} {s : StreamRun} {e : StreamEvent}

theorem tracks_none {key : StreamKey} {stream : Option StreamStatus}
    (h : Tracks exact key none stream) : stream = none := by
  cases stream with
  | none => rfl
  | some stream => exact absurd h id

theorem tracks_some {key : StreamKey} {old : StreamInfo} {stream : Option StreamStatus}
    (h : Tracks exact key (some old) stream) : ∃ st, stream = some st ∧
      old.id = (ofLex key).2 ∧ st.forwardSet = [] ∧ StreamInfo.Shows exact st.info old := by
  cases stream with
  | none => exact absurd h id
  | some stream => exact ⟨stream,rfl,h⟩

theorem shows_default (info : StreamInfo) :
    StreamInfo.Shows exact (if StreamInfo.Same {} info then {} else info) info ↔
      (exact = true → StreamInfo.Same {} info → info.id = 0) := by
  split_ifs with hsame
  · simp [StreamInfo.Shows, hsame, eq_comm]
  · exact iff_of_true ⟨⟨rfl,rfl,rfl⟩,fun _ => rfl⟩ fun _ h => absurd h hsame

section Subject

variable {key : StreamKey} {info : Option StreamInfo}

theorem emits_iff (hsubject : subject codec e = some (key,info))
    (hposted : (s.handle codec e).2.posted = []) : Emits codec exact s e ↔
      List.Forall₂ (Signals exact key) (s.handle codec e).2.signals
        (expected (s.announced key) info) := by
  constructor
  · intro h
    exact h.signals key info hsubject
  · intro h
    refine ⟨?_,?_,fun _ => hposted⟩
    · intro key' info' hsubject'
      obtain ⟨rfl,rfl⟩ := Prod.mk.inj (Option.some.inj (hsubject.symm.trans hsubject'))
      exact h
    · intro hnone
      rw [hsubject] at hnone
      cases hnone

theorem distinct_iff {info : StreamInfo} (hsubject : subject codec e = some (key,some info)) :
    Distinct codec exact s e ↔
      match s.announced key with
      | some old => info.Same old → info.kind = 0 ∧ info.encoding = 0
      | none => exact = true → StreamInfo.Same {} info → info.id = 0 := by
  constructor
  · intro h
    exact h key info hsubject
  · intro h key' info' hsubject'
    obtain ⟨rfl,hinfo⟩ := Prod.mk.inj (Option.some.inj (hsubject.symm.trans hsubject'))
    obtain rfl := Option.some.inj hinfo
    exact h

/-- Only the subject of an event is touched. -/
theorem Inv.update (h : Inv exact s) (hsubject : subject codec e = some (key,info))
    (stream : Option StreamStatus)
    (hstreams : ∀ key', (s.handle codec e).1.streams.find? key' =
      if key = key' then stream else s.relay.streams.find? key')
    (htracks : Tracks exact key info stream)
    (hreports : Alternation.Reports info.isSome
      (s.reports key ++ (s.handle codec e).2.signals.map StreamSignal.announced)) :
    Inv exact (step codec s e) := by
  have hstep : step codec s e =
      { relay := (s.handle codec e).1
        announced := Function.update s.announced key info
        reports := Function.update s.reports key
          (s.reports key ++ (s.handle codec e).2.signals.map StreamSignal.announced) } := by
    rw [step, hsubject]
  rw [hstep]
  constructor
  · intro key'
    by_cases hkey : key = key'
    · subst hkey
      simpa [hstreams] using htracks
    · simpa [hstreams, hkey, Ne.symm hkey] using h.tracks key'
  · intro key'
    by_cases hkey : key = key'
    · subst hkey
      simpa using hreports
    · simpa [Ne.symm hkey] using h.reports key'

end Subject

section Announce

variable {message : MessageView} {info : StreamInfo} (verified now : ℕ)

theorem subject_announce (hinfo : codec.info message = some info) :
    subject codec (.announce message verified now) =
      some (streamKey message.sourceId info.id,some info) := by
  rw [subject, hinfo]
  rfl

theorem emits_announce (hinfo : codec.info message = some info) (h : Inv exact s) :
    Emits codec exact s (.announce message verified now) ↔
      Distinct codec exact s (.announce message verified now) := by
  have hsubject := subject_announce verified now hinfo
  have htracks := h.tracks (streamKey message.sourceId info.id)
  rw [distinct_iff hsubject]
  cases hold : s.announced (streamKey message.sourceId info.id) with
  | none =>
    rw [hold] at htracks
    have hnew := congrArg Prod.snd
      (StreamRelay.announce_new hinfo (tracks_none htracks) verified now)
    rw [emits_iff hsubject (congrArg StreamOutput.posted hnew), hold]
    simp only [handle, hnew, expected, List.forall₂_cons, List.Forall₂.nil, Signals,
      streamKey, ofLex_toLex, true_and, and_true]
    exact shows_default info
  | some old =>
    rw [hold] at htracks
    obtain ⟨stream,hstream,hid,hforward,hshows⟩ := tracks_some htracks
    have hout := congrArg Prod.snd
      (StreamRelay.announce_old hinfo hstream hforward verified now)
    have hchanged : StreamRelay.hasChanged stream info = true ↔
        ¬ (info.Same old ∧ info.kind = 0 ∧ info.encoding = 0) := StreamRelay.hasChanged_iff hshows.1
    by_cases hch : StreamRelay.hasChanged stream info = true
    · rw [if_pos hch] at hout
      rw [emits_iff hsubject (congrArg StreamOutput.posted hout), hold]
      simp only [handle, hout, expected]
      by_cases hsame : info.Same old
      · -- signalled although nothing has changed
        rw [if_pos hsame]
        exact iff_of_false (fun hsignals => by cases hsignals)
          fun hempty => hchanged.mp hch ⟨hsame,hempty hsame⟩
      · rw [if_neg hsame]
        have hnew : info.Shows exact info := ⟨⟨rfl,rfl,rfl⟩,fun _ => rfl⟩
        exact iff_of_true (.cons ⟨rfl,rfl,hshows⟩ (.cons ⟨rfl,rfl,hnew⟩ .nil))
          fun h => absurd h hsame
    · obtain ⟨hsame,hempty⟩ := not_not.mp (mt hchanged.mpr hch)
      rw [if_neg hch] at hout
      rw [emits_iff hsubject (congrArg StreamOutput.posted hout), hold]
      simp only [handle, hout, expected, if_pos hsame]
      exact iff_of_true .nil fun _ => hempty

theorem inv_announce (hinfo : codec.info message = some info) (h : Inv exact s)
    (hd : Distinct codec exact s (.announce message verified now)) :
    Inv exact (step codec s (.announce message verified now)) := by
  have hsubject := subject_announce verified now hinfo
  have htracks := h.tracks (streamKey message.sourceId info.id)
  have hreports := h.reports (streamKey message.sourceId info.id)
  rw [distinct_iff hsubject] at hd
  cases hold : s.announced (streamKey message.sourceId info.id) with
  | none =>
    rw [hold] at htracks hreports hd
    have hnew := StreamRelay.announce_new hinfo (tracks_none htracks) verified now
    refine h.update hsubject
      (some ⟨if StreamInfo.Same {} info then {} else info,⟨5000,now+5000⟩,[]⟩) (fun key' => ?_)
      ⟨rfl,rfl,(shows_default info).mpr hd⟩ ?_
    · rw [handle, hnew, OrderedMap.find?_assign]
    · rw [handle, hnew]
      exact hreports.append (show Alternation.Alternates false [true] from ⟨rfl,trivial⟩)
  | some old =>
    rw [hold] at htracks hreports hd
    obtain ⟨stream,hstream,hid,hforward,hshows⟩ := tracks_some htracks
    have hout := StreamRelay.announce_old hinfo hstream hforward verified now
    have hchanged : StreamRelay.hasChanged stream info = true ↔
        ¬ (info.Same old ∧ info.kind = 0 ∧ info.encoding = 0) := StreamRelay.hasChanged_iff hshows.1
    by_cases hch : StreamRelay.hasChanged stream info = true
    · rw [if_pos hch] at hout
      refine h.update hsubject (some ⟨info,stream.streamTimeout.reset now,[]⟩) (fun key' => ?_)
        ⟨rfl,rfl,⟨rfl,rfl,rfl⟩,fun _ => rfl⟩ ?_
      · rw [handle, hout, OrderedMap.find?_assign]
      · rw [handle, hout]
        exact hreports.append (show Alternation.Alternates true [false,true] from ⟨rfl,rfl,trivial⟩)
    · obtain ⟨⟨hkind,hencoding,hdescription⟩,-⟩ := not_not.mp (mt hchanged.mpr hch)
      rw [if_neg hch] at hout
      obtain ⟨⟨hkind',hencoding',hdescription'⟩,hexact⟩ := hshows
      refine h.update hsubject (some ⟨stream.info,stream.streamTimeout.reset now,[]⟩)
        (fun key' => ?_) ⟨rfl,rfl,⟨?_,?_,?_⟩,fun he => ?_⟩ ?_
      · rw [handle, hout, OrderedMap.find?_assign]
      · exact hkind'.trans hkind.symm
      · exact hencoding'.trans hencoding.symm
      · exact hdescription'.trans hdescription.symm
      · exact (hexact he).trans hid
      · rw [handle, hout]
        simpa using hreports

end Announce

section Retract

variable {message : MessageView} {id : ℕ} (verified : ℕ)

theorem retract_output (hid : codec.id message = some id) (h : Inv exact s) :
    Emits codec exact s (.retract message verified) ∧
      Inv exact (step codec s (.retract message verified)) := by
  have hsubject : subject codec (.retract message verified) =
      some (streamKey message.sourceId id,none) := by
    simp [subject, hid]
  have htracks := h.tracks (streamKey message.sourceId id)
  have hreports := h.reports (streamKey message.sourceId id)
  cases hold : s.announced (streamKey message.sourceId id) with
  | none =>
    rw [hold] at htracks hreports
    have hnone := tracks_none htracks
    have hout : s.handle codec (.retract message verified) = (s.relay,{}) := by
      simp only [handle, StreamRelay.handleStreamRetract, hid, hnone]
    constructor
    · rw [emits_iff hsubject (by rw [hout]), hout, hold]
      exact .nil
    · refine h.update hsubject none (fun key' => ?_) trivial ?_
      · rw [hout]
        split_ifs with hkey
        · rw [← hkey, hnone]
        · rfl
      · rw [hout]
        simpa using hreports
  | some old =>
    rw [hold] at htracks hreports
    obtain ⟨stream,hstream,-,hforward,hshows⟩ := tracks_some htracks
    have hout : s.handle codec (.retract message verified) =
        (⟨s.relay.streams.erase (streamKey message.sourceId id)⟩,
          ⟨[⟨false,message.sourceId,stream.info,verified⟩],[]⟩) := by
      simp only [handle, StreamRelay.handleStreamRetract, hid, hstream,
        StreamRelay.forwardStreamRetract, StreamRelay.forwardStream, hforward, List.map_nil]
    constructor
    · rw [emits_iff hsubject (by rw [hout]), hout, hold]
      exact .cons ⟨rfl,rfl,hshows⟩ .nil
    · refine h.update hsubject none (fun key' => ?_) trivial ?_
      · rw [hout, OrderedMap.find?_erase]
        exact if_congr eq_comm rfl rfl
      · rw [hout]
        exact hreports.append (show Alternation.Alternates true [false] from ⟨rfl,trivial⟩)

end Retract

theorem unread_output (h : Inv exact s) (hsubject : subject codec e = none) :
    Emits codec exact s e ∧ Inv exact (step codec s e) := by
  have hout : s.handle codec e = (s.relay,{}) := by
    cases e with
    | announce message verified now =>
      have hinfo : codec.info message = none := by simpa [subject] using hsubject
      simp only [handle, StreamRelay.handleStreamAnnounce, hinfo]
    | retract message verified =>
      have hid : codec.id message = none := by simpa [subject] using hsubject
      simp only [handle, StreamRelay.handleStreamRetract, hid]
  have hstep : step codec s e = s := by
    rw [step, hsubject, hout]
  refine ⟨⟨?_,fun _ => by rw [hout],fun _ => by rw [hout]⟩,hstep.symm ▸ h⟩
  intro key info hsome
  rw [hsubject] at hsome
  cases hsome

theorem emits_iff_distinct (h : Inv exact s) :
    Emits codec exact s e ↔ Distinct codec exact s e := by
  cases hsubject : subject codec e with
  | none =>
    refine iff_of_true (unread_output h hsubject).1 fun key info hsome => ?_
    rw [hsubject] at hsome
    cases hsome
  | some about =>
    cases e with
    | announce message verified now =>
      obtain ⟨info,hinfo,-⟩ := Option.map_eq_some_iff.mp hsubject
      exact emits_announce verified now hinfo h
    | retract message verified =>
      obtain ⟨id,hid,habout⟩ := Option.map_eq_some_iff.mp hsubject
      refine iff_of_true (retract_output verified hid h).1 fun key info hsome => ?_
      rw [hsubject, ← habout] at hsome
      cases hsome

theorem inv_step (h : Inv exact s) (hd : Distinct codec exact s e) :
    Inv exact (step codec s e) := by
  cases hsubject : subject codec e with
  | none => exact (unread_output h hsubject).2
  | some about =>
    cases e with
    | announce message verified now =>
      obtain ⟨info,hinfo,-⟩ := Option.map_eq_some_iff.mp hsubject
      exact inv_announce verified now hinfo h hd
    | retract message verified =>
      obtain ⟨id,hid,-⟩ := Option.map_eq_some_iff.mp hsubject
      exact (retract_output verified hid h).2

/-- The signals are those expected, and alternate for each key, in just those
runs in which streams that are announced again have changed or have neither kind
nor encoding. -/
theorem announcements_iff (codec : StreamCodec) (exact : Bool) (es : List StreamEvent) :
    (StepRun.Steps (step codec) (Emits codec exact) {} es ∧
      StepRun.Always (step codec) Alternating {} es) ↔
        StepRun.Steps (step codec) (Distinct codec exact) {} es := by
  have hiff (s : StreamRun) (e : StreamEvent) (h : Inv exact s) :
      Emits codec exact s e ↔ Distinct codec exact s e := emits_iff_distinct h
  have hkeep (s : StreamRun) (e : StreamEvent) (h : Inv exact s) (hd : Distinct codec exact s e) :
      Inv exact (step codec s e) := inv_step h hd
  rw [StepRun.steps_iff hiff hkeep (inv_start exact), and_iff_left_iff_imp]
  intro hd
  refine StepRun.always_mono (fun s (h : Inv exact s) key => ⟨_,h.reports key⟩) ?_
  exact StepRun.always_of_invariant hkeep (inv_start exact) hd

/-! ### A stream with a kind -/

def sampleStreamCodec : StreamCodec where
  info message := match message.data with
    | [id,kind,encoding] => some { id := id.toNat, kind := kind.toNat, encoding := encoding.toNat }
    | _ => none
  id message := match message.data with
    | [id] => some id.toNat
    | _ => none

/-- The same announcement is signalled each time it is made. -/
theorem repeated_signalled : ¬ ∀ es : List StreamEvent,
    StepRun.Steps (step sampleStreamCodec) (Emits sampleStreamCodec false) {} es := by
  intro h
  have hemits := (h [.announce { sourceId := 5, data := [1,2,0] } 0 0,
    .announce { sourceId := 5, data := [1,2,0] } 0 1000]).2.1
  have hsignals := hemits.signals (streamKey 5 1) (some { id := 1, kind := 2 }) rfl
  exact absurd hsignals.length_eq (by decide)

end StreamRun

end MsgBus
