import Mathlib.Data.Finset.Lattice.Fold
import MsgBus.Lib.RoundRobin
import MsgBus.ResendRequests
import MsgBus.SampleSerializer

/-!
# Sending all that is to do

The sending loop takes turns between the outgoing blobs. A turn of a blob with
sound parts to do either prepares its source or sends from its last part; both
leave less to do. With handlers that accept what they are offered every byte
that was to do has then been sent.
-/

set_option autoImplicit false

namespace MsgBus.OutgoingDrain

open IntervalList BlobManipulator ReceivedFragment ResendRequests

variable {ς τ : Type} [SourceBlobIo ς]

/-- A steady source that is prepared in the end and gives something at each
place before its end. The rank bounds how often it is still to be prepared. -/
structure ReadySource (ς : Type) [SourceBlobIo ς] (rank : ς → ℕ) : Prop extends
    SteadySource ς where
  succeeds : ∀ io : ς, (SourceBlobIo.prepare io).1.hasFailed = false
  prepareRank : ∀ io : ς, rank (SourceBlobIo.prepare io).2 ≤ rank io
  working : ∀ io : ς, (SourceBlobIo.prepare io).1.isWorking = true →
    rank (SourceBlobIo.prepare io).2 < rank io
  fetchRank : ∀ (io : ς) offs size, rank (SourceBlobIo.fetchFragment io offs size).2 ≤ rank io
  fetchSome : ∀ (io : ς) offs size, offs < SourceBlobIo.totalSize io → 0 < size →
    (SourceBlobIo.fetchFragment io offs size).1 ≠ []

def bytesTodo (parts : List Part) : ℕ := (parts.map (fun part => part.2-part.1)).sum

/-- What is left to do of a blob: its bytes, and all of them again for each
time that its source is still to be prepared. -/
def weight (rank : ς → ℕ) (p : PendingBlob ς) : ℕ :=
  rank p.io*(p.info.totalSize+1)+bytesTodo p.todoParts

/-- The message has room for some bytes of each place of the blob. -/
def Room (ser : BlobSerializer) (maxMessageSize : ℕ) (p : PendingBlob ς) : Prop :=
  ∀ bgn < p.info.totalSize,
    (ser.header.encode (fragmentHeader p bgn)).length < messageSize p maxMessageSize

/-- The accepted attempt carries this byte, read from the source of the blob. -/
def Carries (ser : BlobSerializer) (fragmentMsgId : MessageId) (p : PendingBlob ς) (x : ℕ)
    (a : SendAttempt) : Prop :=
  a.accepted = true ∧ a.msgId = fragmentMsgId ∧ ∃ io bgn size, Later p.io io ∧
    a.message = fragmentMessage ser p bgn (SourceBlobIo.fetchFragment io bgn size).1 ∧
    bgn ≤ x ∧ x < bgn+(SourceBlobIo.fetchFragment io bgn size).1.length

section Blob

variable {rank : ς → ℕ} {ser : BlobSerializer} {fragmentMsgId : MessageId}
  {doSend : SendHandler} {maxMessageSize : ℕ} {p q r : PendingBlob ς}
  {log log' before : List SendAttempt}

theorem bytesTodo_le {parts : List Part} {bgn total : ℕ} (h : Intervals parts)
    (hin : ∀ part ∈ parts, part.2 ≤ total) (hbgn : ∀ part ∈ parts, bgn ≤ part.1)
    (hle : bgn ≤ total) : bgn+bytesTodo parts ≤ total := by
  induction parts generalizing bgn with
  | nil => exact hle
  | cons part parts ih =>
    have hlt := h.1 part (by simp)
    have hfirst := hbgn part (by simp)
    obtain ⟨hsep,hrest⟩ := List.pairwise_cons.mp h.2
    have hi := ih ⟨fun d hd => h.1 d (by simp [hd]),hrest⟩ (fun d hd => hin d (by simp [hd]))
      (fun d hd => (hsep d hd).le) (hin part (by simp))
    rw [bytesTodo, List.map_cons, List.sum_cons, ← bytesTodo]
    omega

theorem sound_bytes (h : Sound p) : bytesTodo p.todoParts ≤ p.info.totalSize := by
  have hb := bytesTodo_le h.intervals h.inside (fun part _ => Nat.zero_le part.1) (Nat.zero_le _)
  omega

theorem bytesTodo_append (front : List Part) (last : Part) :
    bytesTodo (front ++ [last]) = bytesTodo front+(last.2-last.1) := by
  simp [bytesTodo]

/-- A turn with room gets to the last part. -/
theorem room_sends (rules : ReadySource ς rank) (h : Sound p) (hroom : Room ser maxMessageSize p)
    {part : Part} (hpart : part ∈ p.todoParts) : Sends ser maxMessageSize p part.1 := by
  have hlt := h.intervals.1 part hpart
  have hin := h.inside part hpart
  have hfits := hroom part.1 (by omega)
  have hsize := h.size
  refine ⟨hfits.le,rules.fetchSome _ _ _ ?_ (by omega)⟩
  rw [rules.prepareSize]
  omega

/-- With room a turn leaves less to do, unless nothing is to do. -/
theorem visited_weight (rules : ReadySource ς rank) (h : Sound p)
    (hroom : Room ser maxMessageSize p) (hsame : SameBlob p q)
    (hv : Visited ser fragmentMsgId doSend maxMessageSize p q log log') :
    (p.todoParts = [] → q.todoParts = []) ∧
      (p.todoParts ≠ [] → weight rank q < weight rank p) := by
  have hq := visited_sound rules.toSteadySource h hsame hv
  have hbytes := sound_bytes hq
  rw [hsame.info] at hbytes
  cases hv with
  | failed hprep htodo =>
    rw [rules.succeeds] at hprep
    cases hprep
  | preparing hprep hio htodo hlog =>
    refine ⟨fun hnil => by rw [htodo, hnil, PendingBlob.setBackEnd],fun _ => ?_⟩
    have hrank := rules.working p.io hprep
    rw [← hio] at hrank
    have hmul : (rank q.io+1)*(p.info.totalSize+1) ≤ rank p.io*(p.info.totalSize+1) :=
      Nat.mul_le_mul_right _ hrank
    rw [Nat.add_one_mul] at hmul
    rw [weight, weight, hsame.info]
    omega
  | idle hio htodo hlog hwhy =>
    refine ⟨fun hnil => htodo.trans hnil,fun hne => ?_⟩
    have hlast := List.getLast?_eq_some_getLast hne
    exact absurd (room_sends rules h hroom (List.getLast_mem hne)) (hwhy _ hlast)
  | sent front bgn fin hlast hsends hio htodo hlog =>
    refine ⟨fun hnil => by simp [hnil] at hlast,fun _ => ?_⟩
    have hrank : rank q.io ≤ rank p.io := by
      rw [hio]
      exact (rules.fetchRank _ _ _).trans (rules.prepareRank _)
    have hmul : rank q.io*(p.info.totalSize+1) ≤ rank p.io*(p.info.totalSize+1) :=
      Nat.mul_le_mul_right _ hrank
    have hlt : bgn < fin := h.intervals.1 (bgn,fin) (by simp [hlast])
    have hpos := List.length_pos_of_ne_nil hsends.2
    rw [weight, weight, hsame.info, htodo, hlast, bytesTodo_append]
    split_ifs with hend
    · rw [List.append_nil]
      dsimp only
      omega
    · rw [bytesTodo_append]
      dsimp only
      omega

/-- The blob as the calls have left it: the same one, its parts sound, and
what was to do is still to do or was sent. -/
structure Tracks (ser : BlobSerializer) (fragmentMsgId : MessageId) (p q : PendingBlob ς)
    (log : List SendAttempt) : Prop where
  same : SameBlob p q
  sound : Sound q
  sent : ∀ x ∈ covered p.todoParts, x ∈ covered q.todoParts ∨
    ∃ a ∈ log, Carries ser fragmentMsgId p x a

theorem tracks_mono (h : Tracks ser fragmentMsgId p q log) (hlog : ∀ a ∈ log, a ∈ log') :
    Tracks ser fragmentMsgId p q log' :=
  ⟨h.same,h.sound,fun x hx => (h.sent x hx).imp_right fun ⟨a,ha,hcar⟩ => ⟨a,hlog a ha,hcar⟩⟩

theorem visited_log (hv : Visited ser fragmentMsgId doSend maxMessageSize p q log log')
    (hfailed : (SourceBlobIo.prepare p.io).1.hasFailed = false) :
    ∀ a ∈ before ++ log, a ∈ before ++ log' := by
  have hmore : log <+: log' := by
    cases hv with
    | failed hprep htodo =>
      rw [hfailed] at hprep
      cases hprep
    | preparing hprep hio htodo hlog =>
      obtain ⟨more,rfl⟩ := hlog
      exact List.prefix_append log more
    | idle hio htodo hlog hwhy => rw [hlog]
    | sent front bgn fin hlast hsends hio htodo hlog =>
      rw [hlog]
      exact List.prefix_append log _
  exact fun a ha => ((List.prefix_append_right_inj before).mpr hmore).mem ha

/-- With an accepting handler a byte that was to do before a turn is to do
after it or was sent in it. -/
theorem visited_sent (rules : ReadySource ς rank)
    (hacc : ∀ log msgId message, doSend log msgId message = true) (h : Sound p)
    (hv : Visited ser fragmentMsgId doSend maxMessageSize p q log log') :
    ∀ x ∈ covered p.todoParts, x ∈ covered q.todoParts ∨
      ∃ a ∈ log', Carries ser fragmentMsgId p x a := by
  intro x hx
  cases hv with
  | failed hprep htodo =>
    rw [rules.succeeds] at hprep
    cases hprep
  | preparing hprep hio htodo hlog =>
    rcases List.eq_nil_or_concat p.todoParts with hnil | ⟨front,⟨bgn,fin⟩,hlast⟩
    · simp [hnil] at hx
    · rw [List.concat_eq_append] at hlast
      have hin : fin ≤ p.info.totalSize := h.inside (bgn,fin) (by simp [hlast])
      rw [htodo, hlast, PendingBlob.setBackEnd_append]
      rw [hlast] at hx
      simp only [covered_append, covered_cons, covered_nil, Set.union_empty] at hx ⊢
      exact Or.inl (hx.imp_right fun hx => ⟨hx.1,hx.2.trans_le hin⟩)
  | idle hio htodo hlog hwhy =>
    rw [htodo]
    exact Or.inl hx
  | sent front bgn fin hlast hsends hio htodo hlog =>
    by_cases hcut : bgn ≤ x ∧ x < bgn+(fetched ser maxMessageSize p bgn).1.length
    · rw [hlog, offer]
      exact Or.inr ⟨_,List.mem_append_right log (List.mem_singleton.mpr rfl),hacc _ _ _,rfl,
        _,bgn,_,Later.refl.prepared,rfl,hcut⟩
    · rw [htodo]
      rw [hlast] at hx
      refine Or.inl ?_
      simp only [covered_append, covered_cons, covered_nil, Set.union_empty, Set.mem_union,
        Set.mem_Ico] at hx ⊢
      split_ifs with hend
      · exact hx.imp_right fun hx => absurd hx (by omega)
      · refine hx.imp_right fun hx => ?_
        rw [covered_cons, covered_nil, Set.union_empty]
        exact ⟨by omega,hx.2⟩

theorem SameBlob.carries (h : SameBlob p q) {x : ℕ} {a : SendAttempt}
    (hcar : Carries ser fragmentMsgId q x a) : Carries ser fragmentMsgId p x a := by
  obtain ⟨hacc,hmsg,io,bgn,size,hlater,hmessage,hx⟩ := hcar
  exact ⟨hacc,hmsg,io,bgn,size,h.later.trans hlater,hmessage.trans (h.fragmentMessage ser _ _),hx⟩

/-- A turn with an accepting handler. -/
theorem visited_tracks (rules : ReadySource ς rank)
    (hacc : ∀ log msgId message, doSend log msgId message = true)
    (h : Tracks ser fragmentMsgId p q (before ++ log)) (hsame : SameBlob q r)
    (hv : Visited ser fragmentMsgId doSend maxMessageSize q r log log') :
    Tracks ser fragmentMsgId p r (before ++ log') := by
  have hmore : ∀ a ∈ before ++ log, a ∈ before ++ log' := visited_log hv (rules.succeeds q.io)
  refine ⟨h.same.trans hsame,visited_sound rules.toSteadySource h.sound hsame hv,?_⟩
  intro x hx
  rcases (tracks_mono h hmore).sent x hx with htodo | hsent
  · exact (visited_sent rules hacc h.sound hv x htodo).imp_right fun ⟨a,ha,hcar⟩ =>
      ⟨a,List.mem_append_right _ ha,SameBlob.carries h.same hcar⟩
  · exact Or.inr hsent

theorem SameBlob.room (h : SameBlob p q) (hroom : Room ser maxMessageSize p) :
    Room ser maxMessageSize q := by
  intro bgn hbgn
  rw [h.info] at hbgn
  rw [h.fragmentHeader, messageSize, h.info]
  exact hroom bgn hbgn

end Blob

/-! ## Calls -/

structure Call where
  clk : Clock
  doSend : SendHandler
  maxMessageSize : ℕ
  maxMessages : ℕ

/-- The handler accepts what it is offered, the call takes at least one turn,
and the messages have room. -/
structure Call.Useful (ser : BlobSerializer) (m : BlobManipulator ς τ) (c : Call) : Prop where
  accepts : ∀ log msgId message, c.doSend log msgId message = true
  turns : 0 < c.maxMessages
  room : ∀ p ∈ m.outgoing, Room ser c.maxMessageSize p

/-- The manipulator and what was offered after so many calls. -/
def afterCalls (ser : BlobSerializer) (m : BlobManipulator ς τ) (calls : ℕ → Call) :
    ℕ → BlobManipulator ς τ × List SendAttempt
  | 0 => (m,[])
  | n+1 =>
    let t := afterCalls ser m calls n
    let c := calls n
    let r := t.1.processOutgoing ser c.clk c.doSend c.maxMessageSize c.maxMessages
    (r.1,t.2 ++ r.2)

/-- What the calls keep, seen from the manipulator before the first one. -/
structure Draining (ser : BlobSerializer) (m₀ m : BlobManipulator ς τ) (log : List SendAttempt) :
    Prop where
  fragmentMsgId : m.fragmentMsgId = m₀.fragmentMsgId
  length : m.outgoing.length = m₀.outgoing.length
  tracks : ∀ (i : ℕ) p, m₀.outgoing[i]? = some p →
    ∃ q, m.outgoing[i]? = some q ∧ Tracks ser m₀.fragmentMsgId p q log

/-- Nothing of this blob is to do, or what is takes fewer turns than this. -/
def LeftAt (rank : ς → ℕ) (m : BlobManipulator ς τ) (i n : ℕ) : Prop :=
  ∀ q, m.outgoing[i]? = some q → q.todoParts = [] ∨
    RoundRobin.left m.outgoing.length m.outgoingIndex i (weight rank q) < n

section Loop

variable {rank : ς → ℕ} {ser : BlobSerializer} {m₀ m : BlobManipulator ς τ} {c : Call}
  {log log' before : List SendAttempt}

theorem loop_succ (n : ℕ) : processOutgoingLoop ser c.clk c.doSend c.maxMessageSize (n+1) m log =
    processOutgoingLoop ser c.clk c.doSend c.maxMessageSize n
      (processOutgoingLoop ser c.clk c.doSend c.maxMessageSize 1 m log).1
      (processOutgoingLoop ser c.clk c.doSend c.maxMessageSize 1 m log).2 := by
  simp only [processOutgoingLoop]
  split <;> rfl

variable (ser c log) in
/-- One turn of the loop. -/
theorem turn_eq {i : ℕ} {q : PendingBlob ς} (hi : m.outgoingIndex%m.outgoing.length = i)
    (hq : m.outgoing[i]? = some q) :
    ∃ m' : BlobManipulator ς τ, m'.fragmentMsgId = m.fragmentMsgId ∧
      let r := m'.processOne ser c.clk c.doSend c.maxMessageSize q log
      processOutgoingLoop ser c.clk c.doSend c.maxMessageSize 1 m log =
        ({ m with outgoingIndex := m.outgoingIndex+1, outgoing := m.outgoing.set i r.1 },r.2) := by
  refine ⟨{ m with outgoingIndex := m.outgoingIndex+1 },rfl,?_⟩
  subst hi
  simp only [processOutgoingLoop, hq]

theorem turn_none (h : m.outgoing[m.outgoingIndex%m.outgoing.length]? = none) :
    processOutgoingLoop ser c.clk c.doSend c.maxMessageSize 1 m log =
      ({ m with outgoingIndex := m.outgoingIndex+1 },log) := by
  simp only [processOutgoingLoop, h]

omit [SourceBlobIo ς] in
theorem eq_nil_of_turn (h : m.outgoing[m.outgoingIndex%m.outgoing.length]? = none) :
    m.outgoing = [] := by
  have hle := List.getElem?_eq_none_iff.mp h
  by_contra hne
  have hpos := List.length_pos_of_ne_nil hne
  have hlt := Nat.mod_lt m.outgoingIndex hpos
  omega

/-- A turn touches the blob of its index only, so that the others are tracked
as before. -/
theorem Draining.set {i : ℕ} {q r : PendingBlob ς} (h : Draining ser m₀ m log)
    (hget : m.outgoing[i]? = some q) (hlogs : ∀ a ∈ log, a ∈ log')
    (hr : ∀ p, Tracks ser m₀.fragmentMsgId p q log → Tracks ser m₀.fragmentMsgId p r log') :
    Draining ser m₀
      { m with outgoingIndex := m.outgoingIndex+1, outgoing := m.outgoing.set i r } log' := by
  have hlt : i < m.outgoing.length := (List.getElem?_eq_some_iff.mp hget).1
  refine ⟨h.fragmentMsgId,by simpa using h.length,fun j p hp => ?_⟩
  obtain ⟨s,hs,htracks⟩ := h.tracks j p hp
  by_cases hj : j = i
  · rw [hj, hget] at hs
    obtain rfl := Option.some.inj hs
    rw [hj]
    exact ⟨r,List.getElem?_set_self hlt,hr p htracks⟩
  · exact ⟨s,(List.getElem?_set_ne (Ne.symm hj)).trans hs,tracks_mono htracks hlogs⟩

omit [SourceBlobIo ς] in
/-- The blob of the turn gets lighter, and the turn of each other one comes
nearer. -/
theorem LeftAt.set {i j n : ℕ} {q r : PendingBlob ς} (h : LeftAt rank m j (n+1))
    (hi : m.outgoingIndex%m.outgoing.length = i) (hget : m.outgoing[i]? = some q)
    (hdone : q.todoParts = [] → r.todoParts = [])
    (hless : q.todoParts ≠ [] → weight rank r < weight rank q) :
    LeftAt rank { m with outgoingIndex := m.outgoingIndex+1, outgoing := m.outgoing.set i r }
      j n := by
  have hlt : i < m.outgoing.length := (List.getElem?_eq_some_iff.mp hget).1
  intro r' hr'
  dsimp only at hr' ⊢
  rw [List.length_set]
  by_cases hj : j = i
  · subst hj
    rw [List.getElem?_set_self hlt] at hr'
    obtain rfl := Option.some.inj hr'
    by_cases hnil : q.todoParts = []
    · exact Or.inl (hdone hnil)
    · have hn := (h q hget).resolve_left hnil
      exact Or.inr ((RoundRobin.left_visit hlt (hless hnil)).trans_le (Nat.lt_succ_iff.mp hn))
  · rw [List.getElem?_set_ne (Ne.symm hj)] at hr'
    have hjlt : j < m.outgoing.length := (List.getElem?_eq_some_iff.mp hr').1
    exact (h r' hr').imp_right fun hn =>
      (RoundRobin.left_skip hjlt (hi ▸ Ne.symm hj) _).trans_le (Nat.lt_succ_iff.mp hn)

/-- A turn of a useful call brings each blob one turn nearer to its end. -/
theorem turn_draining (rules : ReadySource ς rank) (hu : c.Useful ser m₀)
    (h : Draining ser m₀ m (before ++ log)) :
    let t := processOutgoingLoop ser c.clk c.doSend c.maxMessageSize 1 m log
    Draining ser m₀ t.1 (before ++ t.2) ∧ ∀ i n, LeftAt rank m i (n+1) → LeftAt rank t.1 i n := by
  cases hget : m.outgoing[m.outgoingIndex%m.outgoing.length]? with
  | none =>
    rw [turn_none hget]
    refine ⟨⟨h.fragmentMsgId,h.length,h.tracks⟩,fun i n _ q hq => ?_⟩
    simp [eq_nil_of_turn hget] at hq
  | some q =>
    obtain ⟨i,hi⟩ : ∃ i, m.outgoingIndex%m.outgoing.length = i := ⟨_,rfl⟩
    rw [hi] at hget
    have hlt : i < m.outgoing.length := (List.getElem?_eq_some_iff.mp hget).1
    obtain ⟨m',hid,heq⟩ := turn_eq ser c log hi hget
    obtain ⟨r,hr,htracks⟩ := h.tracks i _ (List.getElem?_eq_getElem (h.length ▸ hlt))
    obtain rfl := Option.some.inj (hr.symm.trans hget)
    have hroom := SameBlob.room htracks.same (hu.room _ (List.getElem_mem (h.length ▸ hlt)))
    obtain ⟨hsame,hv⟩ := processOne_visited rules.toSteadySource htracks.sound m' ser c.clk
      c.doSend c.maxMessageSize log
    rw [hid, h.fragmentMsgId] at hv
    obtain ⟨hdone,hless⟩ := visited_weight rules htracks.sound hroom hsame hv
    rw [heq]
    constructor
    · exact h.set hget (visited_log hv (rules.succeeds r.io)) fun p hp =>
        visited_tracks rules hu.accepts hp hsame hv
    · exact fun j n hleft => hleft.set hi hget hdone hless

omit [SourceBlobIo ς] in
theorem LeftAt.mono {i n n' : ℕ} (h : LeftAt rank m i n) (hle : n ≤ n') : LeftAt rank m i n' :=
  fun q hq => (h q hq).imp_right fun hn => hn.trans_le hle

theorem turns_draining (rules : ReadySource ς rank) (hu : c.Useful ser m₀) (k : ℕ)
    (h : Draining ser m₀ m (before ++ log)) :
    let t := processOutgoingLoop ser c.clk c.doSend c.maxMessageSize k m log
    Draining ser m₀ t.1 (before ++ t.2) ∧
      ∀ i n, LeftAt rank m i (n+k) → LeftAt rank t.1 i n := by
  induction k generalizing m log with
  | zero => exact ⟨h,fun i n hn => hn⟩
  | succ k ih =>
    obtain ⟨hturn,hleft⟩ := turn_draining rules hu h
    obtain ⟨hrest,hlefts⟩ := ih hturn
    rw [loop_succ]
    exact ⟨hrest,fun i n hn => hlefts i n (hleft i (n+k) hn)⟩

/-- A useful call takes at least one turn, if there is a blob. -/
theorem call_draining (rules : ReadySource ς rank) (hu : c.Useful ser m₀)
    (h : Draining ser m₀ m before) :
    let r := m.processOutgoing ser c.clk c.doSend c.maxMessageSize c.maxMessages
    Draining ser m₀ r.1 (before ++ r.2) ∧ ∀ i n, LeftAt rank m i (n+1) → LeftAt rank r.1 i n := by
  have hstart : Draining ser m₀ m (before ++ []) := by rwa [List.append_nil]
  obtain ⟨hend,hleft⟩ := turns_draining rules hu (min c.maxMessages m.outgoing.length) hstart
  refine ⟨hend,fun i n hn => ?_⟩
  by_cases hnil : m.outgoing = []
  · rw [processOutgoing, hnil, List.length_nil, Nat.min_zero]
    intro q hq
    simp [processOutgoingLoop, hnil] at hq
  · have hpos := List.length_pos_of_ne_nil hnil
    have hturns := hu.turns
    exact hleft i n (hn.mono (by omega))

theorem calls_draining (rules : ReadySource ς rank) {calls : ℕ → Call}
    (hu : ∀ n, (calls n).Useful ser m) (hs : ∀ p ∈ m.outgoing, Sound p) (n : ℕ) :
    Draining ser m (afterCalls ser m calls n).1 (afterCalls ser m calls n).2 ∧
      ∀ i k, LeftAt rank m i (k+n) → LeftAt rank (afterCalls ser m calls n).1 i k := by
  induction n with
  | zero =>
    refine ⟨⟨rfl,rfl,fun i p hp => ⟨p,hp,?_⟩⟩,fun i k hk => hk⟩
    exact ⟨⟨rfl,rfl,rfl,rfl,Later.refl⟩,hs p (List.mem_of_getElem? hp),fun x hx => Or.inl hx⟩
  | succ n ih =>
    obtain ⟨hd,hleft⟩ := ih
    obtain ⟨hd',hleft'⟩ := call_draining rules (hu n) hd
    exact ⟨hd',fun i k hk => hleft' i k (hleft i (k+1) (by rwa [Nat.add_right_comm]))⟩

omit [SourceBlobIo ς] in
theorem exists_bound (rank : ς → ℕ) (m : BlobManipulator ς τ) : ∃ n, ∀ i, LeftAt rank m i n := by
  let left (i : ℕ) : ℕ := ((m.outgoing[i]?).map
    (fun q => RoundRobin.left m.outgoing.length m.outgoingIndex i (weight rank q))).getD 0
  refine ⟨(Finset.range m.outgoing.length).sup left+1,fun i q hq => Or.inr ?_⟩
  have hlt : i < m.outgoing.length := (List.getElem?_eq_some_iff.mp hq).1
  have hmax : left i ≤ (Finset.range m.outgoing.length).sup left :=
    Finset.le_sup (Finset.mem_range.mpr hlt)
  have hleft : left i = RoundRobin.left m.outgoing.length m.outgoingIndex i (weight rank q) := by
    simp only [left, hq, Option.map_some, Option.getD_some]
  rw [← hleft]
  exact Nat.lt_succ_of_le hmax

/-- From sound parts useful calls send every byte that is to do. -/
theorem calls_send_all (rules : ReadySource ς rank) {calls : ℕ → Call}
    (hu : ∀ n, (calls n).Useful ser m) (hs : ∀ p ∈ m.outgoing, Sound p) :
    ∃ n, ∀ (i : ℕ) p, m.outgoing[i]? = some p →
      ∃ q, (afterCalls ser m calls n).1.outgoing[i]? = some q ∧ SameBlob p q ∧
        q.sentEverything = true ∧ ∀ x ∈ covered p.todoParts,
          ∃ a ∈ (afterCalls ser m calls n).2, Carries ser m.fragmentMsgId p x a := by
  obtain ⟨n,hn⟩ := exists_bound rank m
  obtain ⟨hd,hleft⟩ := calls_draining rules hu hs n
  refine ⟨n,fun i p hp => ?_⟩
  obtain ⟨q,hq,htracks⟩ := hd.tracks i p hp
  have hzero : LeftAt rank (afterCalls ser m calls n).1 i 0 :=
    hleft i 0 (by simpa using hn i)
  have hnil : q.todoParts = [] := (hzero q hq).resolve_right (Nat.not_lt_zero _)
  refine ⟨q,hq,htracks.same,(sentEverything_iff rules.toSteadySource htracks.sound).mpr hnil,
    fun x hx => ?_⟩
  refine (htracks.sent x hx).resolve_left ?_
  simp [hnil]

end Loop

/-- In every run whose resend requests can be cast and stay inside the blob
they are for, the parts to do of every outgoing blob are sound. A further
request then does what it should exactly if it stays inside the blob, and from
there calls with accepting handlers send every byte that is to do. -/
theorem parts_sound {ς τ : Type} [SourceBlobIo ς] [TargetBlobIo τ] (rules : SteadySource ς)
    (ser : BlobSerializer)
    (fragmentMsgId resendMsgId prepareMsgId : MessageId) (maxBlobSize : ℕ)
    (es : List (Event ς τ))
    (hes : StepRun.Steps (step ser) (Accepts ser)
      (start fragmentMsgId resendMsgId prepareMsgId maxBlobSize) es) :
    let m := StepRun.run (step ser)
      (start fragmentMsgId resendMsgId prepareMsgId maxBlobSize : BlobManipulator ς τ) es
    (∀ p ∈ m.outgoing, Intervals p.todoParts ∧
      covered p.todoParts ⊆ Set.Ico 0 p.info.totalSize) ∧
    (∀ message overflowed, Castable ser message →
      (RequestDone ser m message (step ser m (.processResend message overflowed)).outgoing ↔
        Contained ser m message)) ∧
    ∀ rank : ς → ℕ, ReadySource ς rank → ∀ calls : ℕ → Call, (∀ n, (calls n).Useful ser m) →
      ∃ n, ∀ (i : ℕ) p, m.outgoing[i]? = some p →
        ∃ q, (afterCalls ser m calls n).1.outgoing[i]? = some q ∧ SameBlob p q ∧
          q.sentEverything = true ∧ ∀ x ∈ covered p.todoParts,
            ∃ a ∈ (afterCalls ser m calls n).2, Carries ser m.fragmentMsgId p x a := by
  intro m
  have hkeep : ∀ (m : BlobManipulator ς τ) e, (∀ p ∈ m.outgoing, Sound p) → Accepts ser m e →
      ∀ p ∈ (step ser m e).outgoing, Sound p :=
    fun _ e h hok => sound_step rules e h hok
  have hs : ∀ p ∈ m.outgoing, Sound p :=
    StepRun.run_invariant hkeep (by simp [start]) hes
  refine ⟨fun p hp => ?_,fun message overflowed hcast => ?_,
    fun rank ready calls hu => ?_⟩
  · obtain ⟨hi,hin,-⟩ := hs p hp
    exact ⟨hi,fun x hx => ⟨Nat.zero_le x,(inside_iff hi.1).mp hin x hx⟩⟩
  · rw [step_castable hcast]
    exact requestDone_iff hs message
  · exact calls_send_all ready hu hs

/-! ## Buffers -/

theorem buffer_ready : ReadySource BufferBlobIo (fun _ => 0) where
  atEod _ _ := rfl
  prepareSize _ := rfl
  fetchSize _ _ _ := rfl
  succeeds _ := rfl
  prepareRank _ := le_rfl
  working _ h := Bool.noConfusion h
  fetchRank _ _ _ := le_rfl
  fetchSome io offs size hoffs hsize := by
    change offs < io.buf.length at hoffs
    apply List.ne_nil_of_length_pos
    change 0 < ((io.buf.drop offs).take size).length
    rw [List.length_take, List.length_drop]
    omega

/-- A blob that is not sent yet and whose last part to do begins behind its
end. -/
structure Stuck (parts : List Part) (bgn fin : ℕ) (p : PendingBlob BufferBlobIo) : Prop where
  todo : p.todoParts = parts ++ [(bgn,fin)]
  behind : p.io.buf.length ≤ bgn
  unsent : p.sentEverything = false

/-- A call sends nothing of such blobs. -/
theorem stuck_call (ser : BlobSerializer) (c : Call) {m : BlobManipulator BufferBlobIo τ}
    {parts : List Part} {bgn fin : ℕ} (h : ∀ p ∈ m.outgoing, Stuck parts bgn fin p) :
    let r := m.processOutgoing ser c.clk c.doSend c.maxMessageSize c.maxMessages
    (∀ p ∈ r.1.outgoing, Stuck parts bgn fin p) ∧ r.2 = [] := by
  refine ManipulatorRules.processOutgoingLoop_rule (fun p _ => Stuck parts bgn fin p)
    (fun log => log = []) ser c.clk c.doSend c.maxMessageSize m ?_ _ m [] rfl rfl rfl h
  intro m' p log _ _ hlog hp
  rcases ManipulatorRules.processOne_cases m' ser c.clk c.doSend c.maxMessageSize p log with
    ⟨q,he,hq⟩ | ⟨front,bgn',fin',q,htodo,hcut,-⟩
  · rw [he, hq]
    exact ⟨⟨hp.todo,hp.behind,hp.unsent⟩,hlog,fun r hr => hr⟩
  · obtain ⟨-,hlast⟩ := List.append_inj' (hp.todo.symm.trans htodo) rfl
    obtain ⟨⟩ := List.singleton_inj.mp hlast
    rw [ManipulatorRules.cut, List.drop_eq_nil_of_le hp.behind, List.take_nil] at hcut
    exact absurd rfl hcut

theorem stuck_calls (ser : BlobSerializer) {m : BlobManipulator BufferBlobIo τ}
    {parts : List Part} {bgn fin : ℕ} (h : ∀ p ∈ m.outgoing, Stuck parts bgn fin p)
    (calls : ℕ → Call) (n : ℕ) :
    (∀ p ∈ (afterCalls ser m calls n).1.outgoing, Stuck parts bgn fin p) ∧
      (afterCalls ser m calls n).2 = [] ∧
      (afterCalls ser m calls n).1.outgoing.length = m.outgoing.length := by
  induction n with
  | zero => exact ⟨h,rfl,rfl⟩
  | succ n ih =>
    obtain ⟨hstuck,hlog,hlength⟩ := ih
    obtain ⟨hstuck',hlog'⟩ := stuck_call ser (calls n) hstuck
    obtain ⟨-,-,-,-,-,-,hlength'⟩ := ManipulatorRules.processOutgoingLoop_frame ser (calls n).clk
      (calls n).doSend (calls n).maxMessageSize
      (min (calls n).maxMessages (afterCalls ser m calls n).1.outgoing.length)
      (afterCalls ser m calls n).1 []
    refine ⟨hstuck',?_,hlength'.trans hlength⟩
    rw [afterCalls]
    dsimp only
    rw [hlog, hlog', List.append_nil]

/-- A blob of three bytes and a request for some of it. -/
def requested (bgn fin : ℕ) : List (Event BufferBlobIo BufferBlobIo) :=
  [.pushOutgoing sampleClock (msgbusId .ping) 5 6 0 (.ofBlock [1,2,3]) 1000 0 .normal,
    .processResend { data := sampleSerializer.resend.encode (1,bgn,fin) } []]

def afterRequest (bgn fin : ℕ) : BlobManipulator BufferBlobIo BufferBlobIo :=
  StepRun.run (step sampleSerializer)
    (start (msgbusId .blobFrgmnt) (msgbusId .blobResend) (msgbusId .blobPrpare) 100)
    (requested bgn fin)

theorem requested_request (bgn fin : ℕ) : request sampleSerializer
    { data := sampleSerializer.resend.encode (1,bgn,fin) } = some (1,bgn,fin) := by
  have h := sampleSerializer.resend.decode_encode (1,bgn,fin) []
  rw [List.append_nil] at h
  exact congrArg (Option.map Prod.fst) h

theorem parts_sound_requested :
    (∀ p ∈ (afterRequest 1 2).outgoing, Intervals p.todoParts ∧
      covered p.todoParts ⊆ Set.Ico 0 p.info.totalSize) ∧
    ∃ n, ∀ (i : ℕ) p, (afterRequest 1 2).outgoing[i]? = some p →
      ∃ q, (afterCalls sampleSerializer (afterRequest 1 2)
        (fun _ => ⟨sampleClock,fun _ _ _ => true,1000,5⟩) n).1.outgoing[i]? = some q ∧
          q.sentEverything = true := by
  have hes : StepRun.Steps (step sampleSerializer) (Accepts sampleSerializer)
      (start (msgbusId .blobFrgmnt) (msgbusId .blobResend) (msgbusId .blobPrpare) 100)
      (requested 1 2) := by
    refine ⟨trivial,⟨fun sourceBlobId bgn fin hreq => ?_,
      fun sourceBlobId bgn fin hreq pos p _ hp => ?_⟩,trivial⟩
    · rw [requested_request] at hreq
      obtain ⟨⟩ := Option.some.inj hreq
      decide
    · rw [requested_request] at hreq
      obtain ⟨⟩ := Option.some.inj hreq
      have hsize : ∀ p ∈ (StepRun.run (step sampleSerializer)
          (start (msgbusId .blobFrgmnt) (msgbusId .blobResend) (msgbusId .blobPrpare) 100)
          ((requested 1 2).take 1)).outgoing, 2 ≤ p.info.totalSize := by decide
      exact Or.inr (hsize p (List.mem_of_getElem? hp))
  obtain ⟨hin,-,hsend⟩ := parts_sound buffer_ready.toSteadySource sampleSerializer
    (msgbusId .blobFrgmnt) (msgbusId .blobResend) (msgbusId .blobPrpare) 100 (requested 1 2) hes
  have hroom : ∀ p ∈ (afterRequest 1 2).outgoing, ∀ bgn < p.info.totalSize,
      (sampleSerializer.header.encode (fragmentHeader p bgn)).length < messageSize p 1000 := by
    decide
  obtain ⟨n,hn⟩ := hsend (fun _ => 0) buffer_ready (fun _ => ⟨sampleClock,fun _ _ _ => true,1000,5⟩)
    (fun _ => ⟨fun _ _ _ => rfl,by decide,hroom⟩)
  refine ⟨hin,n,fun i p hp => ?_⟩
  obtain ⟨q,hq,-,hsent,-⟩ := hn i p hp
  exact ⟨q,hq,hsent⟩

/-- A request for bytes behind the end leaves a last part from which nothing
can be sent, and nothing is ever sent of the blob. -/
theorem request_beyond_stalls :
    (afterRequest 5 9).outgoing.map (fun p => (p.info.totalSize,p.todoParts)) =
      [(3,[(0,3),(5,9)])] ∧
    ∀ (calls : ℕ → Call) n,
      (afterCalls sampleSerializer (afterRequest 5 9) calls n).2 = [] ∧
      ∃ q ∈ (afterCalls sampleSerializer (afterRequest 5 9) calls n).1.outgoing,
        q.sentEverything = false := by
  refine ⟨by decide,fun calls n => ?_⟩
  have hparts : ∀ p ∈ (afterRequest 5 9).outgoing, p.todoParts = [(0,3)] ++ [(5,9)] ∧
      p.io.buf.length ≤ 5 ∧ p.sentEverything = false := by decide
  obtain ⟨hstuck,hlog,hlength⟩ := stuck_calls sampleSerializer
    (fun p hp => ⟨(hparts p hp).1,(hparts p hp).2.1,(hparts p hp).2.2⟩) calls n
  have hone : (afterRequest 5 9).outgoing.length = 1 := by decide
  obtain ⟨q,hq⟩ := List.length_eq_one_iff.mp (hlength.trans hone)
  exact ⟨hlog,q,by simp [hq],(hstuck q (by simp [hq])).unsent⟩

end MsgBus.OutgoingDrain
