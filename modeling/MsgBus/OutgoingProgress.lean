import MsgBus.MessagePacking

/-!
# What leaves the outgoing queue

A message is accepted if it fits the block without its frame and is packed if
it fits with it. Packing starts each round with an empty block, so the first
message of the window whose frame fits is always packed; a message whose frame
does not fit stays for good, and 64 of them close the window.
-/

set_option autoImplicit false

namespace MsgBus

open IndexSelect

/-- A block is stored exactly if it fits with the size in front of it. -/
structure ExactBlocks extends SizedBlocks where
  overhead : ℕ → ℕ
  overhead_pos : ∀ n, 0 < overhead n
  store_exact : ∀ data size,
    (storeDataWithSize data size).isSome = decide (overhead data.length+data.length ≤ size)

namespace ExactBlocks

variable (sized : ExactBlocks)

def fits (size : ℕ) (data : Block) : Bool := sized.overhead data.length+data.length ≤ size

theorem fits_of_store {size free : ℕ} {data : Block} (hfree : free ≤ size)
    (h : (sized.storeDataWithSize data free).isSome = true) : sized.fits size data = true := by
  rw [sized.store_exact, decide_eq_true_eq] at h
  exact decide_eq_true (h.trans hfree)

theorem store_none {size : ℕ} {data : Block} (h : sized.fits size data = false) :
    sized.storeDataWithSize data size = none := by
  have hs := sized.store_exact data size
  rw [show decide (sized.overhead data.length+data.length ≤ size) = false from h] at hs
  exact Option.isSome_eq_false_iff.mp hs |> Option.isNone_iff_eq_none.mp

/-- Only blocks that fit the whole destination are written. -/
theorem written_fits_whole {size free : ℕ} (hfree : free ≤ size) (blocks : List Block) {i : ℕ}
    (h : ((written sized.toSizedBlocks free blocks)[i]?.join).isSome = true) :
    ∃ data, blocks[i]? = some data ∧ sized.fits size data = true := by
  induction blocks generalizing free i with
  | nil => exact absurd h (by simp [written])
  | cons data blocks ih =>
    cases i with
    | zero => exact ⟨data,rfl,sized.fits_of_store hfree (by simpa [written] using h)⟩
    | succ i => exact ih ((Nat.sub_le _ _).trans hfree) (by simpa [written] using h)

/-- What does not fit leaves the destination empty for the next one. -/
theorem written_first (size : ℕ) (front : List Block) (data : Block) (back : List Block)
    (hfront : ∀ d ∈ front, sized.fits size d = false) :
    (written sized.toSizedBlocks size (front ++ data::back))[front.length]? =
      some (sized.storeDataWithSize data size) := by
  induction front with
  | nil => rfl
  | cons d front ih =>
    have hd := sized.store_none (hfront d List.mem_cons_self)
    simpa [written, hd] using ih fun d hd => hfront d (List.mem_cons_of_mem _ hd)

end ExactBlocks

namespace SerializedMessageStorage

variable (sized : ExactBlocks) (storage : SerializedMessageStorage) (dest : Block)

def fitting (size : ℕ) (entry : SerializedMessage) : Bool := sized.fits size entry.buffer

theorem packs_fitting {i : ℕ} (h : storage.packs sized.toSizedBlocks dest i = true) :
    ∃ entry, storage.messages[i]? = some entry ∧ fitting sized dest.length entry = true := by
  rw [packs_iff, frames] at h
  obtain ⟨data,hi,hdata⟩ := sized.written_fits_whole le_rfl _ h
  have hlt := (packs_inside sized.toSizedBlocks storage dest (by rw [packs_iff, frames]; exact h))
  rw [List.getElem?_take_of_lt hlt.2, List.getElem?_map, Option.map_eq_some_iff] at hi
  obtain ⟨entry,hentry,rfl⟩ := hi
  exact ⟨entry,hentry,hdata⟩

/-- The first message that fits is packed if it is in the window. -/
theorem packs_first {front back : List SerializedMessage} {entry : SerializedMessage}
    (hm : storage.messages = front ++ entry::back) (hlen : front.length < 64)
    (hfront : ∀ e ∈ front, fitting sized dest.length e = false)
    (hentry : fitting sized dest.length entry = true) :
    storage.packs sized.toSizedBlocks dest front.length = true := by
  obtain ⟨r,hr⟩ : ∃ r, 64-front.length = r+1 := ⟨63-front.length,by omega⟩
  have hfirst := sized.written_first dest.length (front.map (·.buffer)) entry.buffer
    ((back.map (·.buffer)).take r) (by simpa [fitting] using hfront)
  rw [packs_iff, frames, hm, List.map_append, List.map_cons,
    List.take_append, List.take_of_length_le (by simp; omega), List.length_map, hr,
    List.take_succ_cons]
  rw [List.length_map] at hfirst
  rw [hfirst, Option.join_some, sized.store_exact]
  exact hentry

end SerializedMessageStorage

/-! ## Rounds -/

namespace OutgoingProgress

open SerializedMessageStorage

structure Round where
  enqueued : List (ℕ × MessageId × MessageView)
  dest : Block

/-- An outgoing queue and the position of one of its messages, until that
message is packed. -/
structure Tracked where
  outgoing : ConnectionOutgoingMessages
  position : Option ℕ

variable (backend : SerializerBackend) (sized : ExactBlocks) (temp : ℕ)

def enqueueAll (outgoing : ConnectionOutgoingMessages)
    (enqueued : List (ℕ × MessageId × MessageView)) : ConnectionOutgoingMessages :=
  enqueued.foldl (fun outgoing m => (outgoing.enqueue backend m.1 m.2.1 m.2.2 temp).2) outgoing

/-- More messages are enqueued, a block is packed and the packed ones removed. -/
def Tracked.round (t : Tracked) (r : Round) : Tracked :=
  let outgoing := enqueueAll backend temp t.outgoing r.enqueued
  let packed := (outgoing.packInto sized.toSizedBlocks r.dest).1
  ⟨outgoing.cleanup packed,t.position.bind fun p =>
    if bitAt packed.bits p then none
    else some (leave (bitAt packed.bits) (outgoing.serialized.messages.take p)).length⟩

def Tracked.after (t : Tracked) (schedule : ℕ → Round) : ℕ → Tracked
  | 0 => t
  | n+1 => (Tracked.after t schedule n).round backend sized temp (schedule n)

/-- The tracked message is in the queue behind `front`. -/
def Tracked.At (t : Tracked) (front : List SerializedMessage) (entry : SerializedMessage) : Prop :=
  t.position = some front.length ∧ ∃ back, t.outgoing.serialized.messages = front ++ entry::back

theorem enqueue_messages (outgoing : ConnectionOutgoingMessages) (now : ℕ) (msgId : MessageId)
    (message : MessageView) : ∃ more,
    (outgoing.enqueue backend now msgId message temp).2.serialized.messages =
      outgoing.serialized.messages ++ more := by
  unfold ConnectionOutgoingMessages.enqueue
  split
  · exact ⟨_,push_messages _ _ _ _⟩
  · exact ⟨[],(List.append_nil _).symm⟩

theorem enqueueAll_messages (outgoing : ConnectionOutgoingMessages)
    (enqueued : List (ℕ × MessageId × MessageView)) : ∃ more,
    (enqueueAll backend temp outgoing enqueued).serialized.messages =
      outgoing.serialized.messages ++ more := by
  induction enqueued generalizing outgoing with
  | nil => exact ⟨[],(List.append_nil _).symm⟩
  | cons m enqueued ih =>
    obtain ⟨first,hfirst⟩ := enqueue_messages backend temp outgoing m.1 m.2.1 m.2.2
    obtain ⟨more,hmore⟩ := ih (outgoing.enqueue backend m.1 m.2.1 m.2.2 temp).2
    exact ⟨first ++ more,by
      rw [enqueueAll, List.foldl_cons, ← enqueueAll, hmore, hfirst, List.append_assoc]⟩

/-- What one round does to the tracked message. Either it is packed, or it
stays behind what is left in front of it; what is taken fits, and if no more
than 63 messages that do not fit stand before the first one that does, that
one is taken. -/
theorem round_cases (t : Tracked) (r : Round) {front : List SerializedMessage}
    {entry : SerializedMessage} (h : t.At front entry) : ∃ chosen : ℕ → Bool,
    (∀ i, chosen i = true → i < 64) ∧
    (∀ i e, (front ++ [entry])[i]? = some e → chosen i = true →
      fitting sized r.dest.length e = true) ∧
    (∀ early e late, front ++ [entry] = early ++ e::late → early.length < 64 →
      (∀ d ∈ early, fitting sized r.dest.length d = false) →
      fitting sized r.dest.length e = true → chosen early.length = true) ∧
    if chosen front.length then (t.round backend sized temp r).position = none
    else (t.round backend sized temp r).At (leave chosen front) entry := by
  obtain ⟨hpos,back,hm⟩ := h
  obtain ⟨more,hmore⟩ := enqueueAll_messages backend temp t.outgoing r.enqueued
  rw [hm, List.append_assoc, List.cons_append] at hmore
  set storage := (enqueueAll backend temp t.outgoing r.enqueued).serialized with hs
  refine ⟨storage.packs sized.toSizedBlocks r.dest,
    fun i hi => (packs_inside sized.toSizedBlocks storage r.dest hi).2,?_,?_,?_⟩
  · intro i e he hi
    obtain ⟨e',he',hfit⟩ := storage.packs_fitting sized r.dest hi
    have hlt : i < (front ++ [entry]).length := (List.getElem?_eq_some_iff.mp he).1
    rw [hmore, ← List.singleton_append, ← List.append_assoc, List.getElem?_append_left hlt,
      he] at he'
    cases he'
    exact hfit
  · intro early e late hsplit hlen hearly hfit
    have hmessages : storage.messages = early ++ e::(late ++ (back ++ more)) := by
      rw [hmore, ← List.singleton_append, ← List.append_assoc, hsplit, List.append_assoc,
        List.cons_append]
    exact storage.packs_first sized r.dest hmessages hlen hearly hfit
  · have hround : (t.round backend sized temp r).position =
        if storage.packs sized.toSizedBlocks r.dest front.length then none
        else some (leave (storage.packs sized.toSizedBlocks r.dest) front).length := by
      simp only [Tracked.round, hpos, Option.bind_some, ConnectionOutgoingMessages.packInto,
        ← hs, hmore, List.take_left']
      rfl
    split_ifs with hc
    · rw [hround, if_pos hc]
    · refine ⟨by rw [hround, if_neg hc],
        leave (fun i => storage.packs sized.toSizedBlocks r.dest (i+1+front.length))
          (back ++ more),?_⟩
      have hclean : (t.round backend sized temp r).outgoing.serialized.messages =
          leave (storage.packs sized.toSizedBlocks r.dest) storage.messages :=
        cleanup_messages storage _
      rw [hclean, hmore, leave_append]
      simp only [leave, Nat.zero_add, hc]
      rfl

/-- The queue in front of a message still lets it through. -/
def Open (size : ℕ) (front : List SerializedMessage) (entry : SerializedMessage) : Prop :=
  fitting sized size entry = true ∧ front.countP (fun e => !fitting sized size e) < 64

/-- The first of a list that meets a test, behind others that do not. -/
theorem exists_first {α : Type} (q : α → Bool) {l : List α} (h : ∃ a ∈ l, q a = true) :
    ∃ early a late, l = early ++ a::late ∧ (∀ d ∈ early, q d = false) ∧ q a = true := by
  induction l with
  | nil => obtain ⟨a,ha,-⟩ := h; cases ha
  | cons b l ih =>
    by_cases hb : q b = true
    · exact ⟨[],b,l,rfl,fun d hd => (List.not_mem_nil hd).elim,hb⟩
    · rw [Bool.not_eq_true] at hb
      obtain ⟨a,ha,hq⟩ := h
      have hl : a ∈ l := by
        rcases List.mem_cons.mp ha with rfl | hl
        · rw [hb] at hq; cases hq
        · exact hl
      obtain ⟨early,a,late,rfl,hearly,hq⟩ := ih ⟨a,hl,hq⟩
      exact ⟨b::early,a,late,rfl,by simpa [hb] using hearly,hq⟩

/-- A round brings an open message nearer to the front or packs it. -/
theorem round_open (t : Tracked) (r : Round) {front : List SerializedMessage}
    {entry : SerializedMessage} (h : t.At front entry) (ho : Open sized r.dest.length front entry) :
    (t.round backend sized temp r).position = none ∨
    ∃ front', (t.round backend sized temp r).At front' entry ∧
      Open sized r.dest.length front' entry ∧
      front'.countP (fitting sized r.dest.length) < front.countP (fitting sized r.dest.length) := by
  obtain ⟨chosen,-,-,hfirst,hcases⟩ := round_cases backend sized temp t r h
  split_ifs at hcases with hc
  · exact Or.inl hcases
  · refine Or.inr ⟨leave chosen front,hcases,⟨ho.1,?_⟩,?_⟩
    · exact ((leave_sublist chosen front).countP_le).trans_lt ho.2
    · by_cases hex : ∃ e ∈ front, fitting sized r.dest.length e = true
      · obtain ⟨early,e,late,hsplit,hearly,hfit⟩ := exists_first _ hex
        have hlen : early.length < 64 := by
          have hnone : early.countP (fun e => !fitting sized r.dest.length e) = early.length :=
            List.countP_eq_length.mpr fun d hd => by simp [hearly d hd]
          have hle : early.Sublist front := hsplit ▸ List.sublist_append_left _ _
          exact hnone ▸ hle.countP_le.trans_lt ho.2
        have hchosen := hfirst early e (late ++ [entry]) (by simp [hsplit]) hlen hearly hfit
        have hpicked : e ∈ pick chosen front := mem_pick.mpr ⟨_,hchosen,by simp [hsplit]⟩
        have hpos := List.countP_pos_iff.mpr ⟨e,hpicked,hfit⟩
        have hsum := countP_leave chosen (fitting sized r.dest.length) front
        omega
      · have hnone : ∀ d ∈ front, fitting sized r.dest.length d = false :=
          fun d hd => by simpa using fun h => hex ⟨d,hd,h⟩
        have hall : front.countP (fun e => !fitting sized r.dest.length e) = front.length :=
          List.countP_eq_length.mpr fun d hd => by simp [hnone d hd]
        exact absurd (hfirst front entry [] rfl (hall ▸ ho.2) hnone ho.1) hc

/-- A message that is not open stays where it is not. -/
theorem round_closed (t : Tracked) (r : Round) {front : List SerializedMessage}
    {entry : SerializedMessage} (h : t.At front entry)
    (ho : ¬ Open sized r.dest.length front entry) :
    ∃ front', (t.round backend sized temp r).At front' entry ∧
      ¬ Open sized r.dest.length front' entry := by
  obtain ⟨chosen,hwindow,htaken,-,hcases⟩ := round_cases backend sized temp t r h
  have hkeep : front.countP (fun e => !fitting sized r.dest.length e) ≤
      (leave chosen front).countP (fun e => !fitting sized r.dest.length e) := by
    have hsum := countP_leave chosen (fun e => !fitting sized r.dest.length e) front
    have hzero : (pick chosen front).countP (fun e => !fitting sized r.dest.length e) = 0 := by
      rw [List.countP_eq_zero]
      intro e he
      obtain ⟨i,hi,hl⟩ := mem_pick.mp he
      have hlt := (List.getElem?_eq_some_iff.mp hl).1
      simp [htaken i e (by rw [List.getElem?_append_left hlt, hl]) hi]
    omega
  split_ifs at hcases with hc
  · refine absurd ⟨htaken front.length entry (by simp) hc,?_⟩ ho
    exact (List.countP_le_length).trans_lt (hwindow _ hc)
  · exact ⟨_,hcases,fun hopen => ho ⟨hopen.1,hkeep.trans_lt hopen.2⟩⟩

variable {size : ℕ} {front : List SerializedMessage} {entry : SerializedMessage}

/-- After as many rounds as there are messages in front that fit, and one
more, an open message was packed. -/
theorem after_open (t : Tracked) (schedule : ℕ → Round)
    (hdest : ∀ n, (schedule n).dest.length = size) (h : t.At front entry)
    (ho : Open sized size front entry) (n : ℕ) :
    (∃ m ≤ n, (t.after backend sized temp schedule m).position = none) ∨
    ∃ front', (t.after backend sized temp schedule n).At front' entry ∧
      Open sized size front' entry ∧
      front'.countP (fitting sized size)+n ≤ front.countP (fitting sized size) := by
  induction n with
  | zero => exact Or.inr ⟨front,h,ho,le_rfl⟩
  | succ n ih =>
    rcases ih with ⟨m,hm,hnone⟩ | ⟨front',hat,hopen,hcount⟩
    · exact Or.inl ⟨m,hm.trans (Nat.le_succ n),hnone⟩
    · have hstep := round_open backend sized temp _ (schedule n) hat (by rwa [hdest])
      rw [hdest] at hstep
      rcases hstep with hnone | ⟨next,hat,hopen,hlt⟩
      · exact Or.inl ⟨n+1,le_rfl,hnone⟩
      · exact Or.inr ⟨next,hat,hopen,by omega⟩

theorem after_closed (t : Tracked) (schedule : ℕ → Round)
    (hdest : ∀ n, (schedule n).dest.length = size) (h : t.At front entry)
    (ho : ¬ Open sized size front entry) (n : ℕ) :
    ∃ front', (t.after backend sized temp schedule n).At front' entry ∧
      ¬ Open sized size front' entry := by
  induction n with
  | zero => exact ⟨front,h,ho⟩
  | succ n ih =>
    obtain ⟨front',hat,hclosed⟩ := ih
    have hstep := round_closed backend sized temp _ (schedule n) hat (by rwa [hdest])
    rw [hdest] at hstep
    exact hstep

/-- Whatever is enqueued between the rounds, the message is packed in one of them. -/
def Leaves (t : Tracked) (size : ℕ) : Prop :=
  ∀ schedule : ℕ → Round, (∀ n, (schedule n).dest.length = size) →
    ∃ n, (t.after backend sized temp schedule n).position = none

theorem leaves_iff_open (t : Tracked) (h : t.At front entry) :
    Leaves backend sized temp t size ↔ Open sized size front entry := by
  constructor
  · intro hl
    by_contra ho
    have hdest : ∀ n : ℕ, (⟨[],List.replicate size 0⟩ : Round).dest.length = size :=
      fun _ => List.length_replicate
    obtain ⟨n,hn⟩ := hl (fun _ => ⟨[],List.replicate size 0⟩) hdest
    obtain ⟨front',⟨hpos,-⟩,-⟩ := after_closed backend sized temp t _ hdest h ho n
    rw [hn] at hpos
    cases hpos
  · intro ho schedule hdest
    rcases after_open backend sized temp t schedule hdest h ho
      (front.countP (fitting sized size)+1) with ⟨m,-,hm⟩ | ⟨front',-,-,hcount⟩
    · exact ⟨m,hm⟩
    · omega

/-- The bytes of an accepted message. -/
def encoded (msgId : MessageId) (message : MessageView) : Block :=
  headerBytes backend msgId message.toMessageInfo ++ message.data

/-- An accepted message stands behind all that was in the queue. -/
theorem enqueue_at {outgoing outgoing' : ConnectionOutgoingMessages} {now : ℕ} {msgId : MessageId}
    {message : MessageView}
    (h : outgoing.enqueue backend now msgId message temp = (true,outgoing')) :
    Tracked.At ⟨outgoing',some outgoing.serialized.messages.length⟩ outgoing.serialized.messages
      ⟨encoded backend msgId message,now,message.priority⟩ := by
  have hne : encoded backend msgId message ≠ [] := fun hnil =>
    headerBytes_ne_nil backend msgId message.toMessageInfo (List.append_eq_nil_iff.mp hnil).1
  unfold ConnectionOutgoingMessages.enqueue at h
  cases hs : serializeMessage backend msgId message ⟨temp,[]⟩ with
  | none => simp [hs] at h
  | some sink =>
    have hdone : sink.done = encoded backend msgId message := (serializeMessage_done backend hs).1
    simp only [hs, Prod.mk.injEq, true_and] at h
    refine ⟨rfl,[],?_⟩
    rw [← h, push_messages, hdone, if_neg hne]

/-- An accepted message leaves the queue in finitely many rounds, whatever is
enqueued in between, exactly if its frame fits the block and fewer than 64
messages before it have frames that do not. -/
theorem accepted_leaves_iff (outgoing : ConnectionOutgoingMessages) (now : ℕ)
    (msgId : MessageId) (message : MessageView) {outgoing' : ConnectionOutgoingMessages}
    (h : outgoing.enqueue backend now msgId message temp = (true,outgoing')) :
    Leaves backend sized temp ⟨outgoing',some outgoing.serialized.messages.length⟩ temp ↔
      sized.fits temp (encoded backend msgId message) = true ∧
      outgoing.serialized.messages.countP (fun e => !sized.fits temp e.buffer) < 64 :=
  leaves_iff_open backend sized temp _ (enqueue_at backend temp h)

/-- The sized blocks of the sample, whose frames are as long as they have to be. -/
def sampleExact : ExactBlocks where
  toSizedBlocks := sampleSized
  overhead n := (SampleBackend.number.encode n).length
  overhead_pos n := List.length_pos_iff.mpr
    (SampleBackend.number.encode_ne_nil (Nat.succ_ne_self n).symm)
  store_exact data size := by
    simp only [sampleSized, SampleSized.storeDataWithSize, List.length_append]
    split_ifs with h <;> simp [h]

def oneBytePing : MessageView := { data := [7] }

/-- With two bytes to spare the ping leaves. -/
theorem ping_leaves : Leaves sampleBackend sampleExact 19
    ⟨(ConnectionOutgoingMessages.enqueue sampleBackend {} 0 (msgbusId .ping) oneBytePing 19).2,
      some 0⟩ 19 :=
  (accepted_leaves_iff sampleBackend sampleExact 19 {} 0 (msgbusId .ping) oneBytePing rfl).mpr
    (by decide)

/-- A ping that fills the block by itself is accepted and stays for ever. -/
theorem full_ping_stays :
    (ConnectionOutgoingMessages.enqueue sampleBackend {} 0 (msgbusId .ping) oneBytePing 17).1 =
      true ∧
    ¬ Leaves sampleBackend sampleExact 17
      ⟨(ConnectionOutgoingMessages.enqueue sampleBackend {} 0 (msgbusId .ping) oneBytePing 17).2,
        some 0⟩ 17 := by
  refine ⟨by decide,?_⟩
  have h : Tracked.At ⟨(ConnectionOutgoingMessages.enqueue sampleBackend {} 0 (msgbusId .ping)
      oneBytePing 17).2,some 0⟩ [] ⟨encoded sampleBackend (msgbusId .ping) oneBytePing,0,.normal⟩ :=
    ⟨rfl,[],rfl⟩
  rw [leaves_iff_open sampleBackend sampleExact 17 _ h]
  exact fun ho => absurd ho.1 (by decide)

end OutgoingProgress

end MsgBus
