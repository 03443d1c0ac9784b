import Mathlib.Tactic.Abel
import MsgBus.Lib.BitCount
import MsgBus.Lib.BlockStream
import MsgBus.IncomingFetch
import MsgBus.MessagePacking

/-!
# Stream connections

A stream connection writes blocks of one size asynchronously from one buffer.
While a block is being written messages are enqueued behind those it carries,
and its handler removes just these from the queue. A block that is not urgent
waits for more messages: a countdown goes on as long as nothing is added. The
two halves of a connection share nothing but the socket; a link is made of two
lanes, each from the sending half of one peer to the receiving half of the
other. Errors of the socket are left out.
-/

set_option autoImplicit false

namespace MsgBus

open IndexSelect StepRun

namespace MessagePackInfo

/-- The loop that clears the lowest bit, at most once for each of the 64. -/
def countLoop : ℕ → UInt64 → ℕ
  | 0, _ => 0
  | fuel+1, bits => if bits = 0 then 0 else countLoop fuel (bits &&& (bits-1))+1

def count (info : MessagePackInfo) : ℕ := countLoop 64 info.packedBits

def isMaxCount (n : ℕ) : Bool := 64 ≤ n

theorem countLoop_turns (fuel : ℕ) (bits : UInt64) :
    countLoop fuel bits = BitCount.turns fuel bits.toNat := by
  induction fuel generalizing bits with
  | zero => rfl
  | succ fuel ih =>
    by_cases h : bits = 0
    · simp [countLoop, BitCount.turns, h]
    · have hpos : bits.toNat ≠ 0 := fun hz => h (UInt64.toNat_inj.mp (by simpa using hz))
      have hone : (1 : UInt64) ≤ bits := UInt64.le_iff_toNat_le.mpr (Nat.pos_of_ne_zero hpos)
      rw [countLoop, if_neg h, BitCount.turns, if_neg hpos, ih, UInt64.toNat_and,
        UInt64.toNat_sub_of_le _ _ hone]
      rfl

theorem count_eq (info : MessagePackInfo) :
    info.count = (BitCount.positions 64 info.bits.toNat).card := by
  rw [count, countLoop_turns]
  exact BitCount.turns_eq (UInt64.toNat_lt _) (BitCount.positions_card_le 64 _)

theorem count_le (info : MessagePackInfo) : info.count ≤ 64 :=
  (count_eq info).trans_le (BitCount.positions_card_le 64 _)

theorem count_mono {info info' : MessagePackInfo}
    (h : ∀ i, bitAt info.bits i = true → bitAt info'.bits i = true) :
    info.count ≤ info'.count := by
  rw [count_eq, count_eq]
  exact BitCount.positions_mono h

theorem isEmpty_mono {info info' : MessagePackInfo}
    (h : ∀ i, bitAt info.bits i = true → bitAt info'.bits i = true)
    (hsome : info.isEmpty = false) : info'.isEmpty = false := by
  simp only [isEmpty, decide_eq_false_iff_not] at hsome ⊢
  intro hnone
  apply hsome
  rw [← UInt64.toNat_inj]
  apply Nat.eq_of_testBit_eq
  intro i
  by_contra hbit
  have hset : bitAt info.bits i = true := by simpa [bits, bitAt] using hbit
  have hset' := h i hset
  rw [bits, hnone, bitAt_empty] at hset'
  cases hset'

end MessagePackInfo

/-- An asynchronous write of the write buffer: what its handler removes and
how much of the buffer the system has taken. -/
structure SendOperation where
  toBeRemoved : MessagePackInfo
  transferred : ℕ := 0

structure AsioSending where
  outgoing : ConnectionOutgoingMessages := {}
  writeBuffer : Block
  prevPackedCount : ℕ := 0
  sendCountdown : ℤ := 0
  isSending : Bool := false
  /-- The writes that were started and whose handlers were not called yet. -/
  writes : List SendOperation := []

structure AsioReceiving where
  incoming : ConnectionIncomingMessages := {}
  readSize : ℕ
  isRecving : Bool := false
  /-- The reads that were started and whose handlers were not called yet. -/
  reads : ℕ := 0

namespace AsioSending

variable (sized : SizedBlocks) (s : AsioSending)

def send (backend : SerializerBackend) (now : ℕ) (msgId : MessageId) (message : MessageView) :
    Bool × AsioSending :=
  let (done,outgoing) := s.outgoing.enqueue backend now msgId message s.writeBuffer.length
  (done,{ s with outgoing })

def priorityToCountdown (priority : MessagePriority) : ℤ := priority.value

def doStartSend (packed : MessagePackInfo) : AsioSending :=
  { s with writes := s.writes ++ [{ toBeRemoved := packed }] }

def resetSendCountdown : AsioSending :=
  { s with sendCountdown := priorityToCountdown .critical }

def updateSendCountdown (packedCount : ℕ) : AsioSending :=
  { s with
    sendCountdown := s.sendCountdown-if packedCount = s.prevPackedCount then 1 else 0 }

def sendCountdownEnd (priority : MessagePriority) : Bool :=
  s.sendCountdown ≤ priorityToCountdown priority

def startSendIfNeeded (force : Bool) : Bool × AsioSending :=
  let (packed,writeBuffer) := s.outgoing.packInto sized s.writeBuffer
  let s := { s with writeBuffer }
  if force || !packed.isEmpty then
    let s := s.updateSendCountdown packed.count
    if s.sendCountdownEnd packed.maxPriority || MessagePackInfo.isMaxCount packed.count then
      (true,({ s with prevPackedCount := 0 }.resetSendCountdown).doStartSend packed |>
        fun s => { s with isSending := true })
    else (true,{ s with prevPackedCount := packed.count, isSending := false })
  else (false,{ s with isSending := false })

def startSend : Bool × AsioSending :=
  if s.isSending then (true,s) else s.startSendIfNeeded sized false

def handleSent (toBeRemoved : MessagePackInfo) : AsioSending :=
  let sentSomething := !toBeRemoved.isEmpty
  ({ s with outgoing := s.outgoing.cleanup toBeRemoved }.startSendIfNeeded sized sentSomething).2

end AsioSending

namespace AsioReceiving

variable (r : AsioReceiving)

def doStartReceive : AsioReceiving := { r with isRecving := true, reads := r.reads+1 }

def hasReceived : Bool := !r.incoming.packed.messages.isEmpty

def startReceive : Bool × AsioReceiving :=
  let r := if r.isRecving then r else r.doStartReceive
  (r.hasReceived,r)

def handleReceived (now : ℕ) (data : Block) : AsioReceiving :=
  { r with incoming := r.incoming.push now data }.doStartReceive

end AsioReceiving

/-! ## What one half does -/

namespace SerializedMessageStorage

/-- A message that is pushed does not change which ones before it are packed. -/
theorem packs_push (sized : SizedBlocks) (storage : SerializedMessageStorage) (dest : Block)
    (now : ℕ) (message : Block) (priority : MessagePriority) {i : ℕ}
    (h : storage.packs sized dest i = true) :
    (storage.push now message priority).packs sized dest i = true := by
  have hlt := (storage.packs_inside sized dest h).1
  have hprefix (free : ℕ) (l m : List Block) (i : ℕ) (hi : i < l.length) :
      (written sized free (l++m))[i]? = (written sized free l)[i]? := by
    induction l generalizing free i with
    | nil => exact absurd hi (Nat.not_lt_zero i)
    | cons data l ih =>
      cases i with
      | zero => rfl
      | succ i => exact ih _ i (Nat.lt_of_succ_lt_succ hi)
  rw [packs_iff] at h ⊢
  rw [frames, push_messages, List.map_append, List.take_append, hprefix]
  · exact h
  · have hin := (storage.packs_inside sized dest (by rw [packs_iff]; exact h)).2
    rw [List.length_take, List.length_map]
    exact lt_min hin hlt

theorem encodes_push (backend : SerializerBackend) {storage : SerializedMessageStorage}
    {messages : List (MessageId × MessageView)} (h : storage.Encodes backend messages) (now : ℕ)
    {msgId : MessageId} {message : MessageView} {size : ℕ} {sink : BlockDataSink}
    (hs : serializeMessage backend msgId message ⟨size,[]⟩ = some sink) :
    (storage.push now sink.done message.priority).Encodes backend (messages++[(msgId,message)]) ∧
    (storage.push now sink.done message.priority).messages =
      storage.messages++[⟨sink.done,now,message.priority⟩] := by
  have hne : sink.done ≠ [] := by
    rw [(serializeMessage_done backend hs).1]
    exact fun hnil => headerBytes_ne_nil backend msgId _ (List.append_eq_nil_iff.mp hnil).1
  have hpush := push_messages storage now sink.done message.priority
  rw [if_neg hne] at hpush
  refine ⟨?_,hpush⟩
  rw [Encodes, hpush]
  exact List.rel_append h (.cons ⟨size,sink,hs,rfl⟩ .nil)

theorem encodes_leave (backend : SerializerBackend) {storage storage' : SerializedMessageStorage}
    {messages : List (MessageId × MessageView)} (h : storage.Encodes backend messages)
    (p : ℕ → Bool) (hl : storage'.messages = leave p storage.messages) :
    storage'.Encodes backend (leave p messages) := by
  have hleave : ∀ (p : ℕ → Bool) {entries : List SerializedMessage}
      {messages : List (MessageId × MessageView)} {rel : SerializedMessage → _ → Prop},
      List.Forall₂ rel entries messages →
        List.Forall₂ rel (leave p entries) (leave p messages) := by
    intro p entries messages rel h
    induction h generalizing p with
    | nil => exact .nil
    | cons hentry _ ih =>
      simp only [leave]
      split_ifs
      · exact ih _
      · exact .cons hentry (ih _)
  rw [Encodes, hl]
  exact hleave p h

/-- What is left of the messages when some positions are left out. -/
theorem decode_leave (backend : SerializerBackend) {storage : SerializedMessageStorage}
    {messages : List (MessageId × MessageView)} (h : storage.Encodes backend messages)
    (p : ℕ → Bool) : (leave p storage.messages).filterMap
      (fun entry => deserializeMessage backend {} entry.buffer) = leave p messages := by
  obtain ⟨entries,hne⟩ := storage
  simp only [Encodes] at h ⊢
  induction h generalizing p with
  | nil => rfl
  | @cons entry m entries messages hentry _ ih =>
    obtain ⟨size,sink,hsink,hbuf⟩ := hentry
    have hrest := ih (fun i => p (i+1)) (fun e he => hne e (List.mem_cons_of_mem _ he))
    simp only [leave]
    split_ifs
    · exact hrest
    · rw [List.filterMap_cons, hbuf, deserializeMessage_done backend {} hsink]
      exact congrArg _ hrest

end SerializedMessageStorage

namespace AsioSending

variable (sized : SizedBlocks) {s : AsioSending}

/-- What would be packed now. -/
def packed (s : AsioSending) : MessagePackInfo := (s.outgoing.packInto sized s.writeBuffer).1

theorem packed_congr {s' : AsioSending} (ho : s'.outgoing = s.outgoing)
    (hl : s'.writeBuffer.length = s.writeBuffer.length) : s'.packed sized = s.packed sized := by
  rw [packed, packed, ho]
  exact congrArg Prod.fst (SerializedMessageStorage.packInto_congr sized _ hl)

/-- How often packed messages may still wait. -/
def patience (s : AsioSending) : ℕ := s.sendCountdown.toNat+(64-s.prevPackedCount)

/-- A write was started from what is packed now. -/
structure Started (s s' : AsioSending) : Prop where
  writes : s'.writes = [{ toBeRemoved := s.packed sized }]
  sending : s'.isSending = true
  prev : s'.prevPackedCount = 0
  countdown : s'.sendCountdown = 4

/-- No write was started. -/
structure Waited (s s' : AsioSending) : Prop where
  writes : s'.writes = []
  sending : s'.isSending = false
  prev : s'.prevPackedCount ≤ (s.packed sized).count
  countdown : s'.sendCountdown ≤ s.sendCountdown
  patience : (s.packed sized).isEmpty = false → s'.patience < s.patience

/-- With no write in progress one is started or the messages wait. -/
theorem startSendIfNeeded_cases (force : Bool) (hw : s.writes = [])
    (hprev : s.prevPackedCount ≤ (s.packed sized).count) :
    (s.startSendIfNeeded sized force).2.outgoing = s.outgoing ∧
    (s.startSendIfNeeded sized force).2.writeBuffer =
      (s.outgoing.packInto sized s.writeBuffer).2 ∧
    (Started sized s (s.startSendIfNeeded sized force).2 ∨
      Waited sized s (s.startSendIfNeeded sized force).2) := by
  have hle := MessagePackInfo.count_le (s.packed sized)
  unfold startSendIfNeeded
  rw [packed] at hprev hle
  dsimp only
  split_ifs with hneed hend
  · refine ⟨rfl,rfl,.inl ⟨?_,rfl,rfl,rfl⟩⟩
    simp [doStartSend, resetSendCountdown, updateSendCountdown, hw, packed]
  · obtain ⟨hlate,hmax⟩ := Bool.or_eq_false_iff.mp (Bool.eq_false_iff.mpr hend)
    have hpos : 0 < (updateSendCountdown { s with
        writeBuffer := (s.outgoing.packInto sized s.writeBuffer).2 }
        (s.outgoing.packInto sized s.writeBuffer).1.count).sendCountdown := by
      have hlt := not_le.mp (of_decide_eq_false hlate)
      exact (Int.natCast_nonneg _).trans_lt hlt
    refine ⟨rfl,rfl,.inr ⟨hw,rfl,le_rfl,?_,fun _ => ?_⟩⟩
    · simp only [updateSendCountdown]
      split_ifs <;> omega
    · simp only [updateSendCountdown] at hpos
      simp only [patience, updateSendCountdown]
      split_ifs at hpos ⊢ with heq
      · omega
      · omega
  · refine ⟨rfl,rfl,.inr ⟨hw,rfl,hprev,le_rfl,fun hsome => ?_⟩⟩
    exact absurd (by simp [packed] at hsome; simp [hsome]) hneed

end AsioSending

/-! ## One direction of a link -/

/-- From the sending half of one peer to the receiving half of the other. The
stream is what the system has taken from the write buffer and not yet read. -/
structure AsioLane (σ : Type) where
  sender : AsioSending
  stream : Block := []
  receiver : AsioReceiving
  state : σ
  enqueued : Multiset IncomingFetch.Received := 0
  accepted : Multiset IncomingFetch.Received := 0
  dropped : Multiset IncomingFetch.Received := 0

inductive AsioLaneEvent (σ : Type) where
  | send (now : ℕ) (msgId : MessageId) (message : MessageView)
  | startSend
  | transfer (count : ℕ)
  | sent
  | startReceive
  | received (now : ℕ)
  | fetch (now : ℕ) (handler : FetchHandler σ)

def AsioLaneEvent.startsSend {σ : Type} : AsioLaneEvent σ → Bool
  | .startSend => true
  | _ => false

namespace AsioLane

open IncomingFetch

variable {σ : Type} (backend : SerializerBackend) (sized : SizedBlocks) (lane : AsioLane σ)

/-- The incoming messages of the receiving peer with what its handlers took. -/
def inbox : Inbox σ := ⟨lane.receiver.incoming,lane.state,0,lane.accepted⟩

/-- What a fetch loses: refused messages that have made too many hops. -/
def drops (now : ℕ) (handler : FetchHandler σ) : List Received :=
  ((lane.inbox.offers backend sized now handler).filter fun o =>
    !o.2 && o.1.2.tooManyHops).map Prod.fst

def step (lane : AsioLane σ) : AsioLaneEvent σ → AsioLane σ
  | .send now msgId message =>
    let (done,sender) := lane.sender.send backend now msgId message
    { lane with
      sender
      enqueued := if done then (msgId,message) ::ₘ lane.enqueued else lane.enqueued }
  | .startSend => { lane with sender := (lane.sender.startSend sized).2 }
  | .transfer count =>
    match lane.sender.writes with
    | [] => lane
    | w::ws => { lane with
        stream := lane.stream ++ (lane.sender.writeBuffer.drop w.transferred).take count
        sender := { lane.sender with
          writes := { w with
            transferred := min (w.transferred+count) lane.sender.writeBuffer.length }::ws } }
  | .sent =>
    match lane.sender.writes with
    | [] => lane
    | w::ws =>
      if w.transferred = lane.sender.writeBuffer.length then { lane with
        sender := { lane.sender with writes := ws }.handleSent sized w.toBeRemoved }
      else lane
  | .startReceive => { lane with receiver := lane.receiver.startReceive.2 }
  | .received now =>
    if lane.receiver.reads ≠ 0 ∧ lane.receiver.readSize ≤ lane.stream.length then { lane with
      stream := lane.stream.drop lane.receiver.readSize
      receiver := { lane.receiver with reads := lane.receiver.reads-1 }.handleReceived now
        (lane.stream.take lane.receiver.readSize) }
    else lane
  | .fetch now handler =>
    let inbox := lane.inbox.step backend sized (.fetch now handler)
    { lane with
      receiver := { lane.receiver with incoming := inbox.incoming }
      state := inbox.state
      accepted := inbox.accepted
      dropped := lane.dropped+↑(lane.drops backend sized now handler) }

theorem stored_nil : ∀ entry ∈ ([] : List SerializedMessage), entry.buffer ≠ [] :=
  fun _ h => absurd h List.not_mem_nil

def start (blockSize : ℕ) (state : σ) : AsioLane σ where
  sender := { outgoing := ⟨⟨[],stored_nil⟩⟩, writeBuffer := List.replicate blockSize 0 }
  receiver := { incoming := ⟨⟨[],stored_nil⟩,{}⟩, readSize := blockSize }
  state := state

/-- What the system has yet to take of the block that is being written. -/
def unwritten : Block :=
  match lane.sender.writes with
  | [] => []
  | w::_ => lane.sender.writeBuffer.drop w.transferred

/-- The positions in the queue of the messages that are being written. -/
def beingWritten : ℕ → Bool :=
  match lane.sender.writes with
  | [] => fun _ => false
  | w::_ => bitAt w.toBeRemoved.bits

/-- The messages in the blocks on their way. -/
def carried : List Received :=
  (BlockStream.blocks lane.receiver.readSize (lane.stream ++ lane.unwritten)).flatMap
    (ConnectionIncomingMessages.decoded backend sized)

/-- The messages in the queue that are not being written. -/
def waiting : List Received :=
  (leave lane.beingWritten lane.sender.outgoing.serialized.messages).filterMap
    fun entry => deserializeMessage backend {} entry.buffer

/-- Each message that was enqueued is in exactly one place. -/
def Accounted : Prop :=
  lane.enqueued = lane.accepted+lane.dropped+↑(lane.inbox.held backend sized)+
    ↑(lane.carried backend sized)+↑(lane.waiting backend)

section Invariant

/-- What every step keeps, whatever is being written. -/
structure Kept : Prop where
  positive : 0 < lane.receiver.readSize
  size : lane.sender.writeBuffer.length = lane.receiver.readSize
  encodes : ∃ messages, lane.sender.outgoing.serialized.Encodes backend messages
  whole : ∃ bs, lane.stream ++ lane.unwritten = List.flatten bs ∧
    ∀ b ∈ bs, b.length = lane.receiver.readSize
  countdown : lane.sender.sendCountdown ≤ 4
  reading : lane.receiver.reads = lane.receiver.isRecving.toNat
  accounted : lane.Accounted backend sized

/-- No write is in progress, and the count did not fall since it was noted. -/
structure Idle : Prop where
  writes : lane.sender.writes = []
  prev : lane.sender.prevPackedCount ≤ (lane.sender.packed sized).count

/-- One write is in progress and removes messages of the queue only. -/
structure Busy (w : SendOperation) : Prop where
  writes : lane.sender.writes = [w]
  sending : lane.sender.isSending = true
  taken : w.transferred ≤ lane.sender.writeBuffer.length
  prev : lane.sender.prevPackedCount = 0
  inside : ∀ i, bitAt w.toBeRemoved.bits i = true →
    i < lane.sender.outgoing.serialized.messages.length

def Phase : Prop :=
  (lane.sender.isSending = false ∧ lane.Idle sized) ∨ ∃ w, lane.Busy w

structure Inv : Prop where
  kept : lane.Kept backend sized
  phase : lane.Phase sized

/-- No write is in progress and something fits in the next block. -/
structure Hungry : Prop where
  inv : lane.Inv backend sized
  writes : lane.sender.writes = []
  packed : (lane.sender.packed sized).isEmpty = false

variable {backend sized} {lane}

theorem waiting_eq {messages : List Received}
    (h : lane.sender.outgoing.serialized.Encodes backend messages) :
    lane.waiting backend = leave lane.beingWritten messages :=
  SerializedMessageStorage.decode_leave backend h _

theorem unwritten_idle (h : lane.sender.writes = []) : lane.unwritten = [] := by
  rw [unwritten, h]

theorem beingWritten_idle (h : lane.sender.writes = []) : lane.beingWritten = fun _ => false := by
  rw [beingWritten, h]

/-- With no write in progress the whole queue waits. -/
theorem waiting_idle {messages : List Received}
    (h : lane.sender.outgoing.serialized.Encodes backend messages)
    (hw : lane.sender.writes = []) : lane.waiting backend = messages := by
  rw [waiting_eq h, beingWritten_idle hw]
  exact leave_none _ (fun _ => rfl)

/-- The whole blocks of a stream that one more block follows. -/
theorem carried_snoc {bs : List Block} {b : Block} {size : ℕ} (hpos : 0 < size)
    (hs : ∀ b ∈ bs, b.length = size) (hb : b.length = size) :
    BlockStream.blocks size (bs.flatten ++ b) = bs ++ [b] := by
  have hflat : bs.flatten ++ b = (bs ++ [b]).flatten := by simp
  rw [hflat]
  apply BlockStream.blocks_flatten hpos
  intro c hc
  rcases List.mem_append.mp hc with hc | hc
  · exact hs c hc
  · rw [List.mem_singleton.mp hc]
    exact hb

/-- A block is packed and perhaps written. -/
theorem startSendIfNeeded_inv (hk : lane.Kept backend sized) (hi : lane.Idle sized)
    (force : Bool) : Inv backend sized
      { lane with sender := (lane.sender.startSendIfNeeded sized force).2 } := by
  obtain ⟨hout,hbuf,hcases⟩ := AsioSending.startSendIfNeeded_cases sized force hi.writes hi.prev
  obtain ⟨messages,henc⟩ := hk.encodes
  obtain ⟨bs,hbs,hsize⟩ := hk.whole
  rw [unwritten_idle hi.writes, List.append_nil] at hbs
  have hlen : (lane.sender.startSendIfNeeded sized force).2.writeBuffer.length =
      lane.sender.writeBuffer.length := by
    rw [hbuf]
    exact SerializedMessageStorage.packInto_length sized _ _
  have hacc := hk.accounted
  rw [Accounted, waiting_idle henc hi.writes, carried, unwritten_idle hi.writes, List.append_nil,
    hbs, BlockStream.blocks_flatten hk.positive hsize] at hacc
  rcases hcases with hstart | hwait
  · have hblock : (lane.sender.startSendIfNeeded sized force).2.writeBuffer.length =
        lane.receiver.readSize := hlen.trans hk.size
    have hdecoded : ConnectionIncomingMessages.decoded backend sized
        (lane.sender.startSendIfNeeded sized force).2.writeBuffer =
          pick (lane.sender.outgoing.serialized.packs sized lane.sender.writeBuffer) messages := by
      rw [hbuf, ConnectionOutgoingMessages.packInto, SerializedMessageStorage.packInto_dest,
        SerializedMessageStorage.decoded_frames sized _ _ backend henc]
    refine ⟨⟨hk.positive,hblock,⟨messages,by rw [hout]; exact henc⟩,
      ⟨bs ++ [(lane.sender.startSendIfNeeded sized force).2.writeBuffer],?_,?_⟩,?_,hk.reading,?_⟩,
      .inr ⟨_,hstart.writes,hstart.sending,Nat.zero_le _,hstart.prev,fun i hbit => ?_⟩⟩
    · simp [unwritten, hstart.writes, hbs]
    · intro b hb
      rcases List.mem_append.mp hb with hb | hb
      · exact hsize b hb
      · rw [List.mem_singleton.mp hb]
        exact hblock
    · exact hstart.countdown.le
    · rw [Accounted, carried, waiting_eq (by rw [hout]; exact henc)]
      simp only [unwritten, beingWritten, hstart.writes, List.drop_zero, hbs]
      rw [carried_snoc hk.positive hsize hblock, List.flatMap_append, List.flatMap_singleton,
        hdecoded]
      refine hacc.trans ?_
      rw [← Multiset.coe_add, ← add_assoc, add_assoc _ (↑(pick _ messages) : Multiset Received),
        Multiset.coe_add]
      congr 1
      exact Multiset.coe_eq_coe.mpr (pick_leave_perm _ messages).symm
    · rw [hout]
      exact (lane.sender.outgoing.serialized.packs_inside sized lane.sender.writeBuffer hbit).1
  · refine ⟨⟨hk.positive,hlen.trans hk.size,⟨messages,by rw [hout]; exact henc⟩,⟨bs,?_,hsize⟩,
      hwait.countdown.trans hk.countdown,hk.reading,?_⟩,.inl ⟨hwait.sending,hwait.writes,?_⟩⟩
    · rw [unwritten_idle hwait.writes, List.append_nil]
      exact hbs
    · rw [Accounted, waiting_idle (by rw [hout]; exact henc) hwait.writes, carried,
        unwritten_idle hwait.writes, List.append_nil, hbs,
        BlockStream.blocks_flatten hk.positive hsize]
      exact hacc
    · exact hwait.prev.trans_eq (congrArg _ (AsioSending.packed_congr sized hout hlen).symm)

theorem phase_congr {lane' : AsioLane σ} (h : lane.Phase sized)
    (hs : lane'.sender = lane.sender) : lane'.Phase sized := by
  rcases h with ⟨hsending,hi⟩ | ⟨w,hb⟩
  · refine .inl ⟨?_,?_,?_⟩
    all_goals rw [hs]
    · exact hsending
    · exact hi.writes
    · exact hi.prev
  · refine .inr ⟨w,?_,?_,?_,?_,?_⟩
    all_goals rw [hs]
    · exact hb.writes
    · exact hb.sending
    · exact hb.taken
    · exact hb.prev
    · exact hb.inside

theorem beingWritten_inside (hp : lane.Phase sized) {i : ℕ} (h : lane.beingWritten i = true) :
    i < lane.sender.outgoing.serialized.messages.length := by
  rcases hp with ⟨-,hi⟩ | ⟨w,hb⟩
  · rw [beingWritten_idle hi.writes] at h
    cases h
  · rw [beingWritten, hb.writes] at h
    exact hb.inside i h

/-- An enqueued message waits behind the others. -/
theorem send_inv (h : Inv backend sized lane) (now : ℕ) (msgId : MessageId)
    (message : MessageView) : Inv backend sized (lane.step backend sized
      (.send now msgId message)) := by
  obtain ⟨messages,henc⟩ := h.kept.encodes
  cases hs : serializeMessage backend msgId message ⟨lane.sender.writeBuffer.length,[]⟩ with
  | none =>
    have hsame : lane.step backend sized (.send now msgId message) = lane := by
      simp [step, AsioSending.send, ConnectionOutgoingMessages.enqueue, hs]
    rw [hsame]
    exact h
  | some sink =>
    obtain ⟨henc',hpush⟩ := SerializedMessageStorage.encodes_push backend henc now hs
    have hstep : lane.step backend sized (.send now msgId message) = { lane with
        sender := { lane.sender with
          outgoing := ⟨lane.sender.outgoing.serialized.push now sink.done message.priority⟩ }
        enqueued := (msgId,message) ::ₘ lane.enqueued } := by
      simp [step, AsioSending.send, ConnectionOutgoingMessages.enqueue, hs]
    rw [hstep]
    refine ⟨⟨h.kept.positive,h.kept.size,⟨_,henc'⟩,h.kept.whole,h.kept.countdown,
      h.kept.reading,?_⟩,?_⟩
    · have hlast : ∀ i, lane.beingWritten (i+messages.length) = false := by
        intro i
        by_contra hbit
        have hlt := beingWritten_inside h.phase (Bool.not_eq_false _ ▸ hbit)
        rw [henc.length_eq] at hlt
        omega
      have hacc := h.kept.accounted
      rw [Accounted, waiting_eq henc] at hacc
      rw [Accounted, waiting_eq henc']
      have hleave : leave lane.beingWritten (messages ++ [(msgId,message)]) =
          leave lane.beingWritten messages ++ [(msgId,message)] := by
        rw [leave_append, leave_none _ hlast]
      refine (congrArg ((msgId,message) ::ₘ ·) hacc).trans ?_
      refine Eq.trans ?_ (congrArg (fun l : List Received => lane.accepted+lane.dropped+
        ↑(lane.inbox.held backend sized)+↑(lane.carried backend sized)+↑l) hleave.symm)
      rw [← Multiset.coe_add, ← add_assoc, Multiset.coe_singleton, Multiset.add_comm _ {_},
        Multiset.singleton_add]
    · rcases h.phase with ⟨hsending,hi⟩ | ⟨w,hb⟩
      · refine .inl ⟨hsending,hi.writes,hi.prev.trans (MessagePackInfo.count_mono ?_)⟩
        intro i hbit
        exact SerializedMessageStorage.packs_push sized _ _ now sink.done message.priority hbit
      · refine .inr ⟨w,hb.writes,hb.sending,hb.taken,hb.prev,fun i hbit => ?_⟩
        have hlt := hb.inside i hbit
        simp only [hpush, List.length_append]
        omega

theorem startSend_inv (h : Inv backend sized lane) :
    Inv backend sized (lane.step backend sized .startSend) := by
  rcases h.phase with ⟨hsending,hi⟩ | ⟨w,hb⟩
  · have hstep : lane.step backend sized .startSend =
        { lane with sender := (lane.sender.startSendIfNeeded sized false).2 } := by
      simp [step, AsioSending.startSend, hsending]
    rw [hstep]
    exact startSendIfNeeded_inv h.kept hi false
  · have hsame : lane.step backend sized .startSend = lane := by
      simp [step, AsioSending.startSend, hb.sending]
    rw [hsame]
    exact h

/-- What the system takes was not taken before. -/
theorem transfer_inv (h : Inv backend sized lane) (count : ℕ) :
    Inv backend sized (lane.step backend sized (.transfer count)) := by
  rcases h.phase with ⟨-,hi⟩ | ⟨w,hb⟩
  · have hsame : lane.step backend sized (.transfer count) = lane := by
      simp [step, hi.writes]
    rw [hsame]
    exact h
  · obtain ⟨messages,henc⟩ := h.kept.encodes
    let w' := { w with
      transferred := min (w.transferred+count) lane.sender.writeBuffer.length }
    let lane' := { lane with
      stream := lane.stream ++ (lane.sender.writeBuffer.drop w.transferred).take count
      sender := { lane.sender with writes := [w'] } }
    have hstep : lane.step backend sized (.transfer count) = lane' := by
      simp [step, hb.writes, lane', w']
    have hstream : lane'.stream ++ lane'.unwritten = lane.stream ++ lane.unwritten := by
      have hrest : lane.sender.writeBuffer.drop w'.transferred =
          (lane.sender.writeBuffer.drop w.transferred).drop count := by
        rw [List.drop_drop]
        rcases le_total (w.transferred+count) lane.sender.writeBuffer.length with hle | hle
        · simp only [w', min_eq_left hle]
        · simp only [w', min_eq_right hle, List.drop_length]
          exact (List.drop_eq_nil_of_le hle).symm
      simp only [unwritten, lane', hb.writes, List.append_assoc]
      rw [hrest, List.take_append_drop]
    have hwaiting : lane'.waiting backend = lane.waiting backend := by
      simp only [waiting, beingWritten, lane', hb.writes, w']
    rw [hstep]
    refine ⟨⟨h.kept.positive,h.kept.size,h.kept.encodes,?_,h.kept.countdown,h.kept.reading,?_⟩,
      .inr ⟨w',rfl,hb.sending,min_le_right _ _,hb.prev,hb.inside⟩⟩
    · rw [hstream]
      exact h.kept.whole
    · rw [Accounted, carried, hstream, hwaiting]
      exact h.kept.accounted

/-- The handler of a write removes what the block carries, and the rest is packed again. -/
theorem sent_inv (h : Inv backend sized lane) :
    Inv backend sized (lane.step backend sized .sent) := by
  rcases h.phase with ⟨-,hi⟩ | ⟨w,hb⟩
  · have hsame : lane.step backend sized .sent = lane := by
      simp [step, hi.writes]
    rw [hsame]
    exact h
  · by_cases hdone : w.transferred = lane.sender.writeBuffer.length
    · obtain ⟨messages,henc⟩ := h.kept.encodes
      let lane' := { lane with
        sender := { lane.sender with
          writes := []
          outgoing := lane.sender.outgoing.cleanup w.toBeRemoved } }
      have hstep : lane.step backend sized .sent = { lane' with
          sender := (lane'.sender.startSendIfNeeded sized (!w.toBeRemoved.isEmpty)).2 } := by
        simp [step, hb.writes, hdone, AsioSending.handleSent, lane']
      have henc' := SerializedMessageStorage.encodes_leave backend henc (bitAt w.toBeRemoved.bits)
        (SerializedMessageStorage.cleanup_messages lane.sender.outgoing.serialized w.toBeRemoved)
      have hnone : lane.unwritten = [] := by
        simp only [unwritten, hb.writes, hdone, List.drop_length]
      have hwaiting : lane'.waiting backend = lane.waiting backend := by
        rw [waiting_idle henc' rfl, waiting_eq henc, beingWritten, hb.writes]
      rw [hstep]
      have hidle : lane'.Idle sized := ⟨rfl,hb.prev.trans_le (Nat.zero_le _)⟩
      have hwhole := h.kept.whole
      have hacc := h.kept.accounted
      rw [hnone] at hwhole
      rw [Accounted, carried, hnone, ← hwaiting] at hacc
      have hkept : lane'.Kept backend sized := ⟨h.kept.positive,h.kept.size,⟨_,henc'⟩,hwhole,
        h.kept.countdown,h.kept.reading,hacc⟩
      exact startSendIfNeeded_inv hkept hidle _
    · have hsame : lane.step backend sized .sent = lane := by
        simp [step, hb.writes, hdone]
      rw [hsame]
      exact h

theorem startReceive_inv (h : Inv backend sized lane) :
    Inv backend sized (lane.step backend sized .startReceive) := by
  by_cases hr : lane.receiver.isRecving = true
  · have hsame : lane.step backend sized .startReceive = lane := by
      simp [step, AsioReceiving.startReceive, hr]
    rw [hsame]
    exact h
  · have hstep : lane.step backend sized .startReceive =
        { lane with receiver := lane.receiver.doStartReceive } := by
      simp [step, AsioReceiving.startReceive, hr]
    rw [hstep]
    refine ⟨⟨h.kept.positive,h.kept.size,h.kept.encodes,h.kept.whole,h.kept.countdown,?_,
      h.kept.accounted⟩,phase_congr h.phase rfl⟩
    simp [AsioReceiving.doStartReceive, h.kept.reading, hr]

/-- What is held after a block has arrived. -/
theorem held_push (now : ℕ) (data : Block) (inbox : Inbox σ) :
    (↑((inbox.step backend sized (.push now data)).held backend sized) : Multiset Received) =
      ↑(inbox.held backend sized)+↑(ConnectionIncomingMessages.decoded backend sized data) := by
  have hacc := Inbox.push_accounted backend sized
    { inbox with received := ↑(inbox.held backend sized), accepted := 0 } now data
    (Multiset.zero_add _).symm
  exact ((Multiset.zero_add _).symm.trans hacc.symm)

/-- The block at the front of the stream goes over to the receiving queue. -/
theorem received_inv (h : Inv backend sized lane) (now : ℕ) :
    Inv backend sized (lane.step backend sized (.received now)) := by
  by_cases hready : lane.receiver.reads ≠ 0 ∧ lane.receiver.readSize ≤ lane.stream.length
  · have hrecving : lane.receiver.isRecving = true := by
      have hreads := hready.1
      rw [h.kept.reading] at hreads
      cases hr : lane.receiver.isRecving with
      | true => rfl
      | false => exact absurd (by rw [hr]; rfl) hreads
    have hreads : lane.receiver.reads = 1 := by rw [h.kept.reading, hrecving]; rfl
    obtain ⟨bs,hbs,hsize⟩ := h.kept.whole
    obtain ⟨b,bs',rfl⟩ : ∃ b bs', bs = b::bs' := by
      cases bs with
      | nil =>
        have hempty := congrArg List.length hbs
        rw [List.length_append, List.flatten_nil, List.length_nil] at hempty
        have hpos := h.kept.positive
        omega
      | cons b bs' => exact ⟨b,bs',rfl⟩
    have hb : b.length = lane.receiver.readSize := hsize b List.mem_cons_self
    have htake : lane.stream.take lane.receiver.readSize = b := by
      have hfront := congrArg (List.take lane.receiver.readSize) hbs
      rwa [List.take_append_of_le_length hready.2, List.flatten_cons, List.take_left' hb] at hfront
    have hdrop : lane.stream.drop lane.receiver.readSize ++ lane.unwritten = bs'.flatten := by
      have hback := congrArg (List.drop lane.receiver.readSize) hbs
      rwa [List.drop_append_of_le_length hready.2, List.flatten_cons, List.drop_left' hb] at hback
    have hrest : ∀ c ∈ bs', c.length = lane.receiver.readSize :=
      fun c hc => hsize c (List.mem_cons_of_mem _ hc)
    let lane' := { lane with
      stream := lane.stream.drop lane.receiver.readSize
      receiver := { lane.receiver with
        incoming := lane.receiver.incoming.push now b
        isRecving := true
        reads := 1 } }
    have hstep : lane.step backend sized (.received now) = lane' := by
      rw [step, if_pos hready, htake]
      simp only [AsioReceiving.handleReceived, AsioReceiving.doStartReceive, hreads, lane']
    rw [hstep]
    refine ⟨⟨h.kept.positive,h.kept.size,h.kept.encodes,⟨bs',hdrop,hrest⟩,h.kept.countdown,rfl,?_⟩,
      phase_congr h.phase rfl⟩
    have hacc := h.kept.accounted
    rw [Accounted, carried, hbs, BlockStream.blocks_flatten h.kept.positive hsize,
      List.flatMap_cons, ← Multiset.coe_add] at hacc
    have hheld : (↑(lane'.inbox.held backend sized) : Multiset Received) =
        ↑(lane.inbox.held backend sized)+↑(ConnectionIncomingMessages.decoded backend sized b) :=
      held_push now b lane.inbox
    have hcarried : lane'.carried backend sized =
        bs'.flatMap (ConnectionIncomingMessages.decoded backend sized) := by
      rw [carried]
      exact congrArg (List.flatMap _)
        ((congrArg _ hdrop).trans (BlockStream.blocks_flatten h.kept.positive hrest))
    rw [Accounted, hheld, hcarried]
    refine hacc.trans ?_
    simp only [add_assoc]
    rfl
  · have hsame : lane.step backend sized (.received now) = lane := if_neg hready
    rw [hsame]
    exact h

/-- What is offered is accepted, dropped or held again. -/
theorem fetch_split (now : ℕ) (handler : FetchHandler σ) :
    (↑(lane.inbox.held backend sized) : Multiset Received) =
      ↑(((lane.inbox.offers backend sized now handler).filter Prod.snd).map Prod.fst)+
      ↑(lane.drops backend sized now handler)+
      ↑((lane.inbox.step backend sized (.fetch now handler)).held backend sized) := by
  by_cases hp : lane.inbox.incoming.packed.messages = []
  · have hf := lane.inbox.fetch_idle backend sized now handler hp
    simp [drops, Inbox.offers, Inbox.step, Inbox.held, hf]
  · obtain ⟨hall,hheld⟩ := lane.inbox.fetch_offers backend sized now handler hp
    rw [← hall, hheld, drops, Multiset.coe_add, Multiset.coe_add, ← List.map_append,
      ← List.map_append]
    refine Multiset.coe_eq_coe.mpr (List.Perm.map _ ?_)
    have htaken := List.filter_append_perm Prod.snd (lane.inbox.offers backend sized now handler)
    have hrefused := List.filter_append_perm (fun o : Received × Bool => o.1.2.tooManyHops)
      ((lane.inbox.offers backend sized now handler).filter fun o => !o.2)
    rw [List.filter_filter, List.filter_filter] at hrefused
    rw [List.append_assoc]
    refine (htaken.symm.trans ((hrefused.symm.append_left _).trans ?_))
    refine List.Perm.append_left _ (List.Perm.append ?_ ?_)
    all_goals exact List.Perm.of_eq (List.filter_congr fun o _ => Bool.and_comm _ _)

theorem fetch_inv (h : Inv backend sized lane) (now : ℕ) (handler : FetchHandler σ) :
    Inv backend sized (lane.step backend sized (.fetch now handler)) := by
  refine ⟨⟨h.kept.positive,h.kept.size,h.kept.encodes,h.kept.whole,h.kept.countdown,
    h.kept.reading,?_⟩,phase_congr h.phase rfl⟩
  have hacc := h.kept.accounted
  rw [Accounted, lane.fetch_split now handler] at hacc
  refine hacc.trans ?_
  change _ = lane.accepted+
    ↑(((lane.inbox.offers backend sized now handler).filter Prod.snd).map Prod.fst)+
    (lane.dropped+↑(lane.drops backend sized now handler))+
    ↑((lane.inbox.step backend sized (.fetch now handler)).held backend sized)+
    ↑(lane.carried backend sized)+↑(lane.waiting backend)
  abel

theorem step_inv (e : AsioLaneEvent σ) (h : Inv backend sized lane) :
    Inv backend sized (lane.step backend sized e) := by
  cases e with
  | send now msgId message => exact send_inv h now msgId message
  | startSend => exact startSend_inv h
  | transfer count => exact transfer_inv h count
  | sent => exact sent_inv h
  | startReceive => exact startReceive_inv h
  | received now => exact received_inv h now
  | fetch now handler => exact fetch_inv h now handler

theorem start_inv (blockSize : ℕ) (hpos : 0 < blockSize) (state : σ) :
    Inv backend sized (start blockSize state) :=
  ⟨⟨hpos,List.length_replicate,⟨[],.nil⟩,⟨[],rfl,nofun⟩,(by decide : (0 : ℤ) ≤ 4),rfl,by
    simp [Accounted, start, inbox, Inbox.held, ConnectionIncomingMessages.arrived, carried,
      unwritten, waiting, leave]⟩,.inl ⟨rfl,rfl,Nat.zero_le _⟩⟩

/-! ## How long packed messages wait -/

theorem Hungry.idle (h : lane.Hungry backend sized) :
    lane.sender.isSending = false ∧ lane.Idle sized :=
  h.inv.phase.resolve_right fun ⟨_,hb⟩ => by
    have hw := hb.writes
    rw [h.writes] at hw
    cases hw

theorem patience_le (h : lane.Inv backend sized) : lane.sender.patience ≤ 68 := by
  have hc := h.kept.countdown
  rw [AsioSending.patience]
  omega

theorem Hungry.startSend (h : lane.Hungry backend sized)
    (hstill : (lane.step backend sized .startSend).sender.writes = []) :
    (lane.step backend sized .startSend).Hungry backend sized ∧
    (lane.step backend sized .startSend).sender.patience < lane.sender.patience := by
  obtain ⟨hsending,hi⟩ := h.idle
  have hinv := startSend_inv h.inv
  have hstep : lane.step backend sized .startSend =
      { lane with sender := (lane.sender.startSendIfNeeded sized false).2 } := by
    simp [step, AsioSending.startSend, hsending]
  rw [hstep] at hstill hinv ⊢
  obtain ⟨hout,hbuf,hcases⟩ := AsioSending.startSendIfNeeded_cases sized false hi.writes hi.prev
  rcases hcases with hstart | hwait
  · have hnone : [({ toBeRemoved := lane.sender.packed sized } : SendOperation)] = [] :=
      hstart.writes.symm.trans hstill
    cases hnone
  · have hlen : (lane.sender.startSendIfNeeded sized false).2.writeBuffer.length =
        lane.sender.writeBuffer.length := by
      rw [hbuf]
      exact SerializedMessageStorage.packInto_length sized _ _
    refine ⟨⟨hinv,hstill,?_⟩,hwait.patience h.packed⟩
    rw [AsioSending.packed_congr sized hout hlen]
    exact h.packed

theorem Hungry.send (h : lane.Hungry backend sized) (now : ℕ) (msgId : MessageId)
    (message : MessageView) :
    (lane.step backend sized (.send now msgId message)).Hungry backend sized ∧
    (lane.step backend sized (.send now msgId message)).sender.patience =
      lane.sender.patience := by
  refine ⟨⟨send_inv h.inv now msgId message,h.writes,?_⟩,rfl⟩
  have hpacked := h.packed
  cases hs : serializeMessage backend msgId message ⟨lane.sender.writeBuffer.length,[]⟩ with
  | none =>
    have hsame : lane.step backend sized (.send now msgId message) = lane := by
      simp [step, AsioSending.send, ConnectionOutgoingMessages.enqueue, hs]
    rw [hsame]
    exact hpacked
  | some sink =>
    refine MessagePackInfo.isEmpty_mono ?_ hpacked
    intro i hbit
    simp only [step, AsioSending.send, ConnectionOutgoingMessages.enqueue, hs]
    exact SerializedMessageStorage.packs_push sized _ _ now sink.done message.priority hbit

/-- While no write starts what fits still fits, and each try leaves it less patience. -/
theorem Hungry.step (h : lane.Hungry backend sized) (e : AsioLaneEvent σ)
    (hstill : (lane.step backend sized e).sender.writes = []) :
    (lane.step backend sized e).Hungry backend sized ∧
    (lane.step backend sized e).sender.patience ≤ lane.sender.patience ∧
    (e.startsSend = true →
      (lane.step backend sized e).sender.patience < lane.sender.patience) := by
  have hinv := step_inv e h.inv
  have hcongr : (lane.step backend sized e).sender = lane.sender →
      (lane.step backend sized e).Hungry backend sized ∧
      (lane.step backend sized e).sender.patience ≤ lane.sender.patience := by
    intro hs
    refine ⟨⟨hinv,hstill,?_⟩,?_⟩
    all_goals rw [hs]
    exact h.packed
  cases e with
  | send now msgId message =>
    obtain ⟨hh,hp⟩ := h.send now msgId message
    exact ⟨hh,hp.le,nofun⟩
  | startSend =>
    obtain ⟨hh,hp⟩ := h.startSend hstill
    exact ⟨hh,hp.le,fun _ => hp⟩
  | transfer count =>
    obtain ⟨hh,hp⟩ := hcongr (by simp [AsioLane.step, h.writes])
    exact ⟨hh,hp,nofun⟩
  | sent =>
    obtain ⟨hh,hp⟩ := hcongr (by simp [AsioLane.step, h.writes])
    exact ⟨hh,hp,nofun⟩
  | startReceive => exact ⟨(hcongr rfl).1,(hcongr rfl).2,nofun⟩
  | received now =>
    obtain ⟨hh,hp⟩ := hcongr (by simp only [AsioLane.step]; split_ifs <;> rfl)
    exact ⟨hh,hp,nofun⟩
  | fetch now handler => exact ⟨(hcongr rfl).1,(hcongr rfl).2,nofun⟩

end Invariant

end AsioLane

/-! ## Both directions -/

inductive AsioPeer where
  | connecting
  | accepting
  deriving DecidableEq

/-- The lanes out of the peers. -/
abbrev AsioLink (σ : Type) := AsioPeer → AsioLane σ

inductive AsioLinkEvent (σ : Type) where
  | send (peer : AsioPeer) (now : ℕ) (msgId : MessageId) (message : MessageView)
  | update (peer : AsioPeer)
  | transfer (peer : AsioPeer) (count : ℕ)
  | sent (peer : AsioPeer)
  | received (peer : AsioPeer) (now : ℕ)
  | fetch (peer : AsioPeer) (now : ℕ) (handler : FetchHandler σ)

/-- What an event does on the lane out of a peer; a peer receives on the other lane. -/
def AsioLinkEvent.lane {σ : Type} (out : AsioPeer) : AsioLinkEvent σ → Option (AsioLaneEvent σ)
  | .send peer now msgId message => if peer = out then some (.send now msgId message) else none
  | .update peer => some (if peer = out then .startSend else .startReceive)
  | .transfer peer count => if peer = out then some (.transfer count) else none
  | .sent peer => if peer = out then some .sent else none
  | .received peer now => if peer = out then none else some (.received now)
  | .fetch peer now handler => if peer = out then none else some (.fetch now handler)

def AsioLinkEvent.updates {σ : Type} (peer : AsioPeer) : AsioLinkEvent σ → Bool
  | .update p => p = peer
  | _ => false

namespace AsioLink

open IncomingFetch

variable {σ : Type} (backend : SerializerBackend) (sized : SizedBlocks)

def step (link : AsioLink σ) (e : AsioLinkEvent σ) : AsioLink σ :=
  fun peer => match e.lane peer with
    | some e => (link peer).step backend sized e
    | none => link peer

def start (blockSize : ℕ) (state : AsioPeer → σ) : AsioLink σ :=
  fun peer => .start blockSize (state peer)

/-- Nothing is lost or doubled, no more than one write and one read are in
progress, and the flags say so. -/
structure Sound (lane : AsioLane σ) : Prop where
  accounted : lane.Accounted backend sized
  writes : lane.sender.writes.length = lane.sender.isSending.toNat
  reads : lane.receiver.reads = lane.receiver.isRecving.toNat

def Inv (link : AsioLink σ) : Prop := ∀ peer, (link peer).Inv backend sized

variable {backend sized}

theorem sound {lane : AsioLane σ} (h : lane.Inv backend sized) : Sound backend sized lane := by
  refine ⟨h.kept.accounted,?_,h.kept.reading⟩
  rcases h.phase with ⟨hsending,hi⟩ | ⟨w,hb⟩
  · rw [hi.writes, hsending]
    rfl
  · rw [hb.writes, hb.sending]
    rfl

theorem start_inv (blockSize : ℕ) (hpos : 0 < blockSize) (state : AsioPeer → σ) :
    Inv backend sized (start blockSize state) :=
  fun peer => AsioLane.start_inv blockSize hpos (state peer)

theorem step_inv (link : AsioLink σ) (e : AsioLinkEvent σ) (h : Inv backend sized link) :
    Inv backend sized (link.step backend sized e) := by
  intro peer
  rw [step]
  cases e.lane peer with
  | none => exact h peer
  | some e => exact AsioLane.step_inv e (h peer)

theorem step_hungry {peer : AsioPeer} (link : AsioLink σ) (e : AsioLinkEvent σ)
    (h : (link peer).Hungry backend sized)
    (hstill : ((link.step backend sized e) peer).sender.writes = []) :
    ((link.step backend sized e) peer).Hungry backend sized ∧
    ((link.step backend sized e) peer).sender.patience ≤ (link peer).sender.patience ∧
    (e.updates peer = true →
      ((link.step backend sized e) peer).sender.patience < (link peer).sender.patience) := by
  simp only [step] at hstill ⊢
  cases he : e.lane peer with
  | none =>
    refine ⟨h,le_rfl,fun hu => ?_⟩
    cases e <;> simp [AsioLinkEvent.updates, AsioLinkEvent.lane] at hu he
  | some e' =>
    rw [he] at hstill
    obtain ⟨hh,hle,hlt⟩ := h.step e' hstill
    refine ⟨hh,hle,fun hu => hlt ?_⟩
    cases e with
    | update p =>
      simp only [AsioLinkEvent.updates, decide_eq_true_eq] at hu
      simp only [AsioLinkEvent.lane, hu, if_true, Option.some.injEq] at he
      rw [← he]
      rfl
    | _ => cases hu

/-- While no write starts, each update takes away some of the patience. -/
theorem updates_le {peer : AsioPeer} {link : AsioLink σ} {es : List (AsioLinkEvent σ)}
    (h : (link peer).Hungry backend sized) (hstill : Steps (step backend sized)
      (fun link e => ((link.step backend sized e) peer).sender.writes = []) link es) :
    es.countP (AsioLinkEvent.updates peer) ≤ 68 := by
  have hcount := countP_of_lowers (fun link : AsioLink σ => (link peer).sender.patience)
    (fun link e (h : (link peer).Hungry backend sized) hs => (step_hungry link e h hs).1)
    (fun link e h hs => (step_hungry link e h hs).2.1)
    (fun link e h hs hu => (step_hungry link e h hs).2.2 hu) h hstill
  exact ((Nat.le_add_right _ _).trans hcount).trans (AsioLane.patience_le h.inv)

end AsioLink

/-- In every state of a run each enqueued message is in just one place: taken
by a handler, dropped (refused after too many hops), held by the receiving peer,
on its way or waiting; no peer has two writes or two reads in progress. When
something fits in the next block at most 68 updates pass without a write. -/
theorem asio_link_reliable {σ : Type} (backend : SerializerBackend) (sized : SizedBlocks)
    (blockSize : ℕ) (hpos : 0 < blockSize) (state : AsioPeer → σ)
    (es : List (AsioLinkEvent σ)) :
    Always (AsioLink.step backend sized)
      (fun link => ∀ peer, AsioLink.Sound backend sized (link peer))
      (AsioLink.start blockSize state) es ∧
    ∀ (peer : AsioPeer) (fs : List (AsioLinkEvent σ)),
      let link := run (AsioLink.step backend sized) (AsioLink.start blockSize state) es
      (link peer).sender.writes = [] → ((link peer).sender.packed sized).isEmpty = false →
      Steps (AsioLink.step backend sized)
        (fun link e => ((link.step backend sized e) peer).sender.writes = []) link fs →
      fs.countP (AsioLinkEvent.updates peer) ≤ 68 := by
  have hstart : AsioLink.Inv backend sized (AsioLink.start blockSize state) :=
    AsioLink.start_inv blockSize hpos state
  refine ⟨always_mono (fun link h peer => AsioLink.sound (h peer))
    (always_of_kept AsioLink.step_inv es hstart),?_⟩
  intro peer fs link hw hpacked hstill
  exact AsioLink.updates_le ⟨run_keeps AsioLink.step_inv hstart peer,hw,hpacked⟩ hstill

/-- A ping is written and taken, a second one is enqueued. -/
def pingsOverLink : List (AsioLinkEvent Unit) :=
  [.send .connecting 0 (msgbusId .ping) { data := [7] },.update .connecting,.update .accepting,
    .transfer .connecting 12,.transfer .connecting 12,.sent .connecting,.received .accepting 1,
    .fetch .accepting 2 IncomingFetch.takeAll,
    .send .connecting 3 (msgbusId .ping) { data := [8] }]

/-- The second ping waits for more messages at the first update. -/
theorem pings_over_link :
    Always (AsioLink.step sampleBackend sampleSized)
      (fun link => ∀ peer, AsioLink.Sound sampleBackend sampleSized (link peer))
      (AsioLink.start 20 fun _ => ()) pingsOverLink ∧
    [AsioLinkEvent.update (σ := Unit) .connecting].countP (AsioLinkEvent.updates .connecting) ≤
      68 := by
  obtain ⟨hsound,hwait⟩ := asio_link_reliable sampleBackend sampleSized 20 (by decide)
    (fun _ => ()) pingsOverLink
  exact ⟨hsound,hwait .connecting _ (by decide) (by decide) ⟨by decide,trivial⟩⟩

end MsgBus
