import MsgBus.MessageSerialization

/-!
# Storages and queues of a connection

A serialized storage holds encoded messages until they are packed into a block
together; a message storage holds decoded ones until a handler takes them. The
outgoing queue of a connection is one serialized storage. The incoming queue
keeps the received blocks in one and the messages unpacked from them in a
message storage. How a sized block is written and read is the business of the
memory library.
-/

set_option autoImplicit false

namespace MsgBus

/-- `store_data_with_size` on a free block of a given size and
`for_each_data_with_size`, with what the packing relies on. -/
structure SizedBlocks where
  storeDataWithSize : Block → ℕ → Option Block
  forEachDataWithSize : Block → List Block
  store_fits : ∀ {data size frame}, storeDataWithSize data size = some frame →
    frame.length ≤ size
  forEach_frame : ∀ {data size frame} rest, data ≠ [] →
    storeDataWithSize data size = some frame →
    forEachDataWithSize (frame ++ rest) = data::forEachDataWithSize rest
  forEach_zeros : ∀ n, ∀ data ∈ forEachDataWithSize (List.replicate n 0), data = []

/-! ## Fetching -/

section Fetch

variable {ε σ : Type} (release : ε → ε) (handler : σ → ε → Bool × σ)

structure Fetched (ε σ : Type) where
  entries : List ε
  fetchedSome : Bool
  clearAll : Bool
  state : σ

/-- The loop of the two `fetch_all`: what the handler takes is released. -/
def fetchEntries : List ε → σ → Fetched ε σ
  | [], st => ⟨[],false,true,st⟩
  | e::es, st =>
    let (taken,st) := handler st e
    let rest := fetchEntries es st
    if taken then ⟨release e::rest.entries,true,rest.clearAll,rest.state⟩
    else ⟨e::rest.entries,rest.fetchedSome,false,rest.state⟩

def fetchAllEntries (erased : ε → Bool) (es : List ε) (st : σ) : List ε × Bool × σ :=
  let fetched := fetchEntries release handler es st
  (if fetched.clearAll then [] else fetched.entries.filter fun e => !erased e,
    fetched.fetchedSome,fetched.state)

theorem fetchAllEntries_kept (erased : ε → Bool) (es : List ε) (st : σ) :
    ∀ e ∈ (fetchAllEntries release handler erased es st).1, erased e = false := by
  intro e he
  simp only [fetchAllEntries] at he
  split_ifs at he
  · cases he
  · simpa using (List.mem_filter.mp he).2

/-- The entries that the handler takes, those it refuses and its final state. -/
def handled : List ε → σ → List ε × List ε × σ
  | [], st => ([],[],st)
  | e::es, st =>
    let (taken,st) := handler st e
    let (accepted,refused,st) := handled es st
    if taken then (e::accepted,refused,st) else (accepted,e::refused,st)

theorem fetchEntries_handled (es : List ε) (st : σ) :
    (fetchEntries release handler es st).fetchedSome = !(handled handler es st).1.isEmpty ∧
    (fetchEntries release handler es st).clearAll = (handled handler es st).2.1.isEmpty ∧
    (fetchEntries release handler es st).state = (handled handler es st).2.2 := by
  induction es generalizing st with
  | nil => exact ⟨rfl,rfl,rfl⟩
  | cons e es ih =>
    obtain ⟨hs,hc,hst⟩ := ih (handler st e).2
    simp only [fetchEntries, handled]
    split_ifs
    · exact ⟨rfl,hc,hst⟩
    · exact ⟨hs,rfl,hst⟩

theorem fetchEntries_filter (erased : ε → Bool) (hr : ∀ e, erased (release e) = true)
    (es : List ε) (st : σ) :
    (fetchEntries release handler es st).entries.filter (fun e => !erased e) =
      (handled handler es st).2.1.filter fun e => !erased e := by
  induction es generalizing st with
  | nil => rfl
  | cons e es ih =>
    simp only [fetchEntries, handled]
    split_ifs
    · simp only [List.filter_cons, hr, Bool.not_true, Bool.false_eq_true, if_false, ih]
    · simp only [List.filter_cons, ih]

theorem fetchEntries_countP (erased : ε → Bool) (hr : ∀ e, erased (release e) = true)
    (es : List ε) (st : σ) :
    (fetchEntries release handler es st).entries.countP erased =
      (handled handler es st).1.length + (handled handler es st).2.1.countP erased := by
  induction es generalizing st with
  | nil => rfl
  | cons e es ih =>
    simp only [fetchEntries, handled]
    split_ifs
    · rw [List.countP_cons, ih, hr, if_pos rfl]
      exact Nat.add_right_comm _ _ 1
    · rw [List.countP_cons, ih, List.countP_cons]
      exact Nat.add_assoc _ _ _

/-- A fetch keeps the refused entries that the predicate does not erase. -/
theorem fetchAllEntries_eq (erased : ε → Bool) (hr : ∀ e, erased (release e) = true)
    (es : List ε) (st : σ) : fetchAllEntries release handler erased es st =
      ((handled handler es st).2.1.filter (fun e => !erased e),
        !(handled handler es st).1.isEmpty,(handled handler es st).2.2) := by
  obtain ⟨hs,hc,hst⟩ := fetchEntries_handled release handler es st
  simp only [fetchAllEntries, hs, hc, hst, fetchEntries_filter release handler erased hr]
  by_cases h : (handled handler es st).2.1 = []
  · simp [h]
  · simp [h]

/-- The handler is given each entry once, in order. -/
theorem handled_state (es : List ε) (st : σ) :
    (handled handler es st).2.2 = es.foldl (fun st e => (handler st e).2) st := by
  induction es generalizing st with
  | nil => rfl
  | cons e es ih =>
    simp only [handled, List.foldl_cons]
    split_ifs <;> exact ih _

/-- The refused entries keep their order. -/
theorem handled_refused_sublist (es : List ε) (st : σ) :
    (handled handler es st).2.1.Sublist es := by
  induction es generalizing st with
  | nil => exact List.Sublist.refl []
  | cons e es ih =>
    simp only [handled]
    split_ifs
    · exact (ih _).cons e
    · exact (ih _).cons_cons e

theorem handled_length (es : List ε) (st : σ) :
    (handled handler es st).1.length+(handled handler es st).2.1.length = es.length := by
  induction es generalizing st with
  | nil => rfl
  | cons e es ih =>
    rw [List.length_cons, ← ih (handler st e).2]
    simp only [handled]
    split_ifs
    · exact Nat.add_right_comm _ 1 _
    · exact (Nat.add_assoc _ _ 1).symm

/-- A handler that takes everything is given each entry once, in order. -/
theorem handled_all (h : ∀ st e, (handler st e).1 = true) (es : List ε) (st : σ) :
    handled handler es st = (es,[],es.foldl (fun st e => (handler st e).2) st) := by
  induction es generalizing st with
  | nil => rfl
  | cons e es ih => simp only [handled, h, if_true, ih, List.foldl_cons]

end Fetch

/-! ## Message storage -/

structure StoredMessage where
  msgId : MessageId
  message : MessageView
  insertTime : ℕ
  deriving DecidableEq, Repr

namespace StoredMessage

/-- The time since the insertion, in hundredths of a second. -/
def age (entry : StoredMessage) (now : ℕ) : MessageAge :=
  Int16.ofNat ((now-entry.insertTime)/10)

def release (entry : StoredMessage) : StoredMessage :=
  { entry with message := { entry.message with hopCount := 64, data := [] } }

theorem release_tooManyHops (entry : StoredMessage) :
    (release entry).message.tooManyHops = true := rfl

end StoredMessage

structure MessageStorage where
  messages : List StoredMessage := []
  deriving DecidableEq, Repr

abbrev FetchHandler (σ : Type) := σ → MessageId → MessageAge → MessageView → Bool × σ

namespace MessageStorage

/-- The function fills a new message; without a result it is rolled back. -/
def pushIf (storage : MessageStorage) (function : Option StoredMessage) : MessageStorage :=
  match function with
  | some entry => ⟨storage.messages ++ [entry]⟩
  | none => storage

def fetchAll {σ : Type} (now : ℕ) (handler : FetchHandler σ) (storage : MessageStorage) (st : σ) :
    Bool × MessageStorage × σ :=
  let (messages,fetchedSome,st) := fetchAllEntries StoredMessage.release
    (fun st entry => handler st entry.msgId (entry.age now) entry.message)
    (fun entry => entry.message.tooManyHops) storage.messages st
  (fetchedSome,⟨messages⟩,st)

end MessageStorage

/-! ## Packing -/

structure MessagePackInfo where
  packedBits : UInt64 := 0
  packedSize : UInt16 := 0
  totalSize : UInt16
  maxPriority : MessagePriority := .idle
  deriving DecidableEq, Repr

namespace MessagePackInfo

def ofSize (totalSize : ℕ) : MessagePackInfo := { totalSize := UInt16.ofNat totalSize }

def isEmpty (info : MessagePackInfo) : Bool := info.packedBits = 0

def bits (info : MessagePackInfo) : UInt64 := info.packedBits

def used (info : MessagePackInfo) : ℕ := info.packedSize.toNat

def add (info : MessagePackInfo) (msgSize : ℕ) (priority : MessagePriority)
    (currentBit : UInt64) : MessagePackInfo :=
  { info with
    packedSize := info.packedSize+UInt16.ofNat msgSize
    packedBits := info.packedBits ||| currentBit
    maxPriority := info.maxPriority.max priority }

end MessagePackInfo

/-- The free rest of the destination, behind what has been written to it. -/
structure MessagePackingContext where
  currentBit : UInt64 := 1
  done : Block := []
  blk : Block
  info : MessagePackInfo

namespace MessagePackingContext

def ofBlock (blk : Block) : MessagePackingContext := { blk := blk, info := .ofSize blk.length }

def isFull (packing : MessagePackingContext) : Bool := packing.currentBit = 0

def add (packing : MessagePackingContext) (frame : Block) (priority : MessagePriority) :
    MessagePackingContext :=
  { packing with
    done := packing.done ++ frame
    blk := packing.blk.drop frame.length
    info := packing.info.add frame.length priority packing.currentBit }

def next (packing : MessagePackingContext) : MessagePackingContext :=
  { packing with currentBit := packing.currentBit <<< 1 }

def finalize (packing : MessagePackingContext) : Block :=
  packing.done ++ List.replicate packing.blk.length 0

end MessagePackingContext

structure SerializedMessage where
  buffer : Block
  timestamp : ℕ
  priority : MessagePriority
  deriving DecidableEq, Repr

structure SerializedMessageStorage where
  messages : List SerializedMessage := []
  stored : ∀ entry ∈ messages, entry.buffer ≠ [] := by simp

namespace SerializedMessageStorage

variable (sized : SizedBlocks)

/-- The buffer of a taken entry is moved to the pool. -/
def eaten (entry : SerializedMessage) : SerializedMessage := { entry with buffer := [] }

/-- What `std::erase_if` leaves of entries whose buffers may have been eaten. -/
def eraseEmpty (entries : List SerializedMessage) : SerializedMessageStorage where
  messages := entries.filter fun entry => !entry.buffer.isEmpty
  stored := by simp

def push (storage : SerializedMessageStorage) (now : ℕ) (message : Block)
    (priority : MessagePriority) : SerializedMessageStorage :=
  if h : message = [] then storage
  else
    ⟨storage.messages ++ [⟨message,now,priority⟩],by
      intro entry he
      rcases List.mem_append.mp he with he | he
      · exact storage.stored entry he
      · rw [List.mem_singleton.mp he]
        exact h⟩

def fetchAll {σ : Type} (handler : σ → ℕ → MessagePriority → Block → Bool × σ)
    (storage : SerializedMessageStorage) (st : σ) : Bool × SerializedMessageStorage × σ :=
  let handle := fun st (entry : SerializedMessage) =>
    handler st entry.timestamp entry.priority entry.buffer
  let fetched := fetchAllEntries eaten handle (fun entry => entry.buffer.isEmpty)
    storage.messages st
  (fetched.2.1,⟨fetched.1,fun entry he => by
    have h := fetchAllEntries_kept eaten handle _ storage.messages st entry he
    simpa using h⟩,fetched.2.2)

def packMessage (entry : SerializedMessage) (packing : MessagePackingContext) :
    MessagePackingContext :=
  match sized.storeDataWithSize entry.buffer packing.blk.length with
  | some packed => packing.add packed entry.priority
  | none => packing

def packMessages : List SerializedMessage → MessagePackingContext → MessagePackingContext
  | [], packing => packing
  | entry::entries, packing =>
    if packing.isFull then packing
    else packMessages entries (packMessage sized entry packing).next

def packInto (storage : SerializedMessageStorage) (dest : Block) : MessagePackInfo × Block :=
  let packing := packMessages sized storage.messages (.ofBlock dest)
  (packing.info,packing.finalize)

/-- The buffers at the positions of the set bits are eaten. -/
def eatPacked (toBeRemoved : UInt64) : List SerializedMessage → List SerializedMessage
  | [] => []
  | entry::entries =>
    (if toBeRemoved &&& 1 = 1 then eaten entry else entry)::
      eatPacked (toBeRemoved >>> 1) entries

def cleanup (storage : SerializedMessageStorage) (packed : MessagePackInfo) :
    SerializedMessageStorage :=
  if packed.bits ≠ 0 then eraseEmpty (eatPacked packed.bits storage.messages) else storage

end SerializedMessageStorage

/-! ## Queues of a connection -/

structure ConnectionOutgoingMessages where
  serialized : SerializedMessageStorage := {}

namespace ConnectionOutgoingMessages

variable (backend : SerializerBackend)

/-- The temporary block is given by its size. -/
def enqueue (outgoing : ConnectionOutgoingMessages) (now : ℕ) (msgId : MessageId)
    (message : MessageView) (temp : ℕ) : Bool × ConnectionOutgoingMessages :=
  match serializeMessage backend msgId message ⟨temp,[]⟩ with
  | some sink => (true,⟨outgoing.serialized.push now sink.done message.priority⟩)
  | none => (false,outgoing)

def packInto (sized : SizedBlocks) (outgoing : ConnectionOutgoingMessages) (dest : Block) :
    MessagePackInfo × Block :=
  outgoing.serialized.packInto sized dest

def cleanup (outgoing : ConnectionOutgoingMessages) (packed : MessagePackInfo) :
    ConnectionOutgoingMessages :=
  ⟨outgoing.serialized.cleanup packed⟩

end ConnectionOutgoingMessages

structure ConnectionIncomingMessages where
  packed : SerializedMessageStorage := {}
  unpacked : MessageStorage := {}

namespace ConnectionIncomingMessages

variable (backend : SerializerBackend) (sized : SizedBlocks)

def push (incoming : ConnectionIncomingMessages) (now : ℕ) (data : Block) :
    ConnectionIncomingMessages :=
  { incoming with packed := incoming.packed.push now data .normal }

/-- One sized block of received data becomes a message if it can be decoded. -/
def unpackBlock (dataTs : ℕ) (unpacked : MessageStorage) (blk : Block) : MessageStorage :=
  if blk.isEmpty then unpacked
  else unpacked.pushIf ((deserializeMessage backend {} blk).map fun (msgId,message) =>
    ⟨msgId,message,dataTs⟩)

def unpacker (unpacked : MessageStorage) (dataTs : ℕ) (_ : MessagePriority) (data : Block) :
    Bool × MessageStorage :=
  (true,(sized.forEachDataWithSize data).foldl (unpackBlock backend dataTs) unpacked)

/-- The result is always false. -/
def fetchMessages {σ : Type} (now : ℕ) (handler : FetchHandler σ)
    (incoming : ConnectionIncomingMessages) (st : σ) : Bool × ConnectionIncomingMessages × σ :=
  let (fetched,packed,unpacked) := incoming.packed.fetchAll (unpacker backend sized)
    incoming.unpacked
  if fetched then
    let (_,unpacked,st) := unpacked.fetchAll now handler st
    (false,⟨packed,unpacked⟩,st)
  else (false,⟨packed,unpacked⟩,st)

/-- The messages in a received block, as far as they can be decoded. -/
def decoded (data : Block) : List (MessageId × MessageView) :=
  (sized.forEachDataWithSize data).filterMap fun blk =>
    if blk.isEmpty then none else deserializeMessage backend {} blk

theorem decoded_nil : decoded backend sized [] = [] := by
  rw [decoded, List.filterMap_eq_nil_iff]
  intro blk hb
  rw [sized.forEach_zeros 0 blk hb]
  rfl

/-- The messages in the blocks that were not unpacked yet. -/
def arrived (incoming : ConnectionIncomingMessages) : List StoredMessage :=
  incoming.packed.messages.flatMap fun entry =>
    (decoded backend sized entry.buffer).map fun m => ⟨m.1,m.2,entry.timestamp⟩

theorem unpacker_messages (unpacked : MessageStorage) (dataTs : ℕ) (priority : MessagePriority)
    (data : Block) : (unpacker backend sized unpacked dataTs priority data).2.messages =
      unpacked.messages ++ (decoded backend sized data).map fun m => ⟨m.1,m.2,dataTs⟩ := by
  simp only [unpacker, decoded]
  generalize sized.forEachDataWithSize data = blocks
  induction blocks generalizing unpacked with
  | nil => exact (List.append_nil _).symm
  | cons blk blocks ih =>
    rw [List.foldl_cons, ih, List.filterMap_cons]
    by_cases hb : blk.isEmpty = true
    · simp only [unpackBlock, hb, if_true]
    · cases hd : deserializeMessage backend {} blk with
      | none => simp only [unpackBlock, hb, Bool.false_eq_true, if_false, hd, Option.map_none,
          MessageStorage.pushIf]
      | some m => simp only [unpackBlock, hb, Bool.false_eq_true, if_false, hd, Option.map_some,
          MessageStorage.pushIf, List.map_cons, List.append_assoc, List.singleton_append]

/-- Unpacking empties the first storage and appends to the second. -/
theorem fetchAll_unpacker (incoming : ConnectionIncomingMessages) :
    incoming.packed.fetchAll (unpacker backend sized) incoming.unpacked =
      (!incoming.packed.messages.isEmpty,{},
        ⟨incoming.unpacked.messages ++ incoming.arrived backend sized⟩) := by
  have hfold (entries : List SerializedMessage) (unpacked : MessageStorage) :
      entries.foldl (fun st e =>
          (unpacker backend sized st e.timestamp e.priority e.buffer).2) unpacked =
        ⟨unpacked.messages ++ entries.flatMap fun entry =>
          (decoded backend sized entry.buffer).map fun m => ⟨m.1,m.2,entry.timestamp⟩⟩ := by
    induction entries generalizing unpacked with
    | nil => simp
    | cons entry entries ih =>
      rw [List.foldl_cons, ih, unpacker_messages, List.append_assoc, List.flatMap_cons]
  have h := fetchAllEntries_eq SerializedMessageStorage.eaten
    (fun st (entry : SerializedMessage) =>
      unpacker backend sized st entry.timestamp entry.priority entry.buffer)
    (fun entry => entry.buffer.isEmpty) (fun _ => rfl) incoming.packed.messages
    incoming.unpacked
  rw [handled_all _ (fun _ _ => rfl), hfold] at h
  simp only [SerializedMessageStorage.fetchAll, h, arrived, List.filter_nil]

variable {σ : Type} (now : ℕ) (handler : FetchHandler σ)

/-- The handler is offered what was unpacked before and what has arrived, but
only if something has arrived. -/
theorem fetchMessages_eq (incoming : ConnectionIncomingMessages) (st : σ) :
    incoming.fetchMessages backend sized now handler st =
      if incoming.packed.messages = [] then (false,incoming,st)
      else
        let (_,refused,st) := handled
          (fun st (entry : StoredMessage) => handler st entry.msgId (entry.age now) entry.message)
          (incoming.unpacked.messages ++ incoming.arrived backend sized) st
        (false,⟨{},⟨refused.filter fun entry => !entry.message.tooManyHops⟩⟩,st) := by
  simp only [fetchMessages, fetchAll_unpacker]
  split_ifs with hs hp hp
  · simp [hp] at hs
  · simp only [MessageStorage.fetchAll, fetchAllEntries_eq StoredMessage.release _
      (fun entry : StoredMessage => entry.message.tooManyHops)
      StoredMessage.release_tooManyHops]
  · obtain ⟨⟨packed,_⟩,unpacked⟩ := incoming
    simp only at hp
    subst hp
    simp [arrived]
  · simp [hp] at hs

end ConnectionIncomingMessages

end MsgBus
