import Mathlib.Data.List.ReduceOption
import MsgBus.Lib.IndexSelect
import MsgBus.SampleSerializer

/-!
# Packing, cleaning up and unpacking

Packing tries the messages of the storage in turn on what is left of the
destination. The bit of a message is set exactly if its frame was written, so
cleaning up removes what was packed and unpacking gives the same messages back
in the order of the storage.
-/

set_option autoImplicit false

namespace MsgBus

open IndexSelect

/-! ## Bits -/

def bitAt (bits : UInt64) (i : ℕ) : Bool := bits.toNat.testBit i

theorem bitAt_zero (bits : UInt64) : bits &&& 1 = 1 ↔ bitAt bits 0 = true := by
  rw [← UInt64.toNat_inj, UInt64.toNat_and]
  simp [bitAt]

theorem bitAt_shift (bits : UInt64) (i : ℕ) : bitAt (bits >>> 1) i = bitAt bits (i+1) := by
  simp [bitAt, Nat.testBit_shiftRight, Nat.add_comm 1]

theorem bitAt_empty (i : ℕ) : bitAt 0 i = false := by simp [bitAt]

theorem bitAt_or (l r : UInt64) (i : ℕ) : bitAt (l ||| r) i = (bitAt l i || bitAt r i) := by
  simp [bitAt]

theorem bitAt_power {bits : UInt64} {k : ℕ} (h : bits.toNat = 2^k%2^64) (i : ℕ) :
    bitAt bits i = decide (i = k ∧ k < 64) := by
  rw [bitAt, h, Nat.testBit_mod_two_pow, Nat.testBit_two_pow]
  by_cases hk : k = i
  · simp [hk]
  · simp [hk, Ne.symm hk]

theorem power_shift {bits : UInt64} {k : ℕ} (h : bits.toNat = 2^k%2^64) :
    (bits <<< 1).toNat = 2^(k+1)%2^64 := by
  simp only [UInt64.toNat_shiftLeft, h]
  simp [Nat.shiftLeft_eq, Nat.pow_succ]

theorem power_eq_zero {bits : UInt64} {k : ℕ} (h : bits.toNat = 2^k%2^64) :
    bits = 0 ↔ 64 ≤ k := by
  rw [← UInt64.toNat_inj, h]
  constructor
  · intro hz
    by_contra hk
    rw [Nat.mod_eq_of_lt (Nat.pow_lt_pow_right (by decide) (by omega))] at hz
    exact absurd hz (Nat.pos_iff_ne_zero.mp (Nat.two_pow_pos k))
  · intro hk
    exact Nat.mod_eq_zero_of_dvd (Nat.pow_dvd_pow 2 hk)

/-! ## What is written -/

/-- The frames of the blocks that are tried in turn on the free rest. -/
def written (sized : SizedBlocks) : ℕ → List Block → List (Option Block)
  | _, [] => []
  | free, data::blocks =>
    let frame := sized.storeDataWithSize data free
    frame::written sized (free-(frame.getD []).length) blocks

theorem frames_cons (frame : Option Block) (frames : List (Option Block)) :
    (frame::frames).reduceOption.flatten = frame.getD [] ++ frames.reduceOption.flatten := by
  cases frame <;> rfl

variable (sized : SizedBlocks)

theorem written_length (free : ℕ) (blocks : List Block) :
    (written sized free blocks).length = blocks.length := by
  induction blocks generalizing free with
  | nil => rfl
  | cons data blocks ih => simp only [written, List.length_cons, ih]

theorem written_fits (free : ℕ) (blocks : List Block) :
    (written sized free blocks).reduceOption.flatten.length ≤ free := by
  induction blocks generalizing free with
  | nil => simp [written]
  | cons data blocks ih =>
    have hf : ((sized.storeDataWithSize data free).getD []).length ≤ free := by
      cases h : sized.storeDataWithSize data free with
      | none => exact Nat.zero_le free
      | some frame => exact sized.store_fits h
    have hr := ih (free-((sized.storeDataWithSize data free).getD []).length)
    rw [written, frames_cons, List.length_append]
    omega

/-- The blocks whose frames were written are read back from the frames. -/
theorem forEach_written (free : ℕ) (blocks : List Block) (hne : ∀ data ∈ blocks, data ≠ [])
    {p : ℕ → Bool} (hp : ∀ i, p i = ((written sized free blocks)[i]?.join).isSome)
    (rest : Block) : sized.forEachDataWithSize
        ((written sized free blocks).reduceOption.flatten ++ rest) =
      pick p blocks ++ sized.forEachDataWithSize rest := by
  induction blocks generalizing free p with
  | nil => rfl
  | cons data blocks ih =>
    have hrest : ∀ data ∈ blocks, data ≠ [] := fun d hd => hne d (List.mem_cons_of_mem _ hd)
    have hnext (i : ℕ) := hp (i+1)
    have hfirst := hp 0
    simp only [written, List.getElem?_cons_succ] at hnext
    simp only [written, List.getElem?_cons_zero, Option.join_some] at hfirst
    simp only [written, pick]
    cases h : sized.storeDataWithSize data free with
    | none =>
      rw [h] at hnext hfirst
      rw [List.reduceOption_cons_of_none, ih _ hrest hnext, hfirst]
      rfl
    | some frame =>
      rw [h] at hnext hfirst
      rw [List.reduceOption_cons_of_some, List.flatten_cons, List.append_assoc,
        sized.forEach_frame _ (hne data List.mem_cons_self) h, ih _ hrest hnext, hfirst]
      rfl

theorem used_mod (info : MessagePackInfo) : info.used%65536 = info.used :=
  Nat.mod_eq_of_lt (UInt16.toNat_lt _)

theorem packMessage_written (entry : SerializedMessage) (packing : MessagePackingContext)
    {k : ℕ} (hbit : packing.currentBit.toNat = 2^k%2^64) :
    let frame := sized.storeDataWithSize entry.buffer packing.blk.length
    let packed := SerializedMessageStorage.packMessage sized entry packing
    (∀ i, bitAt packed.info.bits i =
      (bitAt packing.info.bits i || (decide (i = k ∧ k < 64) && frame.isSome))) ∧
    packed.currentBit = packing.currentBit ∧
    packed.done = packing.done ++ frame.getD [] ∧
    packed.blk.length = packing.blk.length-(frame.getD []).length ∧
    packed.info.used = (packing.info.used+(frame.getD []).length)%2^16 := by
  cases h : sized.storeDataWithSize entry.buffer packing.blk.length with
  | none =>
    simp [SerializedMessageStorage.packMessage, h, used_mod]
  | some frame =>
    simp [SerializedMessageStorage.packMessage, h, MessagePackingContext.add,
      MessagePackInfo.add, MessagePackInfo.bits, MessagePackInfo.used, bitAt_or,
      bitAt_power hbit]

/-- What the loop does from any position on: the bits from there on tell
which frames were written behind what was written before. -/
theorem packMessages_written (entries : List SerializedMessage) (packing : MessagePackingContext)
    {k : ℕ} (hbit : packing.currentBit.toNat = 2^k%2^64) :
    let frames := written sized packing.blk.length ((entries.map (·.buffer)).take (64-k))
    let packed := SerializedMessageStorage.packMessages sized entries packing
    (∀ i, bitAt packed.info.bits i =
      (bitAt packing.info.bits i || (decide (k ≤ i) && (frames[i-k]?.join).isSome))) ∧
    packed.done = packing.done ++ frames.reduceOption.flatten ∧
    packed.blk.length = packing.blk.length-frames.reduceOption.flatten.length ∧
    packed.info.used = (packing.info.used+frames.reduceOption.flatten.length)%2^16 := by
  induction entries generalizing packing k with
  | nil => simp [SerializedMessageStorage.packMessages, written, used_mod]
  | cons entry entries ih =>
    by_cases hfull : 64 ≤ k
    · have h0 : packing.isFull = true := by
        simpa [MessagePackingContext.isFull] using (power_eq_zero hbit).mpr hfull
      simp [SerializedMessageStorage.packMessages, written, h0, used_mod,
        Nat.sub_eq_zero_of_le hfull]
    · have h0 : packing.isFull = false := by
        simpa [MessagePackingContext.isFull] using mt (power_eq_zero hbit).mp hfull
      obtain ⟨hb,hc,hd,hl,hu⟩ := packMessage_written sized entry packing hbit
      have hnext : (SerializedMessageStorage.packMessage sized entry packing).next.currentBit.toNat
          = 2^(k+1)%2^64 := by
        rw [MessagePackingContext.next, hc]
        exact power_shift hbit
      obtain ⟨ihb,ihd,ihl,ihu⟩ := ih _ hnext
      have hr : 64-k = 64-(k+1)+1 := by omega
      simp only [MessagePackingContext.next] at ihb ihd ihl ihu
      rw [hl] at ihb ihd ihl ihu
      simp only [SerializedMessageStorage.packMessages, h0, Bool.false_eq_true, if_false,
        List.map_cons, hr, List.take_succ_cons, written, MessagePackingContext.next, frames_cons,
        List.length_append]
      refine ⟨?_,?_,?_,?_⟩
      · intro i
        rw [ihb, hb]
        rcases lt_trichotomy i k with hi | rfl | hi
        · simp [Nat.not_le.mpr hi, Nat.ne_of_lt hi, show ¬ k+1 ≤ i by omega]
        · simp [show i < 64 by omega, show ¬ i+1 ≤ i by omega]
        · obtain ⟨j,rfl⟩ : ∃ j, i = k+1+j := ⟨i-(k+1),by omega⟩
          simp [show k+1+j ≠ k by omega, show k ≤ k+1+j by omega, show k+1+j-k = j+1 by omega]
      · rw [ihd, hd, List.append_assoc]
      · omega
      · rw [ihu, hu]
        omega

namespace SerializedMessageStorage

/-- The message at a position was chosen for the block. -/
def packs (storage : SerializedMessageStorage) (dest : Block) (i : ℕ) : Bool :=
  bitAt (storage.packInto sized dest).1.bits i

/-- The frames in the destination, one for each of the first 64 messages. -/
def frames (storage : SerializedMessageStorage) (dest : Block) : List (Option Block) :=
  written sized dest.length ((storage.messages.map (·.buffer)).take 64)

variable (storage : SerializedMessageStorage) (dest : Block)

theorem packs_iff (i : ℕ) :
    storage.packs sized dest i = ((storage.frames sized dest)[i]?.join).isSome := by
  have h := (packMessages_written sized storage.messages (.ofBlock dest) (k := 0) rfl).1 i
  simpa [packs, packInto, frames, MessagePackingContext.ofBlock, MessagePackInfo.ofSize,
    MessagePackInfo.bits, bitAt_empty] using h

theorem packInto_used (hd : dest.length < 2^16) : (storage.packInto sized dest).1.used =
    (storage.frames sized dest).reduceOption.flatten.length := by
  obtain ⟨-,-,-,h⟩ := packMessages_written sized storage.messages (.ofBlock dest) (k := 0) rfl
  have hfits := written_fits sized dest.length ((storage.messages.map (·.buffer)).take 64)
  have h0 : (MessagePackingContext.ofBlock dest).info.used = 0 := rfl
  rw [h0, Nat.zero_add] at h
  exact h.trans (Nat.mod_eq_of_lt (hfits.trans_lt hd))

theorem packInto_dest : (storage.packInto sized dest).2 =
    (storage.frames sized dest).reduceOption.flatten ++
      List.replicate (dest.length-(storage.frames sized dest).reduceOption.flatten.length) 0 := by
  obtain ⟨-,h,hl,-⟩ := packMessages_written sized storage.messages (.ofBlock dest) (k := 0) rfl
  simp only [packInto, MessagePackingContext.finalize, h, hl]
  rfl

/-- Packing looks at the size of the destination only. -/
theorem packMessages_congr (entries : List SerializedMessage) {a b : MessagePackingContext}
    (hbit : a.currentBit = b.currentBit) (hinfo : a.info = b.info) (hdone : a.done = b.done)
    (hblk : a.blk.length = b.blk.length) :
    (packMessages sized entries a).info = (packMessages sized entries b).info ∧
    (packMessages sized entries a).done = (packMessages sized entries b).done ∧
    (packMessages sized entries a).blk.length = (packMessages sized entries b).blk.length := by
  induction entries generalizing a b with
  | nil => exact ⟨hinfo,hdone,hblk⟩
  | cons entry entries ih =>
    have hfull : a.isFull = b.isFull := by
      rw [MessagePackingContext.isFull, hbit, MessagePackingContext.isFull]
    rw [packMessages, packMessages, hfull]
    split_ifs with h
    · exact ⟨hinfo,hdone,hblk⟩
    · have hnext : a.currentBit <<< 1 = b.currentBit <<< 1 := by rw [hbit]
      simp only [packMessage, hblk]
      cases sized.storeDataWithSize entry.buffer b.blk.length with
      | none => exact ih hnext hinfo hdone hblk
      | some frame =>
        refine ih hnext ?_ ?_ ?_
        · simp only [MessagePackingContext.next, MessagePackingContext.add, hbit, hinfo]
        · simp only [MessagePackingContext.next, MessagePackingContext.add, hdone]
        · simp only [MessagePackingContext.next, MessagePackingContext.add, List.length_drop, hblk]

theorem packInto_congr {dest dest' : Block} (h : dest.length = dest'.length) :
    storage.packInto sized dest = storage.packInto sized dest' := by
  obtain ⟨hinfo,hdone,hblk⟩ := packMessages_congr sized storage.messages
    (a := .ofBlock dest) (b := .ofBlock dest') rfl
    (congrArg MessagePackInfo.ofSize h) rfl h
  rw [packInto, packInto, MessagePackingContext.finalize, MessagePackingContext.finalize, hinfo,
    hdone, hblk]

theorem packInto_length : (storage.packInto sized dest).2.length = dest.length := by
  have hfits := written_fits sized dest.length ((storage.messages.map (·.buffer)).take 64)
  rw [packInto_dest, List.length_append, List.length_replicate]
  exact Nat.add_sub_of_le hfits

/-- A chosen message is one of the first 64. -/
theorem packs_inside {i : ℕ} (h : storage.packs sized dest i = true) :
    i < storage.messages.length ∧ i < 64 := by
  rw [packs_iff] at h
  have hlt : i < (storage.frames sized dest).length := by
    by_contra hge
    rw [List.getElem?_eq_none (Nat.not_lt.mp hge)] at h
    exact absurd h (by decide)
  rw [frames, written_length, List.length_take, List.length_map] at hlt
  omega

/-! ## Cleaning up -/

theorem eatPacked_erased (bits : UInt64) (entries : List SerializedMessage)
    (hne : ∀ entry ∈ entries, entry.buffer ≠ []) :
    (eatPacked bits entries).filter (fun entry => !entry.buffer.isEmpty) =
      leave (bitAt bits) entries := by
  induction entries generalizing bits with
  | nil => rfl
  | cons entry entries ih =>
    have hrest := ih (bits >>> 1) fun e he => hne e (List.mem_cons_of_mem _ he)
    rw [show bitAt (bits >>> 1) = fun i => bitAt bits (i+1) from funext (bitAt_shift bits)] at hrest
    have hentry := hne entry List.mem_cons_self
    simp only [eatPacked, bitAt_zero, leave]
    split_ifs with h
    · simpa [eaten] using hrest
    · simpa [hentry] using hrest

theorem cleanup_messages (packed : MessagePackInfo) :
    (storage.cleanup packed).messages = leave (bitAt packed.bits) storage.messages := by
  unfold cleanup
  split_ifs with h
  · exact eatPacked_erased packed.bits storage.messages storage.stored
  · rw [not_not.mp h]
    exact (leave_none _ bitAt_empty).symm

/-- Several messages are pushed one after the other. -/
def pushAll (later : List SerializedMessage) : SerializedMessageStorage :=
  later.foldl (fun storage entry =>
    storage.push entry.timestamp entry.buffer entry.priority) storage

theorem push_messages (now : ℕ) (message : Block) (priority : MessagePriority) :
    (storage.push now message priority).messages =
      storage.messages ++ if message = [] then [] else [⟨message,now,priority⟩] := by
  unfold push
  split_ifs <;> simp

theorem pushAll_messages (later : List SerializedMessage) :
    (storage.pushAll later).messages =
      storage.messages ++ later.filter (fun entry => !entry.buffer.isEmpty) := by
  induction later generalizing storage with
  | nil => exact (List.append_nil _).symm
  | cons entry later ih =>
    rw [pushAll, List.foldl_cons, ← pushAll, ih, push_messages, List.append_assoc]
    by_cases h : entry.buffer = [] <;> simp [h]

/-- What was pushed after the packing stays behind what was left. -/
theorem cleanup_pushAll (later : List SerializedMessage) :
    ((storage.pushAll later).cleanup (storage.packInto sized dest).1).messages =
      leave (storage.packs sized dest) storage.messages ++
        later.filter (fun entry => !entry.buffer.isEmpty) := by
  rw [cleanup_messages, pushAll_messages, leave_append]
  congr 1
  apply leave_none
  intro i
  by_contra h
  rw [Bool.not_eq_false] at h
  have := (packs_inside sized storage dest h).1
  omega

/-! ## Unpacking -/

theorem pick_take {α : Type} (l : List α) :
    pick (storage.packs sized dest) (l.take 64) = pick (storage.packs sized dest) l := by
  by_cases hl : l.length ≤ 64
  · rw [List.take_of_length_le hl]
  · conv_rhs => rw [← List.take_append_drop 64 l, pick_append]
    rw [pick_none (l.drop 64), List.append_nil]
    intro i
    by_contra h
    rw [Bool.not_eq_false] at h
    have hi := (packs_inside sized storage dest h).2
    rw [List.length_take] at hi
    omega

/-- The frames that were written, with any number of zeros behind them, hold
the chosen buffers and else empty blocks. -/
theorem forEach_frames (n : ℕ) : ∃ empty : List Block, (∀ blk ∈ empty, blk = []) ∧
    sized.forEachDataWithSize
        ((storage.frames sized dest).reduceOption.flatten ++ List.replicate n 0) =
      pick (storage.packs sized dest) (storage.messages.map (·.buffer)) ++ empty := by
  refine ⟨_,sized.forEach_zeros n,?_⟩
  rw [frames, forEach_written sized dest.length _ _ (packs_iff sized storage dest), pick_take]
  intro data hd
  obtain ⟨entry,he,rfl⟩ := List.mem_map.mp (List.mem_of_mem_take hd)
  exact storage.stored entry he

variable (backend : SerializerBackend)

/-- The storage holds the given messages in encoded form. -/
def Encodes (messages : List (MessageId × MessageView)) : Prop :=
  List.Forall₂ (fun entry m => ∃ size sink,
    serializeMessage backend m.1 m.2 ⟨size,[]⟩ = some sink ∧ entry.buffer = sink.done)
    storage.messages messages

theorem decode_buffers {messages : List (MessageId × MessageView)}
    (hm : storage.Encodes backend messages) :
    (storage.messages.map (·.buffer)).map (fun blk =>
      if blk.isEmpty then none else deserializeMessage backend {} blk) = messages.map some := by
  obtain ⟨entries,hne⟩ := storage
  simp only [Encodes] at hm ⊢
  induction hm with
  | nil => rfl
  | @cons entry m entries messages hentry _ ih =>
    obtain ⟨size,sink,hsink,hbuf⟩ := hentry
    have hfirst : entry.buffer.isEmpty = false := by simpa using hne entry List.mem_cons_self
    rw [List.map_cons, List.map_cons, List.map_cons,
      ih fun e he => hne e (List.mem_cons_of_mem _ he), hfirst, hbuf,
      deserializeMessage_done backend {} hsink]
    rfl

theorem decoded_frames {messages : List (MessageId × MessageView)}
    (hm : storage.Encodes backend messages) (n : ℕ) :
    ConnectionIncomingMessages.decoded backend sized
        ((storage.frames sized dest).reduceOption.flatten ++ List.replicate n 0) =
      pick (storage.packs sized dest) messages := by
  obtain ⟨empty,hempty,h⟩ := storage.forEach_frames sized dest n
  have htail : empty.filterMap (fun blk =>
      if blk.isEmpty then none else deserializeMessage backend {} blk) = [] := by
    rw [List.filterMap_eq_nil_iff]
    intro blk hb
    rw [hempty blk hb]
    rfl
  rw [ConnectionIncomingMessages.decoded, h, List.filterMap_append, htail, List.append_nil]
  have hpick := congrArg (pick (storage.packs sized dest)) (storage.decode_buffers backend hm)
  rw [pick_map, pick_map _ some] at hpick
  have hid := congrArg (List.filterMap id) hpick
  simpa only [List.filterMap_map, Function.id_comp, Function.comp_def, id_eq,
    List.filterMap_some] using hid

end SerializedMessageStorage

/-- An accepting handler is given the messages of one received block in order. -/
theorem fetchMessages_push (backend : SerializerBackend) (received now : ℕ) (data : Block)
    {σ : Type} (handler : FetchHandler σ) (st : σ)
    (haccept : ∀ st msgId age message, (handler st msgId age message).1 = true) :
    ((ConnectionIncomingMessages.push {} received data).fetchMessages backend sized now
        handler st).2 =
      ({},(ConnectionIncomingMessages.decoded backend sized data).foldl
        (fun st m => (handler st m.1 (Int16.ofNat ((now-received)/10)) m.2).2) st) := by
  rw [ConnectionIncomingMessages.fetchMessages_eq]
  by_cases hd : data = []
  · simp [ConnectionIncomingMessages.push, SerializedMessageStorage.push, hd,
      ConnectionIncomingMessages.decoded_nil]
  · rw [handled_all _ (fun st entry => haccept st _ _ _)]
    simp [ConnectionIncomingMessages.push, SerializedMessageStorage.push, hd,
      ConnectionIncomingMessages.arrived, List.foldl_map, StoredMessage.age]

/-- Packing sets the bits of exactly those of the first 64 messages whose
frames it wrote, and the used size is what it wrote; cleaning up after any
further pushes removes these messages only; the head of the destination and
the whole of it both carry these messages to an accepting handler. -/
theorem pack_cleanup_unpack (storage : SerializedMessageStorage) (dest : Block)
    (hd : dest.length < 2^16) :
    (∀ i, storage.packs sized dest i = ((storage.frames sized dest)[i]?.join).isSome) ∧
    (storage.packInto sized dest).1.used =
      (storage.frames sized dest).reduceOption.flatten.length ∧
    (storage.packInto sized dest).2 = (storage.frames sized dest).reduceOption.flatten ++
      List.replicate (dest.length-(storage.packInto sized dest).1.used) 0 ∧
    (∀ later : List SerializedMessage,
      ((storage.pushAll later).cleanup (storage.packInto sized dest).1).messages =
        leave (storage.packs sized dest) storage.messages ++
          later.filter fun entry => !entry.buffer.isEmpty) ∧
    (∀ (backend : SerializerBackend) (messages : List (MessageId × MessageView)),
      storage.Encodes backend messages →
      ∀ data ∈ [(storage.packInto sized dest).2.take (storage.packInto sized dest).1.used,
        (storage.packInto sized dest).2],
      ∀ (received now : ℕ) (σ : Type) (handler : FetchHandler σ) (st : σ),
      (∀ st msgId age message, (handler st msgId age message).1 = true) →
      ((ConnectionIncomingMessages.push {} received data).fetchMessages backend sized now
          handler st).2 =
        ({},(pick (storage.packs sized dest) messages).foldl
          (fun st m => (handler st m.1 (Int16.ofNat ((now-received)/10)) m.2).2) st)) := by
  have hused := storage.packInto_used sized dest hd
  have hdest := storage.packInto_dest sized dest
  rw [← hused] at hdest
  refine ⟨storage.packs_iff sized dest,hused,hdest,storage.cleanup_pushAll sized dest,?_⟩
  intro backend messages hm data hdata received now σ handler st haccept
  rw [fetchMessages_push sized backend received now data handler st haccept]
  obtain ⟨n,hn⟩ : ∃ n, data =
      (storage.frames sized dest).reduceOption.flatten ++ List.replicate n 0 := by
    rcases List.mem_pair.mp hdata with rfl | rfl
    · exact ⟨0,by rw [hdest, List.take_left' hused.symm, List.replicate_zero, List.append_nil]⟩
    · exact ⟨_,hdest⟩
  rw [hn, storage.decoded_frames sized dest backend hm]

def sampleStorage : SerializedMessageStorage where
  messages := [⟨[1],0,.normal⟩,⟨[4,5,6,7,8],0,.high⟩,⟨[2,3],0,.low⟩]

/-- The second message does not fit between the others. -/
theorem sampleStorage_cleanup :
    ((sampleStorage.pushAll [⟨[9],1,.low⟩]).cleanup
      (sampleStorage.packInto sampleSized (List.replicate 9 255)).1).messages =
        [⟨[4,5,6,7,8],0,.high⟩,⟨[9],1,.low⟩] ∧
    (sampleStorage.packInto sampleSized (List.replicate 9 255)).2 = [0,1,1,0,2,2,3,0,0] := by
  obtain ⟨-,hused,hdest,hclean,-⟩ :=
    pack_cleanup_unpack sampleSized sampleStorage (List.replicate 9 255) (by decide)
  exact ⟨(hclean _).trans (by decide),hdest.trans (by rw [hused]; decide)⟩

end MsgBus
