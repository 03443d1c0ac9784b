import MsgBus.MessagePacking
import MsgBus.Lib.CyclicWalk
import MsgBus.Lib.OrderedMap
import MsgBus.Lib.StepRun

/-!
# Endpoints of a datagram server

A datagram server connection keeps outgoing and incoming messages for each
endpoint it has heard from. New endpoints are pending until they are accepted;
then a client connection shares their messages. Packing walks the accepted
endpoints by an index that stays between the calls. The addresses of endpoints
are any ordered type.
-/

set_option autoImplicit false

namespace MsgBus

open StepRun CyclicWalk

structure DatagramMessages where
  outgoing : ConnectionOutgoingMessages := {}
  incoming : ConnectionIncomingMessages := {}

structure DatagramServerConnection (ε : Type) [LinearOrder ε] where
  current : OrderedMap ε DatagramMessages := .empty
  pending : OrderedMap ε DatagramMessages := .empty
  index : ℕ := 0

/-- What packing returns and sets, and the endpoints it has visited. -/
structure DatagramPack (ε : Type) where
  target : ε
  packed : MessagePackInfo
  dest : Block
  visited : List ε

namespace DatagramServerConnection

variable {ε : Type} [LinearOrder ε]

/-- `_get`, with what the caller does to the messages. -/
def get (server : DatagramServerConnection ε) (ep : ε)
    (change : DatagramMessages → DatagramMessages) : DatagramServerConnection ε :=
  match server.current.find? ep with
  | some messages => { server with current := server.current.assign ep (change messages) }
  | none =>
    match server.pending.find? ep with
    | some messages => { server with pending := server.pending.assign ep (change messages) }
    | none => { server with pending := server.pending.assign ep (change {}) }

def onSent (server : DatagramServerConnection ε) (ep : ε) (toBeRemoved : MessagePackInfo) :
    DatagramServerConnection ε :=
  server.get ep fun messages =>
    { messages with outgoing := messages.outgoing.cleanup toBeRemoved }

def onReceived (server : DatagramServerConnection ε) (now : ℕ) (ep : ε) (data : Block) :
    DatagramServerConnection ε :=
  server.get ep fun messages => { messages with incoming := messages.incoming.push now data }

/-- `flat_map::insert` keeps the value of a key it has. -/
def insert (current : OrderedMap ε DatagramMessages) (p : ε × DatagramMessages) :
    OrderedMap ε DatagramMessages :=
  if current.contains p.1 then current else current.assign p.1 p.2

def processAccepted (server : DatagramServerConnection ε) : Bool × DatagramServerConnection ε :=
  (!server.pending.isEmpty,
    { server with
      current := server.pending.entries.foldl insert server.current
      pending := .empty })

/-- A client connection sends through the messages of its endpoint. -/
def clientSend (backend : SerializerBackend) (server : DatagramServerConnection ε) (now : ℕ)
    (ep : ε) (msgId : MessageId) (message : MessageView) (temp : ℕ) :
    Bool × DatagramServerConnection ε :=
  match server.current.find? ep with
  | some messages =>
    let (sent,outgoing) := messages.outgoing.enqueue backend now msgId message temp
    (sent,{ server with current := server.current.assign ep { messages with outgoing } })
  | none => (false,server)

def clientFetch (backend : SerializerBackend) (sized : SizedBlocks)
    (server : DatagramServerConnection ε) (now : ℕ) (ep : ε) (handler : FetchHandler Unit) :
    DatagramServerConnection ε :=
  match server.current.find? ep with
  | some messages =>
    let (_,incoming,_) := messages.incoming.fetchMessages backend sized now handler ()
    { server with current := server.current.assign ep { messages with incoming } }
  | none => server

variable (sized : SizedBlocks)

/-- `outgoing->pack_into(dest)` at one endpoint. -/
def packEntry (dest : Block) (p : ε × DatagramMessages) : Option MessagePackInfo × Block :=
  let (packed,dest) := p.2.outgoing.packInto sized dest
  (if packed.isEmpty then none else some packed,dest)

def packInto (server : DatagramServerConnection ε) (fuel : ℕ) (target : ε) (dest : Block) :
    Option (DatagramPack ε × DatagramServerConnection ε) :=
  (walk (packEntry sized) server.current.entries server.index fuel server.index dest).map fun o =>
    let visited := o.visited.map Prod.fst
    (match o.found with
      | some (p,packed) => ⟨p.1,packed,o.data,visited⟩
      | none => ⟨target,.ofSize 0,o.data,visited⟩,
    { server with index := o.index })

def hasReceived (server : DatagramServerConnection ε) : Bool :=
  server.current.entries.any (fun p => !p.2.incoming.packed.messages.isEmpty) ||
    server.pending.entries.any fun p => !p.2.incoming.packed.messages.isEmpty

/-! ## One call -/

variable {sized} {server : DatagramServerConnection ε}

/-- What an endpoint has for a destination. -/
def packable (sized : SizedBlocks) (dest : Block) (p : ε × DatagramMessages) :
    Option MessagePackInfo :=
  let packed := (p.2.outgoing.packInto sized dest).1
  if packed.isEmpty then none else some packed

theorem outgoing_congr (outgoing : ConnectionOutgoingMessages) {d dest : Block}
    (h : d.length = dest.length) : outgoing.packInto sized d = outgoing.packInto sized dest :=
  SerializedMessageStorage.packInto_congr sized _ h

variable (sized) in
omit [LinearOrder ε] in
theorem packEntry_steady (dest : Block) :
    Steady (packEntry sized : Block → ε × DatagramMessages → _)
      (fun d => d.length = dest.length) (packable sized dest) where
  answers := by
    intro d p hd
    rw [packEntry, outgoing_congr p.2.outgoing hd]
    rfl
  keeps := by
    intro d p hd
    exact (SerializedMessageStorage.packInto_length sized _ d).trans hd

omit [LinearOrder ε] in
theorem packable_eq_none {dest : Block} {p : ε × DatagramMessages} :
    packable sized dest p = none ↔ (p.2.outgoing.packInto sized dest).1.isEmpty = true := by
  simp [packable]

omit [LinearOrder ε] in
theorem packable_eq_some {dest : Block} {p : ε × DatagramMessages} {packed : MessagePackInfo}
    (h : packable sized dest p = some packed) :
    packed = (p.2.outgoing.packInto sized dest).1 ∧ packed.isEmpty = false := by
  simp only [packable] at h
  split_ifs at h with he
  obtain rfl := Option.some.inj h
  exact ⟨rfl,by simpa using he⟩

/-- A call of a server whose index is inside of its endpoints or at their end:
it comes back, has visited no endpoint twice, and either all of them, which
have nothing for the destination, or in the end the one it has packed. -/
structure PackCall (sized : SizedBlocks) (server : DatagramServerConnection ε) (dest : Block)
    (r : DatagramPack ε) : Prop where
  once : r.visited.Nodup
  known : ∀ ep ∈ r.visited, ep ∈ server.current.entries.map Prod.fst
  all : r.packed.isEmpty = true → r.visited.Perm (server.current.entries.map Prod.fst)
  empty_iff : r.packed.isEmpty = true ↔
    ∀ p ∈ server.current.entries, (p.2.outgoing.packInto sized dest).1.isEmpty = true
  packed : r.packed.isEmpty = false → ∃ p ∈ server.current.entries, r.target = p.1 ∧
    r.visited.getLast? = some p.1 ∧ (r.packed,r.dest) = p.2.outgoing.packInto sized dest

section Walked

variable {dest : Block}
  {o : Outcome (ε × DatagramMessages) MessagePackInfo Block}

/-- The walk of a call, in the order of the endpoints from the index on. -/
abbrev Visits (sized : SizedBlocks) (server : DatagramServerConnection ε) (dest : Block)
    (o : Outcome (ε × DatagramMessages) MessagePackInfo Block) : Prop :=
  Walked (packEntry sized) (fun d => d.length = dest.length) (packable sized dest)
    server.current.size server.index
    (server.current.entries.drop server.index ++ server.current.entries.take server.index) o

theorem visits_once (ho : Visits sized server dest o) : (o.visited.map Prod.fst).Nodup ∧
    ∀ ep ∈ o.visited.map Prod.fst, ep ∈ server.current.entries.map Prod.fst := by
  have hkeys := (order_perm server.current.entries server.index).map Prod.fst
  have hvisited := ho.prefix.sublist.map Prod.fst
  exact ⟨(hkeys.nodup_iff.mpr server.current.keys_nodup).sublist hvisited,
    fun ep hep => hkeys.subset (hvisited.subset hep)⟩

theorem visits_none_iff (ho : Visits sized server dest o) : o.found = none ↔
    ∀ p ∈ server.current.entries, (p.2.outgoing.packInto sized dest).1.isEmpty = true := by
  rw [ho.found_none_iff]
  refine forall_congr' fun p => ?_
  rw [(order_perm server.current.entries server.index).mem_iff, packable_eq_none]

theorem nothing_call (ho : Visits sized server dest o) (hf : o.found = none) (target : ε) :
    PackCall sized server dest ⟨target,.ofSize 0,o.data,o.visited.map Prod.fst⟩ where
  once := (visits_once ho).1
  known := (visits_once ho).2
  all := fun _ => by
    rw [(ho.nothing hf).2.1]
    exact (order_perm server.current.entries server.index).map Prod.fst
  empty_iff := ⟨fun _ => (visits_none_iff ho).mp hf,fun _ => rfl⟩
  packed := fun he => by cases he

theorem packed_call (ho : Visits sized server dest o) {p : ε × DatagramMessages}
    {packed : MessagePackInfo} (hf : o.found = some (p,packed)) :
    PackCall sized server dest ⟨p.1,packed,o.data,o.visited.map Prod.fst⟩ := by
  obtain ⟨ha,⟨d,hd,hdata⟩,front,rest,horder,hlast⟩ := ho.something p packed hf
  obtain ⟨hpacked,hsome⟩ := packable_eq_some ha
  have hp : p ∈ server.current.entries :=
    (order_perm server.current.entries server.index).subset (by simp [horder])
  have hmore : ¬ ∀ p ∈ server.current.entries,
      (p.2.outgoing.packInto sized dest).1.isEmpty = true := by
    rw [← visits_none_iff ho, hf]
    exact Option.some_ne_none _
  have hblock : (packEntry sized d p).2 = (p.2.outgoing.packInto sized dest).2 :=
    congrArg Prod.snd (outgoing_congr p.2.outgoing hd)
  refine ⟨(visits_once ho).1,(visits_once ho).2,fun he => ?_,?_,fun _ => ⟨p,hp,rfl,?_,?_⟩⟩
  · exact absurd (hsome.symm.trans he) Bool.false_ne_true
  · exact ⟨fun he => absurd (hsome.symm.trans he) Bool.false_ne_true,fun he => absurd he hmore⟩
  · simp [hlast]
  · exact Prod.ext hpacked (hdata.symm.trans hblock)

end Walked

variable (sized) in
theorem packInto_call (h : server.index ≤ server.current.size) (target : ε) (dest : Block) :
    ∃ r index, index ≤ server.current.size ∧ PackCall sized server dest r ∧
      ∀ fuel, server.current.size < fuel →
        server.packInto sized fuel target dest = some (r,{ server with index }) := by
  obtain ⟨o,ho,hwalk⟩ := comes_around (packEntry_steady sized dest) h dest rfl
  rcases hf : o.found with _ | ⟨p,packed⟩
  · refine ⟨_,o.index,ho.inside,nothing_call ho hf target,fun fuel hfuel => ?_⟩
    rw [packInto, hwalk fuel hfuel, Option.map_some, hf]
  · refine ⟨_,o.index,ho.inside,packed_call ho hf,fun fuel hfuel => ?_⟩
    rw [packInto, hwalk fuel hfuel, Option.map_some, hf]

/-! ## Runs -/

inductive DatagramEvent (ε : Type) where
  | packInto (target : ε) (dest : Block)
  | sent (ep : ε) (toBeRemoved : MessagePackInfo)
  | received (now : ℕ) (ep : ε) (data : Block)
  | accepted
  /-- The client connection of an endpoint sends a message. -/
  | send (now : ℕ) (ep : ε) (msgId : MessageId) (message : MessageView) (temp : ℕ)
  /-- The client connection of an endpoint fetches its messages. -/
  | fetch (now : ℕ) (ep : ε) (handler : FetchHandler Unit)

variable (backend : SerializerBackend)

def step (sized : SizedBlocks) (server : DatagramServerConnection ε) :
    DatagramEvent ε → DatagramServerConnection ε
  | .packInto target dest =>
    match server.packInto sized (server.current.size+1) target dest with
    | some (_,server) => server
    | none => server
  | .sent ep toBeRemoved => server.onSent ep toBeRemoved
  | .received now ep data => server.onReceived now ep data
  | .accepted => server.processAccepted.2
  | .send now ep msgId message temp => (server.clientSend backend now ep msgId message temp).2
  | .fetch now ep handler => server.clientFetch backend sized now ep handler

/-- Only accepted endpoints have something to send. -/
structure Inv (server : DatagramServerConnection ε) : Prop where
  index : server.index ≤ server.current.size
  silent : ∀ p ∈ server.pending.entries, p.2.outgoing.serialized.messages = []

theorem size_insert (m : OrderedMap ε DatagramMessages) (p : ε × DatagramMessages) :
    m.size ≤ (insert m p).size := by
  rw [insert]
  split_ifs
  · exact le_refl _
  · exact m.size_assign p.1 p.2

/-- The accepted endpoints never get fewer, wherever new ones are inserted. -/
theorem size_accepted (ps : List (ε × DatagramMessages)) (m : OrderedMap ε DatagramMessages) :
    m.size ≤ (ps.foldl insert m).size := by
  induction ps generalizing m with
  | nil => exact le_refl _
  | cons p ps ih => exact (size_insert m p).trans (ih (insert m p))

/-- What `_get` does keeps the invariant, if it puts nothing into empty
outgoing messages. -/
theorem Inv.get (h : server.Inv) (ep : ε) {change : DatagramMessages → DatagramMessages}
    (hchange : ∀ m, m.outgoing.serialized.messages = [] →
      (change m).outgoing.serialized.messages = []) : (server.get ep change).Inv := by
  have hpending (m : DatagramMessages) (hm : m.outgoing.serialized.messages = []) :
      ∀ p ∈ (server.pending.assign ep (change m)).entries,
        p.2.outgoing.serialized.messages = [] := by
    intro p hp
    rcases OrderedMap.mem_assignIn hp with rfl | hp
    · exact hchange m hm
    · exact h.silent p hp
  rw [DatagramServerConnection.get]
  cases server.current.find? ep with
  | some messages => exact ⟨h.index.trans (OrderedMap.size_assign _ _ _),h.silent⟩
  | none =>
    cases hf : server.pending.find? ep with
    | some messages =>
      exact ⟨h.index,hpending messages (h.silent _ (OrderedMap.find?_eq_some.mp hf))⟩
    | none => exact ⟨h.index,hpending {} rfl⟩

theorem cleanup_silent {outgoing : ConnectionOutgoingMessages} (toBeRemoved : MessagePackInfo)
    (h : outgoing.serialized.messages = []) :
    (outgoing.cleanup toBeRemoved).serialized.messages = [] := by
  simp only [ConnectionOutgoingMessages.cleanup, SerializedMessageStorage.cleanup]
  split_ifs
  · rw [h]
    rfl
  · exact h

theorem step_inv (h : server.Inv) (e : DatagramEvent ε) : (server.step backend sized e).Inv := by
  cases e with
  | packInto target dest =>
    obtain ⟨r,index,hindex,-,hpack⟩ := packInto_call sized h.index target dest
    rw [step, hpack _ (Nat.lt_succ_self _)]
    exact ⟨hindex,h.silent⟩
  | sent ep toBeRemoved => exact h.get ep fun m hm => cleanup_silent toBeRemoved hm
  | received now ep data => exact h.get ep fun m hm => hm
  | accepted => exact ⟨h.index.trans (size_accepted _ _),fun p hp => by cases hp⟩
  | send now ep msgId message temp =>
    rw [step, clientSend]
    cases server.current.find? ep with
    | some messages => exact ⟨h.index.trans (OrderedMap.size_assign _ _ _),h.silent⟩
    | none => exact h
  | fetch now ep handler =>
    rw [step, clientFetch]
    cases server.current.find? ep with
    | some messages => exact ⟨h.index.trans (OrderedMap.size_assign _ _ _),h.silent⟩
    | none => exact h

/-- Every call of a server comes back, after one round of the endpoints at
most, and packs nothing exactly if no endpoint has anything for it. -/
structure RoundRobin (sized : SizedBlocks) (server : DatagramServerConnection ε) : Prop where
  call : ∀ target dest, ∃ r server', PackCall sized server dest r ∧
    ∀ fuel, server.current.size < fuel →
      server.packInto sized fuel target dest = some (r,server')
  pending : ∀ dest, ∀ p ∈ server.pending.entries,
    (p.2.outgoing.packInto sized dest).1.isEmpty = true

theorem Inv.roundRobin (h : server.Inv) : server.RoundRobin sized where
  call := by
    intro target dest
    obtain ⟨r,index,-,hcall,hpack⟩ := packInto_call sized h.index target dest
    exact ⟨r,_,hcall,hpack⟩
  pending := by
    intro dest p hp
    rw [ConnectionOutgoingMessages.packInto, SerializedMessageStorage.packInto, h.silent p hp]
    rfl

/-- In every run of a server, whatever messages and endpoints it begins with,
packing comes back after one round at most. -/
theorem packing_goes_round (current : OrderedMap ε DatagramMessages)
    (es : List (DatagramEvent ε)) :
    Always (step backend sized) (RoundRobin sized) { current } es :=
  always_mono (fun _ h => Inv.roundRobin h)
    (always_of_kept (fun _ e h => step_inv backend h e) es
      ⟨Nat.zero_le _,fun p hp => by cases hp⟩)

end DatagramServerConnection

end MsgBus
