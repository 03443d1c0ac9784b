import MsgBus.Lib.CopyTree
import MsgBus.Bridge
import MsgBus.SplitHorizon

/-!
# The limit of hops

A router and a bridge add a hop to what they forward. The router looks at the
limit first; a bridge does not, and its counter of eight bits may go on to its
end and wrap. A message dies where each bridge it comes to is still within the
limit.
-/

set_option autoImplicit false

namespace MsgBus.HopLimit

open Router RouterRun CopyTree

abbrev Message := MessageId × MessageView

/-- A router or a bridge, as it is when it handles a message. -/
inductive Forwarder where
  | router (env : RouterEnv) (clk : Clock) (r : Router) (origin : Hop) (age : MessageAge)
  | bridge (env : BridgeEnv) (b : Bridge) (toConnection : Bool) (age queued : MessageAge)

namespace Forwarder

/-- What a router sends when it routes a message that has come over the hop. -/
def routed (env : RouterEnv) (clk : Clock) (r : Router) (origin : Hop) (age : MessageAge)
    (m : Message) : List Message :=
  match SplitHorizon.forward env clk r m.1 age m.2 origin with
  | some (r',incomingId) =>
    ((r'.route env clk m.1 incomingId (aged m.2 age)).sent.drop r'.sent.length).map
      (fun x => (x.msgId,x.message))
  | none => []

def copies : Forwarder → Message → List Message
  | router env clk r origin age, m => routed env clk r origin age m
  | bridge env b toConnection age queued, m => b.copies env toConnection age queued m.1 m.2

def isBridge : Forwarder → Bool
  | router _ _ _ _ _ => false
  | bridge _ _ _ _ _ => true

end Forwarder

def hops (m : Message) : ℤ := m.2.hopCount.toInt

/-- The arrivals of a message and of its copies. Each is at a forwarder in some
state; what it forwards arrives at any number of next ones. -/
structure Network (κ : Type*) where
  forwarder : κ → Forwarder
  received : κ → Message
  next : κ → List κ
  sent : ∀ c, ∀ d ∈ next c, received d ∈ (forwarder c).copies (received c)

section Copies

theorem tooManyHops_iff (m : Message) : m.2.tooManyHops = true ↔ 64 ≤ hops m := by
  unfold MessageInfo.tooManyHops hops
  rw [decide_eq_true_iff, Int8.le_iff_toInt_le]
  rfl

/-- Below the end of its eight bits the counter goes up by one. -/
theorem hops_hopped (m m' : Message) (h : m'.2.hopCount = m.2.hopCount+1) (hm : hops m < 64) :
    hops m' = hops m+1 := by
  unfold hops at hm ⊢
  have hlow := m.2.hopCount.le_toInt
  rw [h, Int8.toInt_add]
  change (m.2.hopCount.toInt+1).bmod 256 = _
  exact Int.bmod_eq_of_le (by omega) (by omega)

theorem routed_spec {env : RouterEnv} {clk : Clock} {r : Router} {origin : Hop}
    {age : MessageAge} {m m' : Message} (h : m' ∈ Forwarder.routed env clk r origin age m) :
    hops m < 64 ∧ m'.2.hopCount = m.2.hopCount+1 := by
  unfold Forwarder.routed at h
  split at h
  · rename_i r' incomingId _
    obtain ⟨x,hx,rfl⟩ := List.mem_map.mp h
    rw [route, routeMessage_sent] at hx
    obtain ⟨new,heq,hhops,hall⟩ := sendAll_parts env.transport m.1 (hopped (aged m.2 age)) r'.sent
      (r'.routeHops env.transport clk.now r'.sent m.1 incomingId (aged m.2 age))
    dsimp only at hx
    rw [heq, List.drop_left] at hx
    obtain ⟨-,hmsg⟩ := hall x hx
    refine ⟨?_,by rw [hmsg]; rfl⟩
    have hhop := List.mem_map_of_mem (f := (·.hop)) hx
    rw [hhops] at hhop
    have hfew := (mem_routeHops.mp hhop).1
    by_contra hm
    have hmany : m.2.tooManyHops = true := (tooManyHops_iff m).mpr (not_lt.mp hm)
    rw [show (aged m.2 age).tooManyHops = m.2.tooManyHops from rfl, hmany] at hfew
    cases hfew
  · cases h

/-- A copy has one hop more, unless a bridge has passed the limit. -/
theorem copy_rises {f : Forwarder} {m m' : Message} (h : m' ∈ f.copies m)
    (hf : f.isBridge = true → hops m < 64) : hops m' = hops m+1 := by
  cases f with
  | router env clk r origin age =>
    obtain ⟨hlow,hcount⟩ := routed_spec h
    exact hops_hopped m m' hcount hlow
  | bridge env b toConnection age queued =>
    exact hops_hopped m m' (Bridge.copies_hopCount h) (hf rfl)

theorem copy_limited {f : Forwarder} {m m' : Message} (h : m' ∈ f.copies m)
    (hf : f.isBridge = true → hops m < 64) : hops m < 64 := by
  cases f with
  | router env clk r origin age => exact (routed_spec h).1
  | bridge env b toConnection age queued => exact hf rfl

end Copies

namespace Network

variable {κ : Type*} (n : Network κ) (root : κ)

/-- From its first arrival on a message gains one hop with each forwarder, is
not forwarded once it has made 64 hops, and has finitely many copies. -/
structure Dies : Prop where
  rises : ∀ d ∈ Within n.next root, ∀ m ∈ (n.forwarder d).copies (n.received d),
    hops m = hops (n.received d)+1
  limited : ∀ d ∈ Within n.next root, 64 ≤ hops (n.received d) →
    (n.forwarder d).copies (n.received d) = []
  finite : (Within n.next root).Finite

/-- A bridge that the message comes to after `k` forwarders and that passes it
on is within what the message has left of its 64 hops on its first arrival. -/
def BridgesNear : Prop :=
  ∀ k, ∀ d ∈ level n.next root k, (n.forwarder d).isBridge = true →
    (n.forwarder d).copies (n.received d) ≠ [] → hops (n.received root)+k < 64

variable {n root}

theorem weight_of_rises
    (h : ∀ d ∈ Within n.next root, ∀ m ∈ (n.forwarder d).copies (n.received d),
      hops m = hops (n.received d)+1) {k : ℕ} {d : κ} (hd : d ∈ level n.next root k) :
    hops (n.received d) = hops (n.received root)+k :=
  weight_level (w := fun d => hops (n.received d))
    (fun k d hd e he => h d ⟨k,hd⟩ _ (n.sent d e he)) hd

theorem hops_level (h : n.BridgesNear root) {k : ℕ} {d : κ} (hd : d ∈ level n.next root k) :
    hops (n.received d) = hops (n.received root)+k := by
  induction k generalizing d with
  | zero =>
    obtain rfl := List.mem_singleton.mp hd
    simp
  | succ k ih =>
    obtain ⟨c,hc,hnext⟩ := mem_level_succ.mp hd
    have hcopy := n.sent c d hnext
    have hrise := copy_rises hcopy (fun hb => by
      rw [ih hc]
      exact h k c hc hb (List.ne_nil_of_mem hcopy))
    rw [hrise, ih hc]
    push_cast
    omega

/-- What is forwarded was within the limit. -/
theorem forwards_below (h : n.BridgesNear root) {k : ℕ} {d : κ}
    (hd : d ∈ level n.next root k) {m : Message}
    (hm : m ∈ (n.forwarder d).copies (n.received d)) : hops (n.received root)+k < 64 := by
  rw [← hops_level h hd]
  apply copy_limited hm
  intro hb
  rw [hops_level h hd]
  exact h k d hd hb (List.ne_nil_of_mem hm)

/-- No copy comes further than the 64 hops and those below zero that the
counter can start from. -/
theorem level_empty (h : n.BridgesNear root) {k : ℕ} (hk : 193 ≤ k) :
    level n.next root k = [] := by
  obtain ⟨j,rfl⟩ : ∃ j, k = j+1 := ⟨k-1,by omega⟩
  apply List.eq_nil_iff_forall_not_mem.mpr
  intro d hd
  obtain ⟨c,hc,hnext⟩ := mem_level_succ.mp hd
  have hlow := (n.received root).2.hopCount.le_toInt
  have hbelow := forwards_below h hc (n.sent c d hnext)
  unfold hops at hbelow
  omega

/-- In every network a message dies exactly if each bridge that passes it on
is reached before its hops are used up. -/
theorem dies_iff (n : Network κ) (root : κ) : n.Dies root ↔ n.BridgesNear root := by
  constructor
  · intro h k d hd _ hcopies
    rw [← weight_of_rises h.rises hd]
    by_contra hmany
    exact hcopies (h.limited d ⟨k,hd⟩ (not_lt.mp hmany))
  · intro h
    refine ⟨?_,?_,finite_of_depth (fun k hk => level_empty h hk)⟩
    · rintro d ⟨k,hd⟩ m hm
      apply copy_rises hm
      intro hb
      rw [hops_level h hd]
      exact h k d hd hb (List.ne_nil_of_mem hm)
    · rintro d ⟨k,hd⟩ hmany
      apply List.eq_nil_iff_forall_not_mem.mpr
      intro m hm
      have hbelow := forwards_below h hd hm
      rw [← hops_level h hd] at hbelow
      omega

end Network

def sampleBridgeEnv : BridgeEnv where
  backend := sampleBackend
  getDataWithSize := id
  readTopology _ := none
  writeTopology _ := none
  statistics _ := none
  accepts _ _ _ := true

/-- A message comes out of the stream of a bridge with the last number of hops
and goes on to a router. -/
def overflow : Network Bool where
  forwarder arrived :=
    if arrived then .router sampleEnv sampleClock (start sampleSetup) (.node 5) 0
    else .bridge sampleBridgeEnv { kind := .stdio } true 0 0
  received arrived :=
    (⟨.other 1,.other 2⟩,{ targetId := 7, hopCount := if arrived then -128 else 127 })
  next arrived := if arrived then [] else [true]
  sent := by decide

theorem overflow_wraps : ¬ overflow.Dies false := by
  intro h
  have hrise := h.rises false ⟨0,by decide⟩ (overflow.received true) (by decide)
  revert hrise
  decide

end MsgBus.HopLimit
