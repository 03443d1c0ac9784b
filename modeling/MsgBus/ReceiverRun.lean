import MsgBus.Lib.StepRun
import MsgBus.StoreLog

/-!
# Runs of a receiving manipulator

Fragments of any blobs from any sources arrive in any order, between them
blobs are expected, prepared, cancelled, updated and handed over. The targets
are arbitrary and note what they store; after each merge the blob notes the
ids of the fragment.
-/

set_option autoImplicit false

namespace MsgBus.ReceiverRun

open BlobManipulator ManipulatorRules FragmentMerge

section Site

variable {ς τ : Type}

/-- Where the fragment is merged, and the pending blob as it is just before. -/
def mergeSite (m : BlobManipulator ς τ) (clk : Clock) (getIo : TargetIoGetter τ)
    (f : IncomingFragment) : Option (ℕ × PendingBlob τ) :=
  match m.findBySource f with
  | some pos => (m.incoming[pos]?.filter (acceptsFragment f)).map
      (fun p => (pos,refreshed clk f p))
  | none =>
    match m.findByTarget f with
    | some pos => m.incoming[pos]?.map (fun p => (pos,refreshed clk f (updateExpected f p)))
    | none =>
      if f.sourceId ≠ broadcastEndpointId then
        (getIo f.msgId f.totalSize).map (fun io => (m.incoming.length,createIncoming clk f io))
      else none

/-- The list with the element at the position replaced or, behind the end,
appended. -/
def place {α : Type} (l : List α) (pos : ℕ) (a : α) : List α :=
  if pos < l.length then l.set pos a else l ++ [a]

theorem mem_place {α : Type} {l : List α} {pos : ℕ} {a x : α} (h : x ∈ place l pos a) :
    x ∈ l ∨ x = a := by
  rw [place] at h
  split at h
  · exact List.mem_or_eq_of_mem_set h
  · exact (List.mem_append.mp h).imp id List.mem_singleton.mp

theorem place_getElem_ne {α : Type} {l : List α} {pos i : ℕ} {a x : α} (hx : l[i]? = some x)
    (h : l[pos]? ≠ some x) : (place l pos a)[i]? = some x := by
  have hne : pos ≠ i := fun he => h (he ▸ hx)
  rw [place]
  split
  · rw [List.getElem?_set_ne hne, hx]
  · rw [List.getElem?_append_left (List.getElem?_eq_some_iff.mp hx).1, hx]

theorem placed_mem {α : Type} (l : List α) (pos : ℕ) (a : α) : a ∈ place l pos a := by
  rw [place]
  split
  · rename_i h
    exact List.mem_iff_getElem?.mpr ⟨pos,by simp [h]⟩
  · simp

theorem modify_eq_set {α : Type} {l : List α} {pos : ℕ} {p : α} (f : α → α)
    (h : l[pos]? = some p) : l.modify pos f = l.set pos (f p) := by
  apply List.ext_getElem?
  intro j
  rw [List.getElem?_modify, List.getElem?_set]
  by_cases hj : pos = j
  · subst hj
    obtain ⟨hlt,rfl⟩ := List.getElem?_eq_some_iff.mp h
    simp [hlt]
  · simp [hj]

variable {m : BlobManipulator ς τ} {clk : Clock} {getIo : TargetIoGetter τ}
  {f : IncomingFragment}

/-- The merge is into the accepting blob that owns the fragment, else into the
one that awaits it, else into a new one. -/
theorem mergeSite_cases {pos : ℕ} {p : PendingBlob τ} (h : mergeSite m clk getIo f = some (pos,p)) :
    (∃ p₀, m.incoming[pos]? = some p₀ ∧ Owns f p₀ ∧ acceptsFragment f p₀ = true ∧
      p = refreshed clk f p₀) ∨
    (∃ p₀, m.findBySource f = none ∧ m.findByTarget f = some pos ∧
      m.incoming[pos]? = some p₀ ∧ Awaits f p₀ ∧ p = refreshed clk f (updateExpected f p₀)) ∨
    ∃ io, pos = m.incoming.length ∧ (∀ q ∈ m.incoming, ¬ Owns f q) ∧
      getIo f.msgId f.totalSize = some io ∧ p = createIncoming clk f io := by
  rw [mergeSite] at h
  cases hs : m.findBySource f with
  | some pos' =>
    obtain ⟨p₀,hp,ho⟩ := findBySource_some hs
    rw [hs] at h
    simp only [hp, Option.filter_some] at h
    split_ifs at h with hacc
    · obtain ⟨rfl,rfl⟩ := Prod.mk.inj (Option.some.inj h)
      exact Or.inl ⟨p₀,hp,ho,hacc,rfl⟩
    · cases h
  | none =>
    rw [hs] at h
    cases ht : m.findByTarget f with
    | some pos' =>
      obtain ⟨p₀,hp,ha⟩ := findByTarget_some ht
      simp only [ht, hp, Option.map_some, Option.some.injEq, Prod.mk.injEq] at h
      obtain ⟨rfl,rfl⟩ := h
      exact Or.inr (Or.inl ⟨p₀,rfl,rfl,hp,ha,rfl⟩)
    | none =>
      simp only [ht] at h
      split_ifs at h with hb
      · obtain ⟨io,hio,he⟩ := Option.map_eq_some_iff.mp h
        obtain ⟨rfl,rfl⟩ := Prod.mk.inj he
        exact Or.inr (Or.inr ⟨io,rfl,findBySource_none hs,hio,rfl⟩)

theorem updateExpected_accepts {p : PendingBlob τ} (h : Awaits f p) :
    acceptsFragment f (updateExpected f p) = true :=
  acceptsFragment_iff.mpr ⟨Or.inr rfl,h.1⟩

theorem pushIncomingFragment_site [TargetBlobIo τ] (m : BlobManipulator ς τ) (clk : Clock)
    (getIo : TargetIoGetter τ) (f : IncomingFragment) :
    m.pushIncomingFragment clk getIo f =
      match mergeSite m clk getIo f with
      | none => m
      | some (pos,p) => { m with
          incoming := place m.incoming pos (p.mergeFragment clk.now f.offset f.fragment).2 } := by
  rcases pushIncomingFragment_cases m clk getIo f with
    ⟨pos,p,hs,hp,_,he⟩ | ⟨pos,p,hs,ht,hp,ha,he⟩ | ⟨io,hs,ht,hg,hb,he⟩ | ⟨hs,ht,he⟩
  · have hlt : pos < m.incoming.length := (List.getElem?_eq_some_iff.mp hp).1
    rw [he, modify_eq_set _ hp, mergeSite, hs]
    simp only [hp, Option.filter_some]
    by_cases hacc : acceptsFragment f p = true
    · simp only [hacc, if_true, Option.map_some, place, if_pos hlt, mergeInto]
      rfl
    · obtain ⟨_,rfl⟩ := List.getElem?_eq_some_iff.mp hp
      simp only [hacc, Bool.false_eq_true, if_false, Option.map_none, mergeInto,
        List.set_getElem_self]
  · have hlt : pos < m.incoming.length := (List.getElem?_eq_some_iff.mp hp).1
    rw [he, modify_eq_set _ hp, mergeSite, hs, ht]
    simp only [hp, Option.map_some, mergeInto, updateExpected_accepts ha, if_true, place,
      if_pos hlt]
    rfl
  · rw [he, mergeSite, hs, ht]
    simp only [if_pos hb, hg, Option.map_some, place, lt_irrefl, if_false]
    rfl
  · have hn : mergeSite m clk getIo f = none := by
      rw [mergeSite, hs, ht]
      dsimp only
      split_ifs with hb
      · cases hg : getIo f.msgId f.totalSize with
        | none => rfl
        | some io =>
          rw [pushIncomingFragment, hs, ht] at he
          simp only [if_pos hb, hg] at he
          have hl := congrArg (fun m => m.incoming.length) he
          simp at hl
      · rfl
    rw [he, hn]

end Site

section System

variable {ς τ : Type}

structure Receiver (ς τ : Type) where
  manipulator : BlobManipulator ς (StoreLog τ)
  handed : List (Completion (StoreLog τ)) := []

inductive Event (τ : Type) where
  | expectIncoming (clk : Clock) (msgId : MessageId) (sourceId : EndpointId)
      (targetBlobId : BlobId) (io : τ) (maxTime : ℕ)
  | pushIncomingFragment (clk : Clock) (getIo : TargetIoGetter τ) (f : IncomingFragment)
  | processPrepare (ser : BlobSerializer) (clk : Clock) (message : MessageView)
  | cancelIncoming (targetBlobId : BlobId)
  | update (ser : BlobSerializer) (clk : Clock) (doSend : SendHandler) (maxMessageSize : ℕ)
  | fetchAll (clk : Clock)
  | handleComplete (clk : Clock)

def noted (getIo : TargetIoGetter τ) : TargetIoGetter (StoreLog τ) :=
  fun msgId totalSize => (getIo msgId totalSize).map StoreLog.fresh

def tagMerged (f : IncomingFragment) (p : PendingBlob (StoreLog τ)) : PendingBlob (StoreLog τ) :=
  { p with io := p.io.tag (fragmentKey f) }

/-- What a step that is no merge leaves of a pending blob. -/
structure Retains (p q : PendingBlob (StoreLog τ)) : Prop where
  done : q.doneParts = p.doneParts
  info : q.info = p.info
  msgId : q.msgId = p.msgId
  sourceBlobId : q.sourceBlobId = p.sourceBlobId
  targetBlobId : q.targetBlobId = p.targetBlobId
  stored : q.io.stored = p.io.stored
  merged : q.io.merged = p.io.merged

theorem Retains.refl (p : PendingBlob (StoreLog τ)) : Retains p p := ⟨rfl,rfl,rfl,rfl,rfl,rfl,rfl⟩

/-- A pending blob that was only announced. -/
structure Unstarted (q : PendingBlob (StoreLog τ)) : Prop where
  done : q.doneParts = []
  totalSize : q.info.totalSize = 0
  stored : q.io.stored = []
  merged : q.io.merged = []

theorem modify_place {α : Type} (l : List α) (pos : ℕ) (a : α) (g : α → α)
    (h : pos ≤ l.length) : (place l pos a).modify pos g = place l pos (g a) := by
  rw [place, place]
  split
  · rename_i hlt
    rw [modify_eq_set g (p := a) (by simp [hlt]), List.set_set]
  · obtain rfl : pos = l.length := by omega
    rw [modify_eq_set g (p := a) (by simp)]
    simp

variable [TargetBlobIo τ]

def mergeNoted (clk : Clock) (f : IncomingFragment) (p : PendingBlob (StoreLog τ)) :
    PendingBlob (StoreLog τ) :=
  tagMerged f (p.mergeFragment clk.now f.offset f.fragment).2

/-- The push of a fragment, after which the blob it was merged into notes its
ids. -/
def pushNoted (m : BlobManipulator ς (StoreLog τ)) (clk : Clock) (getIo : TargetIoGetter τ)
    (f : IncomingFragment) : BlobManipulator ς (StoreLog τ) :=
  let pushed := m.pushIncomingFragment clk (noted getIo) f
  match mergeSite m clk (noted getIo) f with
  | none => pushed
  | some (pos,_) => { pushed with incoming := pushed.incoming.modify pos (tagMerged f) }

theorem pushNoted_site (m : BlobManipulator ς (StoreLog τ)) (clk : Clock)
    (getIo : TargetIoGetter τ) (f : IncomingFragment) :
    pushNoted m clk getIo f =
      match mergeSite m clk (noted getIo) f with
      | none => m
      | some (pos,p) => { m with incoming := place m.incoming pos (mergeNoted clk f p) } := by
  rw [pushNoted, pushIncomingFragment_site]
  cases hs : mergeSite m clk (noted getIo) f with
  | none => rfl
  | some site =>
    obtain ⟨pos,p⟩ := site
    have hle : pos ≤ m.incoming.length := by
      rcases mergeSite_cases hs with ⟨_,hp,_⟩ | ⟨_,_,_,hp,_⟩ | ⟨_,he,_⟩
      · exact (List.getElem?_eq_some_iff.mp hp).1.le
      · exact (List.getElem?_eq_some_iff.mp hp).1.le
      · exact he.le
    simp only [modify_place _ _ _ _ hle]
    rfl

variable [SourceBlobIo ς]

def hand (s : Receiver ς τ)
    (r : BlobManipulator ς (StoreLog τ) × List (Completion (StoreLog τ))) : Receiver ς τ :=
  ⟨r.1,s.handed ++ r.2⟩

def step (s : Receiver ς τ) : Event τ → Receiver ς τ
  | .expectIncoming clk msgId sourceId targetBlobId io maxTime =>
    { s with
      manipulator := s.manipulator.expectIncoming clk msgId sourceId targetBlobId (.fresh io)
        maxTime }
  | .pushIncomingFragment clk getIo f =>
    { s with manipulator := pushNoted s.manipulator clk getIo f }
  | .processPrepare ser clk message =>
    { s with manipulator := s.manipulator.processPrepare ser clk message }
  | .cancelIncoming targetBlobId =>
    { s with manipulator := (s.manipulator.cancelIncoming targetBlobId).2 }
  | .update ser clk doSend maxMessageSize =>
    { s with manipulator := (s.manipulator.update ser clk doSend maxMessageSize).manipulator }
  | .fetchAll clk => hand s (s.manipulator.fetchAll clk)
  | .handleComplete clk => hand s (s.manipulator.handleComplete clk)

def start (ς τ : Type) (fragmentMsgId resendMsgId prepareMsgId : MessageId) : Receiver ς τ where
  manipulator := { fragmentMsgId, resendMsgId, prepareMsgId }

/-- Where the pending blobs after a step come from. -/
theorem mem_step {s : Receiver ς τ} {e : Event τ} {q : PendingBlob (StoreLog τ)}
    (hq : q ∈ (step s e).manipulator.incoming) :
    (∃ p ∈ s.manipulator.incoming, Retains p q) ∨ Unstarted q ∨
    ∃ clk getIo f pos p, e = .pushIncomingFragment clk getIo f ∧
      mergeSite s.manipulator clk (noted getIo) f = some (pos,p) ∧ q = mergeNoted clk f p := by
  have hold : q ∈ s.manipulator.incoming → ∃ p ∈ s.manipulator.incoming, Retains p q :=
    fun h => ⟨q,h,Retains.refl q⟩
  cases e with
  | expectIncoming clk msgId sourceId targetBlobId io maxTime =>
    rcases List.mem_append.mp hq with hq | hq
    · exact Or.inl (hold hq)
    · obtain rfl := List.mem_singleton.mp hq
      exact Or.inr (Or.inl ⟨rfl,rfl,rfl,rfl⟩)
  | pushIncomingFragment clk getIo f =>
    simp only [step, pushNoted_site] at hq
    split at hq
    · exact Or.inl (hold hq)
    · rename_i pos p hs
      rcases mem_place hq with hq | rfl
      · exact Or.inl (hold hq)
      · exact Or.inr (Or.inr ⟨clk,getIo,f,pos,p,rfl,hs,rfl⟩)
  | processPrepare ser clk message =>
    simp only [step, processPrepare] at hq
    split at hq
    · exact Or.inl (hold hq)
    · split at hq
      · exact Or.inl (hold hq)
      · rcases mem_modify hq with hq | ⟨p,hp,rfl⟩
        · exact Or.inl (hold hq)
        · refine Or.inl ⟨p,List.mem_of_getElem? hp,?_⟩
          simp only [PendingBlob.handleTargetPreparing]
          split <;> exact ⟨rfl,rfl,rfl,rfl,rfl,rfl,rfl⟩
  | cancelIncoming targetBlobId =>
    simp only [step, cancelIncoming] at hq
    split at hq
    · exact Or.inl (hold hq)
    · exact Or.inl (hold (List.mem_of_mem_eraseIdx hq))
  | update ser clk doSend maxMessageSize =>
    rcases (update_cases s.manipulator ser clk doSend maxMessageSize).1 q hq with hq | ⟨p,hp,rfl⟩
    · exact Or.inl (hold hq)
    · exact Or.inl ⟨p,hp,rfl,rfl,rfl,rfl,rfl,rfl,rfl⟩
  | fetchAll clk =>
    have hq' : q ∈ (s.manipulator.fetchAll clk).1.incoming := hq
    exact Or.inl (hold (mem_fetchAll hq').1)
  | handleComplete clk =>
    have hq' : q ∈ (s.manipulator.handleComplete clk).1.incoming := hq
    exact Or.inl (hold (mem_handleComplete hq').1)

/-- What a step hands over was complete. -/
theorem mem_handed {s : Receiver ς τ} {e : Event τ} {c : Completion (StoreLog τ)}
    (hc : c ∈ (step s e).handed) :
    c ∈ s.handed ∨ (c.pending ∈ s.manipulator.incoming ∧
      c.pending.receivedEverything = true) := by
  cases e with
  | fetchAll clk =>
    rcases List.mem_append.mp hc with hc | hc
    · exact Or.inl hc
    · obtain ⟨p,hp,rfl⟩ := List.mem_map.mp hc
      have hpend : (fetchIncoming clk p).pending = p := by
        rw [fetchIncoming]
        split <;> rfl
      rw [hpend]
      exact Or.inr (List.mem_filter.mp hp)
  | handleComplete clk =>
    rcases List.mem_append.mp hc with hc | hc
    · exact Or.inl hc
    · obtain ⟨p,hp,rfl⟩ := List.mem_map.mp hc
      exact Or.inr (List.mem_filter.mp hp)
  | _ => exact Or.inl hc

end System

end MsgBus.ReceiverRun
