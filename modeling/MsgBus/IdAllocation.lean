import MsgBus.Lib.CyclicScan
import MsgBus.PendingRun

/-!
# Allocation of endpoint ids

The scan of `get_next_id` starts at the counter, goes up to the end of the
range and on from its first id. It asks only which ids nodes have: an id that
was assigned to a pending connection is not in use until the connection is
adopted with it.
-/

set_option autoImplicit false

namespace MsgBus.IdAllocation

open Router PendingRun CyclicScan
open RouterRun (Setup start)

/-- An id strictly between the base and the end of the range that no node has. -/
def Free (used : EndpointId → Bool) (ids : RouterIds) (id : EndpointId) : Prop :=
  (ids.idBase < id ∧ id < ids.idEnd) ∧ used id = false

/-- A free id, or zero if there is none. -/
def Proper (used : EndpointId → Bool) (ids : RouterIds) (id : EndpointId) : Prop :=
  Free used ids id ∨ id = 0 ∧ ∀ i, ¬ Free used ids i

/-- The counter is below the end of the range or on an id that a node has; and
some id is free, or the counter is in the range and past its first id. -/
def Returns (used : EndpointId → Bool) (ids : RouterIds) : Prop :=
  (ids.idSequence < ids.idEnd ∨ used ids.idSequence = true) ∧
    ((∃ id, Free used ids id) ∨ ids.idBase+1 < ids.idSequence ∧ ids.idSequence < ids.idEnd)

section Scan

variable {used : EndpointId → Bool} {base hi c o instanceId fuel : ℕ}
  {next : EndpointId × RouterIds}

theorem scan_stop (hu : used c = false) :
    RouterIds.nextIdScan used o (fuel+1) ⟨base,hi,c,instanceId⟩ =
      some (c,⟨base,hi,c+1,instanceId⟩) := by
  rw [RouterIds.nextIdScan]
  simp [hu]

theorem scan_wrap (hu : used c = true) (hle : hi ≤ c+1) :
    RouterIds.nextIdScan used o (fuel+1) ⟨base,hi,c,instanceId⟩ =
      RouterIds.nextIdScan used o fuel ⟨base,hi,base+1,instanceId⟩ := by
  rw [RouterIds.nextIdScan]
  simp [hu, hle]

theorem scan_back (hu : used c = true) (hlt : c+1 < hi) (hback : c+1 = o) :
    RouterIds.nextIdScan used o (fuel+1) ⟨base,hi,c,instanceId⟩ =
      some (0,⟨base,hi,c+1,instanceId⟩) := by
  subst hback
  rw [RouterIds.nextIdScan]
  simp [hu, not_le.mpr hlt]

theorem scan_next (hu : used c = true) (hlt : c+1 < hi) (hne : c+1 ≠ o) :
    RouterIds.nextIdScan used o (fuel+1) ⟨base,hi,c,instanceId⟩ =
      RouterIds.nextIdScan used o fuel ⟨base,hi,c+1,instanceId⟩ := by
  rw [RouterIds.nextIdScan]
  simp [hu, not_le.mpr hlt, hne]

/-- The scan stops where it comes to an id that no node has, or returns zero
when it is back and nodes have all. -/
theorem scan_sound (hbase : base < o) (hrange : base+1 < hi)
    (hr : Reached (base+1) hi o used c)
    (h : RouterIds.nextIdScan used o fuel ⟨base,hi,c,instanceId⟩ = some next) :
    next.1 = 0 ∧ (∀ n, Tried (base+1) hi o n → used n = true) ∨
      Reached (base+1) hi o used next.1 ∧ used next.1 = false := by
  induction fuel generalizing c with
  | zero => cases h
  | succ fuel ih =>
    cases hu : used c with
    | false =>
      rw [scan_stop hu] at h
      obtain rfl := Option.some.inj h
      exact Or.inr ⟨hr,hu⟩
    | true =>
      rcases le_or_gt hi (c+1) with hle | hlt
      · rw [scan_wrap hu hle] at h
        exact ih (hr.wrap hu hbase hrange hle) h
      · by_cases hback : c+1 = o
        · rw [scan_back hu hlt hback] at h
          obtain rfl := Option.some.inj h
          exact Or.inl ⟨rfl,fun n hn => hr.around hu hback hlt hn⟩
        · rw [scan_next hu hlt hback] at h
          exact ih (hr.next hu hbase hlt) h

/-- Going up, the scan ends at an id that no node has or where it started. -/
theorem scan_up {t : ℕ} (ht : t < hi)
    (hstop : used t = false ∧ c ≤ t ∨ t = o ∧ c < t) (hfuel : t-c < fuel) :
    (RouterIds.nextIdScan used o fuel ⟨base,hi,c,instanceId⟩).isSome = true := by
  induction fuel generalizing c with
  | zero => omega
  | succ fuel ih =>
    cases hu : used c with
    | false =>
      rw [scan_stop hu]
      rfl
    | true =>
      have hct : c < t := by
        rcases hstop with ⟨hut,hle⟩ | ⟨-,hlt⟩
        · refine lt_of_le_of_ne hle (fun heq => ?_)
          rw [heq, hut] at hu
          cases hu
        · exact hlt
      by_cases hback : c+1 = o
      · rw [scan_back hu (by omega) hback]
        rfl
      · rw [scan_next hu (by omega) hback]
        refine ih ?_ (by omega)
        rcases hstop with ⟨hut,-⟩ | ⟨hto,-⟩
        · exact Or.inl ⟨hut,hct⟩
        · exact Or.inr ⟨hto,by omega⟩

/-- The scan ends when it can end somewhere in the range. -/
theorem scan_ends {t : ℕ} (hbase : base < t) (ht : t < hi)
    (hstop : used t = false ∨ t = o ∧ base+1 < t) (hfuel : hi-c+(hi-base) < fuel) :
    (RouterIds.nextIdScan used o fuel ⟨base,hi,c,instanceId⟩).isSome = true := by
  induction fuel generalizing c with
  | zero => omega
  | succ fuel ih =>
    cases hu : used c with
    | false =>
      rw [scan_stop hu]
      rfl
    | true =>
      rcases le_or_gt hi (c+1) with hle | hlt
      · rw [scan_wrap hu hle]
        exact scan_up ht (hstop.imp (fun h => ⟨h,hbase⟩) id) (by omega)
      · by_cases hback : c+1 = o
        · rw [scan_back hu hlt hback]
          rfl
        · rw [scan_next hu hlt hback]
          exact ih (by omega)

/-- With no free id and nowhere in the range to come back to, the scan can
only leave the range. -/
theorem scan_leaves (hbase : base < c) (hfull : ∀ n, base < n → n < hi → used n = true)
    (ho : ¬ (base+1 < o ∧ o < hi))
    (h : RouterIds.nextIdScan used o fuel ⟨base,hi,c,instanceId⟩ = some next) :
    base < next.1 ∧ hi ≤ next.1 := by
  induction fuel generalizing c with
  | zero => cases h
  | succ fuel ih =>
    cases hu : used c with
    | false =>
      rw [scan_stop hu] at h
      obtain rfl := Option.some.inj h
      refine ⟨hbase,not_lt.mp (fun hlt => ?_)⟩
      rw [hfull c hbase hlt] at hu
      cases hu
    | true =>
      rcases le_or_gt hi (c+1) with hle | hlt
      · rw [scan_wrap hu hle] at h
        exact ih (by omega) h
      · rw [scan_next hu hlt (by omega)] at h
        exact ih (by omega) h

variable (instanceId) in
/-- What is reached is returned. -/
theorem scan_reaches {t : ℕ} (hbase : base < o) (hrange : base+1 < hi)
    (hfuel : hi-o+(hi-base) < fuel) (hr : Reached (base+1) hi o used t) (hu : used t = false) :
    ∃ next, RouterIds.nextIdScan used o fuel ⟨base,hi,o,instanceId⟩ = some next ∧
      next.1 = t := by
  have hends : (RouterIds.nextIdScan used o fuel ⟨base,hi,o,instanceId⟩).isSome = true := by
    rcases hr.tried with rfl | ⟨hlo,hlt⟩
    · obtain ⟨k,rfl⟩ := Nat.exists_eq_add_one_of_ne_zero (Nat.ne_of_gt (Nat.zero_lt_of_lt hfuel))
      rw [scan_stop hu]
      rfl
    · exact scan_ends hlo hlt (Or.inl hu) hfuel
  obtain ⟨next,h⟩ := Option.isSome_iff_exists.mp hends
  refine ⟨next,h,?_⟩
  rcases scan_sound hbase hrange reached_start h with ⟨-,hall⟩ | ⟨hr',hu'⟩
  · rw [hall t hr.tried] at hu
    cases hu
  · exact hr'.unique hr hu' hu

theorem scan_keeps (hbase : base < c)
    (h : RouterIds.nextIdScan used o fuel ⟨base,hi,c,instanceId⟩ = some next) :
    next.2.idBase = base ∧ next.2.idEnd = hi ∧ base < next.2.idSequence := by
  induction fuel generalizing c with
  | zero => cases h
  | succ fuel ih =>
    cases hu : used c with
    | false =>
      rw [scan_stop hu] at h
      obtain rfl := Option.some.inj h
      exact ⟨rfl,rfl,Nat.lt_succ_of_lt hbase⟩
    | true =>
      rcases le_or_gt hi (c+1) with hle | hlt
      · rw [scan_wrap hu hle] at h
        exact ih (Nat.lt_succ_self base) h
      · by_cases hback : c+1 = o
        · rw [scan_back hu hlt hback] at h
          obtain rfl := Option.some.inj h
          exact ⟨rfl,rfl,Nat.lt_succ_of_lt hbase⟩
        · rw [scan_next hu hlt hback] at h
          exact ih (Nat.lt_succ_of_lt hbase) h

end Scan

/-- The call returns, and returns a free id or zero if there is none, exactly
under these conditions on the counter and the ids in use. -/
theorem returns_iff (used : EndpointId → Bool) (ids : RouterIds)
    (hseq : ids.idBase < ids.idSequence) :
    (∃ fuel next, ids.getNextId used fuel = some next ∧ Proper used ids next.1) ↔
      Returns used ids := by
  obtain ⟨base,hi,c,instanceId⟩ := ids
  unfold RouterIds.getNextId Proper Returns Free
  dsimp only at hseq ⊢
  constructor
  · rintro ⟨fuel,next,h,hproper⟩
    constructor
    · by_contra hcounter
      obtain ⟨hle,hu⟩ := not_or.mp hcounter
      cases fuel with
      | zero => cases h
      | succ fuel =>
        rw [scan_stop (by simpa using hu)] at h
        obtain rfl := Option.some.inj h
        rcases hproper with ⟨⟨-,hlt⟩,-⟩ | ⟨hzero,-⟩
        · exact hle hlt
        · exact absurd hzero (Nat.ne_of_gt (Nat.zero_lt_of_lt hseq))
    · by_contra hsome
      obtain ⟨hnone,ho⟩ := not_or.mp hsome
      have hfull (n : ℕ) (hlo : base < n) (hlt : n < hi) : used n = true := by
        by_contra hu
        exact hnone ⟨n,⟨hlo,hlt⟩,by simpa using hu⟩
      obtain ⟨hpos,hle⟩ := scan_leaves hseq hfull ho h
      rcases hproper with hfree | ⟨hzero,-⟩
      · exact hnone ⟨_,hfree⟩
      · rw [hzero] at hpos
        exact absurd hpos (Nat.not_lt_zero _)
  · rintro ⟨hcounter,hsome⟩
    obtain ⟨t,hlo,hlt,hstop⟩ : ∃ t, base < t ∧ t < hi ∧
        (used t = false ∨ t = c ∧ base+1 < t) := by
      rcases hsome with ⟨id,⟨hlo,hlt⟩,hu⟩ | ⟨hlo,hlt⟩
      · exact ⟨id,hlo,hlt,Or.inl hu⟩
      · exact ⟨c,hseq,hlt,Or.inr ⟨rfl,hlo⟩⟩
    have hrange : base+1 < hi := Nat.lt_of_le_of_lt hlo hlt
    have hends : (RouterIds.nextIdScan used c (hi-c+(hi-base)+1)
        ⟨base,hi,c,instanceId⟩).isSome = true :=
      scan_ends hlo hlt hstop (Nat.lt_succ_self _)
    obtain ⟨next,h⟩ := Option.isSome_iff_exists.mp hends
    refine ⟨_,next,h,?_⟩
    rcases scan_sound hseq hrange reached_start h with ⟨hzero,hall⟩ | ⟨hr,hu⟩
    · refine Or.inr ⟨hzero,?_⟩
      rintro i ⟨hi,hui⟩
      rw [hall i (Or.inr hi)] at hui
      cases hui
    · refine Or.inl ⟨?_,hu⟩
      rcases hr.tried with heq | hin
      · rw [heq] at hu ⊢
        exact ⟨hseq,hcounter.resolve_right (by simp [hu])⟩
      · exact hin

/-- The connection was sent this id. -/
def Assigned (sent : List Sent) (link : ℕ) (id : EndpointId) : Prop :=
  ∃ x ∈ sent, x.hop = .pending link ∧ x.msgId = msgbusId .assignId ∧ x.message.targetId = id

/-- The connection is pending and was not adopted. -/
def Waits (r : Router) (pending : RouterPending) : Prop :=
  pending ∈ r.nodes.pending ∧ pending.connection.isSome = true

/-- No two connections that wait were assigned the same id. -/
def Distinct (r : Router) : Prop :=
  ∀ p q, Waits r p → Waits r q → p.link ≠ q.link →
    ∀ id, Assigned r.sent p.link id → ¬ Assigned r.sent q.link id

/-- The scan from the counter does not stop at an id that another waiting
connection was assigned: a node has it, or the scan passes an id before it that
no node has. -/
def PassesOthers (r : Router) (link : ℕ) : Prop :=
  ∀ q, Waits r q → q.link ≠ link → ∀ id, Assigned r.sent q.link id →
    r.hasNodeId id = true ∨
      ¬ Reached (r.ids.idBase+1) r.ids.idEnd r.ids.idSequence r.hasNodeId id

/-- Each allocation of the run passes the ids of the others. -/
def KeepsApart (r : Router) : Event → Prop
  | .message idx msgId _ => msgId = msgbusId .requestId →
      ∀ pending, r.nodes.pending[idx]? = some pending → pending.connection.isSome = true →
        PassesOthers r pending.link
  | _ => True

section Runs

variable {env : RouterEnv} {setup : Setup} {r r' : Router} {es : List Event} {e : Event}

theorem assigned_pendingSent {sent : List Sent} {link : ℕ} {id : EndpointId} :
    Assigned (pendingSent sent) link id ↔ Assigned sent link id := by
  constructor
  · rintro ⟨x,hx,hhop,hmsg⟩
    exact ⟨x,(mem_pendingSent.mp hx).1,hhop,hmsg⟩
  · rintro ⟨x,hx,hhop,hmsg⟩
    exact ⟨x,mem_pendingSent.mpr ⟨hx,by simp [hhop, Hop.isPending]⟩,hhop,hmsg⟩

/-- Nobody new waits and nothing new is assigned. -/
theorem Distinct.mono (h : Distinct r)
    (hwaits : ∀ p', Waits r' p' → ∃ p, Waits r p ∧ p.link = p'.link)
    (hassigned : ∀ link id, Assigned r'.sent link id → Assigned r.sent link id) :
    Distinct r' := by
  intro p' q' hp' hq' hne id hp hq
  obtain ⟨p,hpw,hpl⟩ := hwaits p' hp'
  obtain ⟨q,hqw,hql⟩ := hwaits q' hq'
  rw [← hpl] at hp hne
  rw [← hql] at hq hne
  exact h p q hpw hqw hne id (hassigned _ _ hp) (hassigned _ _ hq)

theorem Distinct.settled (h : Distinct r) (hs : Settled r r') : Distinct r' := by
  refine h.mono (fun p hp => ⟨p,⟨hs.pending.subset hp.1,hp.2⟩,rfl⟩) (fun link id ha => ?_)
  exact assigned_pendingSent.mp (hs.told ▸ assigned_pendingSent.mpr ha)

/-- A connection with a link of its own was assigned nothing. -/
theorem Distinct.accept {clk : Clock} {connection : Connection} (h : Distinct r)
    (hnew : ∀ id, ¬ Assigned r.sent connection.link id) :
    Distinct (r.handleAccept clk connection) := by
  have hcases {p : RouterPending} (hp : Waits (r.handleAccept clk connection) p) :
      Waits r p ∨ p.link = connection.link := by
    rcases List.mem_append.mp hp.1 with hin | hin
    · exact Or.inl ⟨hin,hp.2⟩
    · obtain rfl := List.mem_singleton.mp hin
      exact Or.inr rfl
  intro p q hp hq hne id hap haq
  rcases hcases hp with hp | hp
  · rcases hcases hq with hq | hq
    · exact h p q hp hq hne id hap haq
    · exact hnew id (hq ▸ haq)
  · exact hnew id (hp ▸ hap)

/-- A pending connection that was sent no id has done something. -/
theorem Distinct.handled {idx : ℕ} {pending : RouterPending} {next : RouterPending × Router}
    (h : Distinct r) (hp : r.nodes.pending[idx]? = some pending)
    (hc : pending.connection.isSome = true) (hn : Handled r pending next)
    (hassigned : ∀ link id, Assigned next.2.sent link id → Assigned r.sent link id) :
    Distinct (next.2.withPending (r.nodes.pending.set idx next.1)) := by
  refine h.mono (fun p hw => ?_) hassigned
  rcases List.mem_or_eq_of_mem_set hw.1 with hin | rfl
  · exact ⟨p,⟨hin,hw.2⟩,rfl⟩
  · exact ⟨pending,⟨List.mem_of_getElem? hp,hc⟩,hn.link.symm⟩

theorem assigned_append {sent : List Sent} {x : Sent} {link : ℕ} {id : EndpointId} :
    Assigned (sent++[x]) link id ↔ Assigned sent link id ∨
      x.hop = .pending link ∧ x.msgId = msgbusId .assignId ∧ x.message.targetId = id := by
  unfold Assigned
  simp [or_and_right, exists_or]

variable (env r) in
theorem assignId_cases (link : ℕ) :
    r.ids.getNextId r.hasNodeId env.getNextIdFuel = none ∧ r.assignId env link = r ∨
      ∃ next, r.ids.getNextId r.hasNodeId env.getNextIdFuel = some next ∧
        (r.assignId env link).ids = next.2 ∧
        (∀ l id, Assigned (r.assignId env link).sent l id ↔
          Assigned r.sent l id ∨ next.1 ≠ 0 ∧ l = link ∧ id = next.1) := by
  unfold assignId
  cases hg : r.ids.getNextId r.hasNodeId env.getNextIdFuel with
  | none => exact Or.inl ⟨rfl,rfl⟩
  | some next =>
    refine Or.inr ⟨next,rfl,?_⟩
    dsimp only
    split_ifs with hzero
    · refine ⟨rfl,fun l id => ?_⟩
      rw [Transport.send, assigned_append]
      simp [hzero, eq_comm]
    · refine ⟨rfl,fun l id => ?_⟩
      simp [not_not.mp hzero]

/-- The range is the one that was set up; the counter is past its base. -/
structure Counts (setup : Setup) (r : Router) : Prop where
  base : r.ids.idBase = (start setup).ids.idBase
  last : r.ids.idEnd = (start setup).ids.idEnd
  seq : r.ids.idBase < r.ids.idSequence

theorem getNextId_keeps {next : EndpointId × RouterIds} {used : EndpointId → Bool} {fuel : ℕ}
    {ids : RouterIds} (hseq : ids.idBase < ids.idSequence)
    (h : ids.getNextId used fuel = some next) :
    next.2.idBase = ids.idBase ∧ next.2.idEnd = ids.idEnd ∧
      next.2.idBase < next.2.idSequence := by
  obtain ⟨base,hi,c,instanceId⟩ := ids
  obtain ⟨hb,hl,hs⟩ := scan_keeps hseq h
  exact ⟨hb,hl,by rw [hb]; exact hs⟩

theorem message_request (pending : RouterPending) (message : MessageView) :
    r.handlePendingMessage env pending (msgbusId .requestId) message =
      (pending,r.assignId env pending.link) := rfl

/-- Only a request for an id changes the router. -/
theorem message_other (pending : RouterPending) {msgId : MessageId} (message : MessageView)
    (hid : msgId ≠ msgbusId .requestId) :
    (r.handlePendingMessage env pending msgId message).2 = r := by
  unfold handlePendingMessage
  by_cases hs : isSpecialMessage msgId = true
  · rw [if_pos hs]
    split
    · rename_i hm
      refine absurd ?_ hid
      cases msgId
      simp_all [isSpecialMessage, msgbusId]
    · rfl
    · rfl
    · split_ifs <;> rfl
    · rfl
  · rw [if_neg hs]

/-- A pending connection that keeps the counter and is assigned nothing. -/
def Quiet (r r' : Router) : Prop :=
  r'.ids = r.ids ∧ ∀ link id, Assigned r'.sent link id → Assigned r.sent link id

theorem requestPassword_quiet (pending : RouterPending) (clk : Clock) (random : Block) :
    Quiet r (requestPassword env r clk random pending).2 := by
  unfold requestPassword RouterPending.tryRequestPassword
  split_ifs
  · refine ⟨rfl,fun link id ha => ?_⟩
    simpa [Transport.send, assigned_append, msgbusId] using ha
  · exact ⟨rfl,fun _ _ ha => ha⟩

theorem tryAdopt_quiet (pending : RouterPending) (clk : Clock) :
    Quiet r (tryAdopt env r clk pending).2 := by
  unfold tryAdopt
  split_ifs
  · refine ⟨rfl,fun link id ha => ?_⟩
    simpa [adoptPending, RouterNodes.adoptPending, Transport.send, assigned_append, msgbusId]
      using ha
  · exact ⟨rfl,fun _ _ ha => ha⟩

theorem atIndex_quiet (idx : ℕ) {f : RouterPending → RouterPending × Router}
    (hf : ∀ p, Handled r p (f p)) (hq : ∀ p, Quiet r (f p).2) :
    (atIndex r idx f).ids = r.ids ∧ (Distinct r → Distinct (atIndex r idx f)) := by
  rcases atIndex_cases r idx hf with ⟨heq,-⟩ | ⟨pending,hp,hc,hn,heq⟩
  · rw [heq]
    exact ⟨rfl,id⟩
  · rw [heq]
    exact ⟨(hq pending).1,fun h => h.handled hp hc hn (hq pending).2⟩

theorem Counts.step (h : Counts setup r) (e : Event) : Counts setup (step env r e) := by
  have hsame {r' : Router} (hi : r'.ids = r.ids) : Counts setup r' := by
    refine ⟨?_,?_,?_⟩ <;> rw [hi]
    · exact h.base
    · exact h.last
    · exact h.seq
  cases e with
  | message idx msgId message =>
    rcases atIndex_cases r idx (fun p => message_handled env r p msgId message) with
      ⟨heq,-⟩ | ⟨pending,-,-,-,heq⟩
    · rw [PendingRun.step, heq]
      exact h
    · rw [PendingRun.step, heq]
      by_cases hid : msgId = msgbusId .requestId
      · subst hid
        rw [message_request]
        rcases assignId_cases env r pending.link with
          ⟨-,hr⟩ | ⟨next,hnext,hids,-⟩
        · exact hsame (by rw [hr]; rfl)
        · obtain ⟨hb,hl,hs⟩ := getNextId_keeps h.seq hnext
          change Counts setup { r.assignId env pending.link with nodes := _ }
          refine ⟨?_,?_,?_⟩
          · exact (congrArg RouterIds.idBase hids).trans (hb.trans h.base)
          · exact (congrArg RouterIds.idEnd hids).trans (hl.trans h.last)
          · change (r.assignId env pending.link).ids.idBase <
              (r.assignId env pending.link).ids.idSequence
            rw [hids]
            exact hs
      · refine hsame ?_
        change (r.handlePendingMessage env pending msgId message).2.ids = r.ids
        rw [message_other pending message hid]
  | requestPassword idx clk random =>
    exact hsame (atIndex_quiet idx (fun p => requestPassword_handled env r p clk random)
      (fun p => requestPassword_quiet p clk random)).1
  | adopt idx clk =>
    exact hsame (atIndex_quiet idx (fun p => tryAdopt_handled env r p clk)
      (fun p => tryAdopt_quiet p clk)).1
  | remove idx clk => exact hsame (remove_settled r idx clk).ids
  | router e =>
    rcases Settled.of_outside e with ⟨clk,connection,rfl⟩ | hs
    · exact hsame rfl
    · exact hsame hs.ids

theorem counts : Counts setup (after env setup es) := by
  refine StepRun.run_keeps (fun _ e h => h.step e) ⟨rfl,rfl,?_⟩
  unfold start init RouterIds.setupFromConfig
  split_ifs
  · exact Nat.lt_succ_self _
  · exact Nat.lt_succ_self 1

/-- A request keeps the waiting connections distinct exactly if its scan passes
the ids of the others. -/
theorem request_distinct_iff {idx : ℕ} {pending : RouterPending} (h : Distinct r)
    (hp : r.nodes.pending[idx]? = some pending) (hc : pending.connection.isSome = true)
    (hseq : r.ids.idBase < r.ids.idSequence) (hrange : r.ids.idBase+1 < r.ids.idEnd)
    (hfuel : 2*r.ids.idEnd < env.getNextIdFuel) :
    Distinct ((r.assignId env pending.link).withPending (r.nodes.pending.set idx pending)) ↔
      PassesOthers r pending.link := by
  have hpending : r.nodes.pending.set idx pending = r.nodes.pending := by
    obtain ⟨hlt,rfl⟩ := List.getElem?_eq_some_iff.mp hp
    exact List.set_getElem_self hlt
  rw [hpending]
  have hself : Waits r pending := ⟨List.mem_of_getElem? hp,hc⟩
  have hnext := assignId_cases env r pending.link
  constructor
  · intro hd q hq hne id ha
    by_contra hno
    obtain ⟨hu,hr⟩ := not_or.mp hno
    have hbound (a b c : ℕ) : a-b+(a-c) ≤ 2*a := by omega
    obtain ⟨next,hget,rfl⟩ := scan_reaches r.ids.instanceId hseq hrange
      (lt_of_le_of_lt (hbound _ _ _) hfuel) (not_not.mp hr) (by simpa using hu)
    rcases hnext with ⟨hnone,-⟩ | ⟨next',hget',-,hassigned⟩
    · exact absurd (hget.symm.trans hnone) (by simp)
    · obtain rfl := Option.some.inj (hget.symm.trans hget')
      have hpos : next.1 ≠ 0 := by
        have ht := (not_not.mp hr).tried
        rcases ht with heq | ⟨hlo,-⟩
        · rw [heq]
          exact Nat.ne_of_gt (Nat.zero_lt_of_lt hseq)
        · exact Nat.ne_of_gt (Nat.zero_lt_of_lt hlo)
      exact hd q pending hq hself hne next.1 ((hassigned _ _).mpr (Or.inl ha))
        ((hassigned _ _).mpr (Or.inr ⟨hpos,rfl,rfl⟩))
  · intro hpass
    rcases hnext with ⟨-,heq⟩ | ⟨next,hget,-,hassigned⟩
    · rw [heq]
      exact h
    · have hother {q : RouterPending} (hq : Waits r q) (hne : q.link ≠ pending.link)
          (hpos : next.1 ≠ 0) : ¬ Assigned r.sent q.link next.1 := by
        intro ha
        rcases scan_sound hseq hrange reached_start hget with ⟨hzero,-⟩ | ⟨hr,hu⟩
        · exact hpos hzero
        · rcases hpass q hq hne next.1 ha with hused | hno
          · rw [hused] at hu
            cases hu
          · exact hno hr
      intro p q hp hq hne id hap haq
      rcases (hassigned _ _).mp hap with hap | ⟨hpos,hpl,rfl⟩
      · rcases (hassigned _ _).mp haq with haq | ⟨hpos,hql,rfl⟩
        · exact h p q hp hq hne id hap haq
        · exact hother hp (fun heq => hne (heq.trans hql.symm)) hpos hap
      · rcases (hassigned _ _).mp haq with haq | ⟨-,hql,-⟩
        · exact hother hq (fun heq => hne (hpl.trans heq.symm)) hpos haq
        · exact hne (hpl.trans hql.symm)

/-- A step out of a state with distinct ids. -/
theorem step_distinct_iff (h : Distinct (after env setup es)) (hlinks : (links (es++[e])).Nodup)
    (hrange : (start setup).ids.idBase+1 < (start setup).ids.idEnd)
    (hfuel : 2*(start setup).ids.idEnd < env.getNextIdFuel) :
    Distinct (step env (after env setup es) e) ↔ KeepsApart (after env setup es) e := by
  have hc : Counts setup (after env setup es) := counts
  rw [← hc.last] at hfuel
  rw [← hc.base, ← hc.last] at hrange
  cases e with
  | message idx msgId message =>
    rcases atIndex_cases (after env setup es) idx
      (fun p => message_handled env (after env setup es) p msgId message) with
      ⟨heq,hno⟩ | ⟨pending,hp,hsome,hn,heq⟩
    · rw [step, heq]
      refine iff_of_true h (fun _ pending hp hsome => ?_)
      rw [hno pending hp] at hsome
      cases hsome
    · rw [step, heq]
      by_cases hid : msgId = msgbusId .requestId
      · subst hid
        rw [message_request, request_distinct_iff h hp hsome hc.seq hrange hfuel]
        constructor
        · intro hpass _ p hp' _
          obtain rfl := Option.some.inj (hp.symm.trans hp')
          exact hpass
        · exact fun hkeep => hkeep rfl pending hp hsome
      · refine iff_of_true (h.handled hp hsome hn (fun link id ha => ?_))
          (fun hid' => absurd hid' hid)
        rwa [message_other pending message hid] at ha
  | requestPassword idx clk random =>
    exact iff_of_true ((atIndex_quiet idx (fun p => requestPassword_handled env _ p clk random)
      (fun p => requestPassword_quiet p clk random)).2 h) trivial
  | adopt idx clk =>
    exact iff_of_true ((atIndex_quiet idx (fun p => tryAdopt_handled env _ p clk)
      (fun p => tryAdopt_quiet p clk)).2 h) trivial
  | remove idx clk => exact iff_of_true (h.settled (remove_settled _ idx clk)) trivial
  | router e =>
    rcases Settled.of_outside e with ⟨clk,connection,rfl⟩ | hs
    · rw [links_snoc] at hlinks
      refine iff_of_true (h.accept ?_) trivial
      rintro id ⟨x,hx,hhop,-⟩
      exact List.disjoint_of_nodup_append hlinks
        ((apart (List.nodup_append.mp hlinks).1).told x hx _ hhop) (by simp [accepted])
    · exact iff_of_true (h.settled hs) trivial

theorem always_distinct_iff (hlinks : (links es).Nodup)
    (hrange : (start setup).ids.idBase+1 < (start setup).ids.idEnd)
    (hfuel : 2*(start setup).ids.idEnd < env.getNextIdFuel) :
    StepRun.Always (step env) Distinct (start setup) es ↔
      StepRun.Steps (step env) KeepsApart (start setup) es := by
  induction es using List.reverseRecOn with
  | nil =>
    refine iff_of_true ?_ trivial
    rintro p q ⟨hp,-⟩
    cases hp
  | append_singleton es e ih =>
    have hnodup : (links es).Nodup := by
      rw [links_snoc] at hlinks
      exact (List.nodup_append.mp hlinks).1
    rw [StepRun.always_snoc, StepRun.steps_snoc, ← ih hnodup]
    exact and_congr_right (fun hbefore =>
      step_distinct_iff (StepRun.always_last hbefore) hlinks hrange hfuel)

end Runs

/-- A call returns as it should exactly under the conditions of `Returns`; and
the connections that wait have distinct ids throughout a run exactly if each
allocation passes the ids of the others. Throughout a run means in all of its
states, also when no id of the range is left. -/
theorem allocation_iff (used : EndpointId → Bool) (ids : RouterIds)
    (hseq : ids.idBase < ids.idSequence) (env : RouterEnv) (setup : Setup) (es : List Event)
    (hlinks : (links es).Nodup)
    (hrange : (start setup).ids.idBase+1 < (start setup).ids.idEnd)
    (hfuel : 2*(start setup).ids.idEnd < env.getNextIdFuel) :
    ((∃ fuel next, ids.getNextId used fuel = some next ∧ Proper used ids next.1) ↔
        Returns used ids) ∧
      (StepRun.Always (step env) Distinct (start setup) es ↔
        StepRun.Steps (step env) KeepsApart (start setup) es) :=
  ⟨returns_iff used ids hseq,always_distinct_iff hlinks hrange hfuel⟩

/-- A connection asks for an id and is adopted with one. -/
def ask (idx link : ℕ) : List Event :=
  [.router (.handleAccept sampleClock { link }),.message idx (msgbusId .requestId) {}]

def join (idx : ℕ) (method : Identifier) (id : EndpointId) : List Event :=
  [.message idx (msgbusId method) { sourceId := id },.adopt idx sampleClock,
    .remove idx sampleClock]

theorem allocation_iff_ask :
    ((∃ fuel next, (RouterIds.setupFromConfig 10 4 1).getNextId (fun id => id = 11) fuel =
          some next ∧ Proper (fun id => id = 11) (.setupFromConfig 10 4 1) next.1) ↔
        Returns (fun id => id = 11) (.setupFromConfig 10 4 1)) ∧
      (StepRun.Always (step RouterRun.sampleEnv) Distinct (start ⟨10,4,1,[],false⟩)
          (ask 0 1 ++ ask 1 2) ↔
        StepRun.Steps (step RouterRun.sampleEnv) KeepsApart (start ⟨10,4,1,[],false⟩)
          (ask 0 1 ++ ask 1 2)) :=
  allocation_iff (fun id => id = 11) (.setupFromConfig 10 4 1) (by decide) RouterRun.sampleEnv
    ⟨10,4,1,[],false⟩ (ask 0 1 ++ ask 1 2) (by decide) (by decide) (by decide)

/-- An id of the range that a node has or a waiting connection was assigned. -/
def Outstanding (r : Router) (id : EndpointId) : Prop :=
  r.ids.idBase < id ∧ (r.hasNodeId id = true ∨
    ∃ pending ∈ r.nodes.pending, pending.connection.isSome = true ∧
      Assigned r.sent pending.link id)

instance (sent : List Sent) (link : ℕ) (id : EndpointId) : Decidable (Assigned sent link id) :=
  inferInstanceAs (Decidable (∃ x ∈ sent, _))

instance (r : Router) (id : EndpointId) : Decidable (Outstanding r id) :=
  inferInstanceAs (Decidable (_ ∧ (_ ∨ ∃ pending ∈ _, _)))

def outstanding (r : Router) : ℕ :=
  ((List.range r.ids.idEnd).filter (fun id => Outstanding r id)).length

/-- The range has the ids 11 to 13. One connection waits with 11; one is
adopted with 12 and leaves; one comes with the id 13; then another one asks. -/
def wrapping : List Event :=
  ask 0 1 ++ ask 1 2 ++ join 1 .annEndptId 12 ++
    [.router (.fromNode sampleClock 12 (msgbusId .byeByeEndp) 0 { sourceId := 12 }),
      .router (.removeDisconnected sampleClock),
      .router (.handleAccept sampleClock { link := 3 })] ++ join 1 .announceId 13 ++ ask 1 4

/-- The second id of a range with one id is its end; and the scan that wraps
assigns the id of a connection that waits, though another one is free. -/
theorem end_returned_and_id_shared :
    (RouterIds.setupFromConfig 10 2 1).getNextId (fun _ => false) 1 =
        some (11,⟨10,12,12,1⟩) ∧
      RouterIds.getNextId (fun _ => false) 1 ⟨10,12,12,1⟩ = some (12,⟨10,12,13,1⟩) ∧
      ¬ Proper (fun _ => false) ⟨10,12,12,1⟩ 12 ∧
      StepRun.Steps (step RouterRun.sampleEnv) (fun r _ => outstanding r < 14-10-1)
        (start ⟨10,4,1,[],false⟩) wrapping ∧
      ¬ Distinct (after RouterRun.sampleEnv ⟨10,4,1,[],false⟩ wrapping) := by
  refine ⟨rfl,rfl,?_,by decide,fun h => ?_⟩
  · rintro (⟨⟨-,hlt⟩,-⟩ | ⟨hzero,-⟩)
    · exact absurd hlt (by decide)
    · cases hzero
  · refine h (.accept sampleClock false { link := 1 }) (.accept sampleClock false { link := 4 })
      ⟨by decide,rfl⟩ ⟨by decide,rfl⟩ (by decide) 11 (by decide) (by decide)

end MsgBus.IdAllocation
