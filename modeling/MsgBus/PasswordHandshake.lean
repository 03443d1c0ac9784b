import MsgBus.PendingRun

/-!
# The password handshake

A pending connection that is not in-process is sent a nonce and proves that it
knows the password for it. A reply is also looked at before the nonce was
filled and sent: one that matches the buffer as it is then counts as well.
-/

set_option autoImplicit false

namespace MsgBus.PasswordHandshake

open Router PendingRun
open RouterRun (Setup start)

/-- A request for the password was sent to this connection. -/
def Asked (sent : List Sent) (link : ℕ) : Prop :=
  ∃ x ∈ sent, x.hop = .pending link ∧ x.msgId = msgbusId .reqRutrPwd

section Steps

variable (env : RouterEnv)

/-- The step fills a nonce with these random bytes and sends it. -/
def Challenges (link : ℕ) (nonce : Block) (r : Router) : Event → Prop
  | .requestPassword idx clk random => random = nonce ∧
      ∃ x, (step env r (.requestPassword idx clk random)).sent = r.sent++[x] ∧
        x.hop = .pending link ∧ x.msgId = msgbusId .reqRutrPwd ∧ x.message.data = nonce
  | _ => False

/-- The step is a reply of this connection that matches the nonce it has. -/
def Answers (link : ℕ) (nonce : Block) (r : Router) : Event → Prop
  | .message idx msgId message => msgId = msgbusId .encRutrPwd ∧
      ∃ pending, r.nodes.pending[idx]? = some pending ∧ pending.connection.isSome = true ∧
        pending.link = link ∧ pending.nonce = nonce ∧
        env.matchesEncryptedSharedPassword nonce message.data = true
  | _ => False

/-- A matching reply comes before any request was sent to the connection. -/
def AnswersEarly (link : ℕ) (r : Router) (e : Event) : Prop :=
  (∃ nonce, Answers env link nonce r e) ∧ ¬ Asked r.sent link

/-- The random bytes fill the buffer they are put in. -/
def FillsNonce (r : Router) : Event → Prop
  | .requestPassword idx _ random =>
      ∀ pending, r.nodes.pending[idx]? = some pending → random.length = pending.nonce.length
  | _ => True

end Steps

section Runs

variable (env : RouterEnv) (setup : Setup) (es : List Event) (link : ℕ)

def Challenged (nonce : Block) : Prop :=
  StepRun.Sometime (step env) (Challenges env link nonce) (start setup) es

/-- The connection was sent a nonce and has answered that nonce afterwards. -/
def Answered : Prop :=
  ∃ before later nonce, es = before++later ∧ Challenged env setup before link nonce ∧
    StepRun.Sometime (step env) (Answers env link nonce) (after env setup before) later

def AnsweredEarly : Prop :=
  StepRun.Sometime (step env) (AnswersEarly env link) (start setup) es

end Runs

section Monotone

variable {env : RouterEnv} {setup : Setup} {es : List Event} {e : Event} {link : ℕ}
  {nonce : Block}

theorem asked_pendingSent {sent : List Sent} : Asked (pendingSent sent) link ↔ Asked sent link := by
  constructor
  · rintro ⟨x,hx,hhop,hid⟩
    exact ⟨x,(mem_pendingSent.mp hx).1,hhop,hid⟩
  · rintro ⟨x,hx,hhop,hid⟩
    exact ⟨x,mem_pendingSent.mpr ⟨hx,by simp [hhop, Hop.isPending]⟩,hhop,hid⟩

theorem Asked.step {r : Router} (h : Asked r.sent link) : Asked (step env r e).sent link := by
  obtain ⟨x,hx,hmsg⟩ := asked_pendingSent.mpr h
  exact asked_pendingSent.mp ⟨x,(told_grows env r e).subset hx,hmsg⟩

theorem Asked.run {r : Router} (h : Asked r.sent link) :
    Asked (StepRun.run (PendingRun.step env) r es).sent link := by
  induction es generalizing r with
  | nil => exact h
  | cons e es ih => exact ih h.step

theorem challenged_snoc : Challenged env setup (es++[e]) link nonce ↔
    Challenged env setup es link nonce ∨ Challenges env link nonce (after env setup es) e :=
  StepRun.sometime_snoc

theorem answeredEarly_snoc : AnsweredEarly env setup (es++[e]) link ↔
    AnsweredEarly env setup es link ∨ AnswersEarly env link (after env setup es) e :=
  StepRun.sometime_snoc

theorem Answered.snoc (h : Answered env setup es link) :
    Answered env setup (es++[e]) link := by
  obtain ⟨before,later,nonce,rfl,hch,han⟩ := h
  exact ⟨before,later++[e],nonce,List.append_assoc _ _ _,hch,
    StepRun.sometime_snoc.mpr (Or.inl han)⟩

/-- Whoever was challenged was asked. -/
theorem Challenged.asked (h : Challenged env setup es link nonce) :
    Asked (after env setup es).sent link := by
  induction es using List.reverseRecOn with
  | nil => exact h.elim
  | append_singleton es e ih =>
    rw [after_snoc]
    rcases challenged_snoc.mp h with h | h
    · exact (ih h).step
    · cases e with
      | requestPassword idx clk random =>
        obtain ⟨-,x,hsent,hhop,hid,-⟩ := h
        refine ⟨x,?_,hhop,hid⟩
        rw [hsent]
        simp
      | _ => exact h.elim

theorem Answered.asked (h : Answered env setup es link) :
    Asked (after env setup es).sent link := by
  obtain ⟨before,later,nonce,rfl,hch,-⟩ := h
  unfold after
  rw [StepRun.run_append]
  exact hch.asked.run

end Monotone

/-- What is known of a pending connection: the nonce it was asked for is the
one it was sent, and it is verified exactly after an answer. -/
structure Guarded (env : RouterEnv) (setup : Setup) (es : List Event) (sent : List Sent)
    (pending : RouterPending) : Prop where
  connection : ∀ c, pending.connection = some c →
    c.link = pending.link ∧ c.kind = pending.connectionKind
  nonce : pending.connectionKind ≠ .inProcess → pending.nonce ≠ []
  asked : Asked sent pending.link → Challenged env setup es pending.link pending.nonce
  verified : pending.passwordVerified = true →
    Answered env setup es pending.link ∨ AnsweredEarly env setup es pending.link
  early : AnsweredEarly env setup es pending.link → pending.passwordVerified = true

structure Inv (env : RouterEnv) (setup : Setup) (es : List Event) (r : Router) : Prop where
  password : r.passwordIsRequired = true
  guarded : ∀ pending ∈ r.nodes.pending, Guarded env setup es r.sent pending
  nodes : ∀ e ∈ r.nodes.nodes.entries, ∀ c, e.2.connection = some c → c.kind ≠ .inProcess →
    Answered env setup es c.link ∨ AnsweredEarly env setup es c.link
  early : ∀ link, AnsweredEarly env setup es link → ¬ Asked r.sent link

section Step

variable {env : RouterEnv} {setup : Setup} {es : List Event} {e : Event} {link : ℕ}

/-- A step that neither asks the connection nor is an early answer of it. -/
theorem Guarded.keep {sent sent' : List Sent} {pending : RouterPending}
    (h : Guarded env setup es sent pending)
    (hasked : Asked sent' pending.link → Asked sent pending.link)
    (hearly : ¬ AnswersEarly env pending.link (after env setup es) e) :
    Guarded env setup (es++[e]) sent' pending := by
  refine ⟨h.connection,h.nonce,fun ha => ?_,fun hv => ?_,fun hae => ?_⟩
  · exact challenged_snoc.mpr (Or.inl (h.asked (hasked ha)))
  · exact (h.verified hv).imp Answered.snoc (fun hae => answeredEarly_snoc.mpr (Or.inl hae))
  · exact h.early ((answeredEarly_snoc.mp hae).resolve_right hearly)

theorem Inv.settled {r' : Router} (h : Inv env setup es (after env setup es))
    (hs : Settled (after env setup es) r')
    (hearly : ∀ link, ¬ AnswersEarly env link (after env setup es) e) :
    Inv env setup (es++[e]) r' := by
  have hasked {link : ℕ} (ha : Asked r'.sent link) : Asked (after env setup es).sent link :=
    asked_pendingSent.mp (hs.told ▸ asked_pendingSent.mpr ha)
  refine ⟨hs.password.trans h.password,fun p hp => ?_,fun d hd c hc hk => ?_,
    fun link hae ha => ?_⟩
  · exact (h.guarded p (hs.pending.subset hp)).keep hasked (hearly _)
  · obtain ⟨d',hd',c',hc',hlink,hkind⟩ := hs.nodes d hd c hc
    rw [← hlink]
    exact (h.nodes d' hd' c' hc' (hkind ▸ hk)).imp Answered.snoc
      (fun hae => answeredEarly_snoc.mpr (Or.inl hae))
  · exact h.early link ((answeredEarly_snoc.mp hae).resolve_right (hearly link)) (hasked ha)

/-- A new connection has been neither asked nor heard. -/
theorem Inv.accept {clk : Clock} {connection : Connection}
    (h : Inv env setup es (after env setup es)) (ha : Apart es (after env setup es))
    (hnew : connection.link ∉ links es)
    (hlate : ¬ AnsweredEarly env setup es connection.link) :
    Inv env setup (es++[.router (.handleAccept clk connection)])
      ((after env setup es).handleAccept clk connection) := by
  have hearly (link : ℕ) : ¬ AnswersEarly env link (after env setup es)
      (.router (.handleAccept clk connection)) := fun hae => hae.1.elim (fun _ h => h)
  refine ⟨h.password,fun p hp => ?_,fun d hd c hc hk => ?_,fun link hae hasked => ?_⟩
  · rcases List.mem_append.mp hp with hp | hp
    · exact (h.guarded p hp).keep id (hearly _)
    · obtain rfl := List.mem_singleton.mp hp
      refine ⟨?_,?_,?_,?_,?_⟩
      · intro c hc
        obtain rfl := Option.some.inj hc
        exact ⟨rfl,rfl⟩
      · intro hk
        have hk' : connection.kind ≠ .inProcess := hk
        simp [RouterPending.accept, h.password, hk']
      · rintro ⟨x,hx,hhop,-⟩
        exact absurd (ha.told x hx _ hhop) hnew
      · intro hv
        cases hv
      · intro hae
        exact absurd ((answeredEarly_snoc.mp hae).resolve_right (hearly _)) hlate
  · exact (h.nodes d hd c hc hk).imp Answered.snoc
      (fun hae => answeredEarly_snoc.mpr (Or.inl hae))
  · exact h.early link ((answeredEarly_snoc.mp hae).resolve_right (hearly link)) hasked

/-- A pending connection has done something at its index. -/
theorem Inv.handled {idx : ℕ} {pending : RouterPending} {next : RouterPending × Router}
    (h : Inv env setup es (after env setup es)) (ha : Apart es (after env setup es))
    (hp : (after env setup es).nodes.pending[idx]? = some pending)
    (hn : Handled (after env setup es) pending next)
    (hother : ∀ link, AnswersEarly env link (after env setup es) e → link = pending.link)
    (hguard : Guarded env setup (es++[e]) next.2.sent next.1)
    (hearly : AnsweredEarly env setup (es++[e]) pending.link → ¬ Asked next.2.sent pending.link)
    (hnodes : ∀ d ∈ next.2.nodes.nodes.entries, d ∈ (after env setup es).nodes.nodes.entries ∨
      d.2.connection = pending.connection ∧
        (pending.nonce = [] ∨ pending.passwordVerified = true)) :
    Inv env setup (es++[e])
      (next.2.withPending ((after env setup es).nodes.pending.set idx next.1)) := by
  have hasked {link : ℕ} (hne : link ≠ pending.link) (hask : Asked next.2.sent link) :
      Asked (after env setup es).sent link := by
    obtain ⟨new,hsent,hnew⟩ := hn.told
    obtain ⟨x,hx,hhop,hid⟩ := hask
    rw [hsent] at hx
    rcases List.mem_append.mp hx with hx | hx
    · exact ⟨x,hx,hhop,hid⟩
    · exact absurd (Hop.pending.inj (hhop.symm.trans (hnew x hx))) hne
  have hold := h.guarded pending (List.mem_of_getElem? hp)
  refine ⟨hn.password.trans h.password,fun p hp' => ?_,fun d hd c hc hk => ?_,
    fun link hae hask => ?_⟩
  · rcases mem_set_apart ha.nodup hp hn.link hp' with rfl | ⟨hin,hne⟩
    · exact hguard
    · exact (h.guarded p hin).keep (hasked hne) (fun hae => hne (hother _ hae))
  · refine Or.imp Answered.snoc (fun hae => answeredEarly_snoc.mpr (Or.inl hae)) ?_
    rcases hnodes d hd with hd | ⟨hd,hv⟩
    · exact h.nodes d hd c hc hk
    · obtain ⟨hlink,hkind⟩ := hold.connection c (hd ▸ hc)
      rw [hlink]
      exact hold.verified (hv.resolve_left (hold.nonce (hkind ▸ hk)))
  · by_cases hl : link = pending.link
    · subst hl
      exact hearly hae hask
    · exact h.early link ((answeredEarly_snoc.mp hae).resolve_right
        (fun hae => hl (hother link hae))) (hasked hl hask)

variable (env) in
/-- What a message does to the nonce and the flag of a pending connection. -/
theorem message_spec (r : Router) (pending : RouterPending) (msgId : MessageId)
    (message : MessageView) :
    (r.handlePendingMessage env pending msgId message).1.nonce = pending.nonce ∧
      ((r.handlePendingMessage env pending msgId message).1.passwordVerified = true ↔
        pending.passwordVerified = true ∨ msgId = msgbusId .encRutrPwd ∧
          env.matchesEncryptedSharedPassword pending.nonce message.data = true) ∧
      (r.handlePendingMessage env pending msgId message).2.nodes.nodes = r.nodes.nodes ∧
      (Asked (r.handlePendingMessage env pending msgId message).2.sent pending.link →
        Asked r.sent pending.link) := by
  have hassign (ha : Asked (r.assignId env pending.link).sent pending.link) :
      Asked r.sent pending.link := by
    obtain ⟨x,hx,hhop,hid⟩ := ha
    unfold assignId at hx
    split at hx
    · exact ⟨x,hx,hhop,hid⟩
    · dsimp only at hx
      split_ifs at hx
      · rcases List.mem_append.mp hx with hx | hx
        · exact ⟨x,hx,hhop,hid⟩
        · obtain rfl := List.mem_singleton.mp hx
          simp [msgbusId] at hid
      · exact ⟨x,hx,hhop,hid⟩
  have hid : msgId = msgbusId .encRutrPwd ↔
      isSpecialMessage msgId = true ∧ msgId.method = .encRutrPwd := by
    cases msgId
    simp [msgbusId, isSpecialMessage]
  rw [hid]
  unfold handlePendingMessage
  by_cases hs : isSpecialMessage msgId = true
  · rw [if_pos hs]
    split
    · rename_i hm
      exact ⟨rfl,by simp [hm],(RouterRun.Valid.assignId_frame env r pending.link).nodes,hassign⟩
    · rename_i hm
      exact ⟨rfl,by simp [hm],rfl,id⟩
    · rename_i hm
      exact ⟨rfl,by simp [hm],rfl,id⟩
    · rename_i hm
      by_cases hv : env.matchesEncryptedSharedPassword pending.nonce message.data = true
      · rw [if_pos hv]
        exact ⟨rfl,by simp [hm, hs, hv],rfl,id⟩
      · rw [if_neg hv]
        exact ⟨rfl,by simp [hv],rfl,id⟩
    · rename_i hm
      have hne : msgId.method ≠ .encRutrPwd := hm
      exact ⟨rfl,by simp [hne],rfl,id⟩
  · rw [if_neg hs]
    exact ⟨rfl,by simp [hs],rfl,id⟩

theorem Inv.message {idx : ℕ} {msgId : MessageId} {message : MessageView}
    (h : Inv env setup es (after env setup es)) (ha : Apart es (after env setup es)) :
    Inv env setup (es++[.message idx msgId message])
      (step env (after env setup es) (.message idx msgId message)) := by
  rcases atIndex_cases (after env setup es) idx
    (fun p => message_handled env (after env setup es) p msgId message) with
    ⟨heq,hno⟩ | ⟨pending,hp,hc,hn,heq⟩
  · rw [step, heq]
    refine h.settled (.refl _) ?_
    rintro link ⟨⟨nonce,-,pending,hp,hc,-⟩,-⟩
    simp [hno pending hp] at hc
  · rw [step, heq]
    obtain ⟨hnonce,hverified,hnodes,hasked⟩ :=
      message_spec env (after env setup es) pending msgId message
    have hold := h.guarded pending (List.mem_of_getElem? hp)
    have hnow {link : ℕ} (hae : AnswersEarly env link (after env setup es)
        (.message idx msgId message)) : link = pending.link ∧ msgId = msgbusId .encRutrPwd ∧
          env.matchesEncryptedSharedPassword pending.nonce message.data = true ∧
          ¬ Asked (after env setup es).sent link := by
      obtain ⟨⟨nonce,hid,p,hp',-,rfl,rfl,hm⟩,hna⟩ := hae
      obtain rfl := Option.some.inj (hp.symm.trans hp')
      exact ⟨rfl,hid,hm,hna⟩
    refine h.handled ha hp hn (fun link hae => (hnow hae).1) ⟨?_,?_,?_,?_,?_⟩ ?_ ?_
    · intro c hc'
      rw [hn.link, hn.kind]
      exact hold.connection c (hn.connection c hc')
    · rw [hn.kind, hnonce]
      exact hold.nonce
    · rw [hn.link, hnonce]
      exact fun hask => challenged_snoc.mpr (Or.inl (hold.asked (hasked hask)))
    · rw [hn.link]
      intro hv
      rcases hverified.mp hv with hv | ⟨hid,hm⟩
      · exact (hold.verified hv).imp Answered.snoc
          (fun hae => answeredEarly_snoc.mpr (Or.inl hae))
      · have hans : Answers env pending.link pending.nonce (after env setup es)
            (.message idx msgId message) := ⟨hid,pending,hp,hc,rfl,rfl,hm⟩
        by_cases hask : Asked (after env setup es).sent pending.link
        · exact Or.inl ⟨es,[_],pending.nonce,rfl,hold.asked hask,Or.inl hans⟩
        · exact Or.inr (answeredEarly_snoc.mpr (Or.inr ⟨⟨_,hans⟩,hask⟩))
    · rw [hn.link]
      intro hae
      rcases answeredEarly_snoc.mp hae with hae | hae
      · exact hverified.mpr (Or.inl (hold.early hae))
      · exact hverified.mpr (Or.inr ⟨(hnow hae).2.1,(hnow hae).2.2.1⟩)
    · intro hae hask
      rcases answeredEarly_snoc.mp hae with hae | hae
      · exact h.early _ hae (hasked hask)
      · exact (hnow hae).2.2.2 (hasked hask)
    · intro d hd
      rw [hnodes] at hd
      exact Or.inl hd

theorem Inv.requestPassword {idx : ℕ} {clk : Clock} {random : Block}
    (h : Inv env setup es (after env setup es)) (ha : Apart es (after env setup es))
    (hfill : FillsNonce (after env setup es) (.requestPassword idx clk random)) :
    Inv env setup (es++[.requestPassword idx clk random])
      (step env (after env setup es) (.requestPassword idx clk random)) := by
  have hno (link : ℕ) : ¬ AnswersEarly env link (after env setup es)
      (.requestPassword idx clk random) := fun hae => hae.1.elim (fun _ h => h)
  rcases atIndex_cases (after env setup es) idx
    (fun p => requestPassword_handled env (after env setup es) p clk random) with
    ⟨heq,-⟩ | ⟨pending,hp,hc,hn,heq⟩
  · rw [step, heq]
    exact h.settled (.refl _) hno
  · have hold := h.guarded pending (List.mem_of_getElem? hp)
    have hstep : step env (after env setup es) (.requestPassword idx clk random) = _ := heq
    rw [hstep]
    by_cases hr : pending.shouldRequestPassword clk.now = true
    · have hnext : PendingRun.requestPassword env (after env setup es) clk random pending =
          ({ pending with
              nonce := random
              shouldRequestPwd := ⟨clk.now,clk.adjustedDuration 3000⟩ },
            { after env setup es with
              sent := (env.transport.send (after env setup es).sent (.pending pending.link)
                (msgbusId .reqRutrPwd)
                { data := random, sourceId := (after env setup es).getId,
                  targetId := pending.id }).2 }) := by
        unfold PendingRun.requestPassword RouterPending.tryRequestPassword
        rw [if_pos hr]
      have hunverified : pending.passwordVerified = false := by
        unfold RouterPending.shouldRequestPassword at hr
        simpa using (Bool.and_eq_true_iff.mp hr).2
      have hch : Challenges env pending.link random (after env setup es)
          (.requestPassword idx clk random) := by
        refine ⟨rfl,?_⟩
        rw [hstep, hnext]
        exact ⟨_,rfl,rfl,rfl,rfl⟩
      have hlate : ¬ AnsweredEarly env setup (es++[.requestPassword idx clk random])
          pending.link := by
        intro hae
        have hv := hold.early ((answeredEarly_snoc.mp hae).resolve_right (hno _))
        rw [hunverified] at hv
        cases hv
      refine h.handled ha hp hn (fun link hae => absurd hae (hno link)) ?_
        (fun hae => absurd hae hlate) ?_
      · rw [hnext]
        refine ⟨hold.connection,fun hk => ?_,fun _ => challenged_snoc.mpr (Or.inr hch),
          fun hv => ?_,fun hae => absurd hae hlate⟩
        · have hlen := hfill pending hp
          have hne := List.length_pos_of_ne_nil (hold.nonce hk)
          exact List.ne_nil_of_length_pos (by rw [hlen]; exact hne)
        · exact absurd hv (by simp [hunverified])
      · rw [hnext]
        exact fun d hd => Or.inl hd
    · have hnext : PendingRun.requestPassword env (after env setup es) clk random pending =
          (pending,after env setup es) := by
        unfold PendingRun.requestPassword RouterPending.tryRequestPassword
        rw [if_neg hr]
      rw [hnext, withPending_set_self _ hp]
      exact h.settled (.refl _) hno

theorem Inv.adopt {idx : ℕ} {clk : Clock} (h : Inv env setup es (after env setup es))
    (ha : Apart es (after env setup es)) :
    Inv env setup (es++[.adopt idx clk])
      (step env (after env setup es) (.adopt idx clk)) := by
  have hno (link : ℕ) : ¬ AnswersEarly env link (after env setup es) (.adopt idx clk) :=
    fun hae => hae.1.elim (fun _ h => h)
  rcases atIndex_cases (after env setup es) idx
    (fun p => tryAdopt_handled env (after env setup es) p clk) with
    ⟨heq,-⟩ | ⟨pending,hp,hc,hn,heq⟩
  · rw [step, heq]
    exact h.settled (.refl _) hno
  · have hold := h.guarded pending (List.mem_of_getElem? hp)
    rw [step, heq]
    by_cases hadopt : pending.canBeAdopted clk.now = true
    · have hnext : tryAdopt env (after env setup es) clk pending =
          (after env setup es).adoptPending env pending := if_pos hadopt
      have hasked (hask : Asked ((after env setup es).adoptPending env pending).2.sent
          pending.link) : Asked (after env setup es).sent pending.link := by
        obtain ⟨x,hx,hhop,hid⟩ := hask
        rcases List.mem_append.mp hx with hx | hx
        · exact ⟨x,hx,hhop,hid⟩
        · obtain rfl := List.mem_singleton.mp hx
          simp [msgbusId] at hid
      have hearly (hae : AnsweredEarly env setup (es++[.adopt idx clk]) pending.link) :
          AnsweredEarly env setup es pending.link :=
        (answeredEarly_snoc.mp hae).resolve_right (hno _)
      refine h.handled ha hp hn (fun link hae => absurd hae (hno link)) ?_ ?_ ?_
      · rw [hnext]
        have hkept := hold.keep (e := .adopt idx clk) hasked (hno _)
        exact ⟨fun c hc => by simp [adoptPending] at hc,hkept.nonce,hkept.asked,
          hkept.verified,hkept.early⟩
      · rw [hnext]
        exact fun hae hask => h.early _ (hearly hae) (hasked hask)
      · rw [hnext]
        intro d hd
        rcases OrderedMap.mem_assignIn hd with rfl | hd
        · refine Or.inr ⟨rfl,?_⟩
          unfold RouterPending.canBeAdopted RouterPending.passwordIsRequired at hadopt
          simpa using (Bool.and_eq_true_iff.mp hadopt).2
        · exact Or.inl hd
    · have hnext : tryAdopt env (after env setup es) clk pending =
          (pending,after env setup es) := if_neg hadopt
      rw [hnext, withPending_set_self _ hp]
      exact h.settled (.refl _) hno

theorem Inv.step (h : Inv env setup es (after env setup es))
    (ha : Apart es (after env setup es)) (hlinks : (links (es++[e])).Nodup)
    (hlate : ∀ link, AnsweredEarly env setup es link → link ∈ links es)
    (hfill : FillsNonce (after env setup es) e) :
    Inv env setup (es++[e]) (PendingRun.step env (after env setup es) e) := by
  cases e with
  | message idx msgId message => exact h.message ha
  | requestPassword idx clk random => exact h.requestPassword ha hfill
  | adopt idx clk => exact h.adopt ha
  | remove idx clk =>
    exact h.settled (remove_settled _ idx clk) (fun link hae => hae.1.elim (fun _ h => h))
  | router e =>
    rcases Settled.of_outside e with ⟨clk,connection,rfl⟩ | hs
    · rw [links_snoc] at hlinks
      have hnew : connection.link ∉ links es := fun hin =>
        List.disjoint_of_nodup_append hlinks hin (by simp [accepted])
      exact h.accept ha hnew (fun hae => hnew (hlate _ hae))
    · exact h.settled hs (fun link hae => hae.1.elim (fun _ h => h))

/-- Who has answered early was accepted in the run. -/
theorem AnsweredEarly.known (hlinks : (links es).Nodup)
    (h : AnsweredEarly env setup es link) : link ∈ links es := by
  induction es using List.reverseRecOn with
  | nil => exact h.elim
  | append_singleton es e ih =>
    rw [links_snoc] at hlinks ⊢
    have hnodup := (List.nodup_append.mp hlinks).1
    refine List.mem_append_left _ ?_
    rcases answeredEarly_snoc.mp h with h | ⟨⟨nonce,h⟩,-⟩
    · exact ih hnodup h
    · cases e with
      | message idx msgId message =>
        obtain ⟨-,pending,hp,-,rfl,-⟩ := h
        exact (apart hnodup).known pending (List.mem_of_getElem? hp)
      | _ => exact h.elim

variable (env) in
theorem inv (hpassword : setup.passwordIsRequired = true) (hlinks : (links es).Nodup)
    (hfill : StepRun.Steps (PendingRun.step env) FillsNonce (start setup) es) :
    Inv env setup es (after env setup es) := by
  induction es using List.reverseRecOn with
  | nil =>
    refine ⟨hpassword,?_,?_,fun link h => h.elim⟩
    · simp [after, StepRun.run, start, init]
    · simp [after, StepRun.run, start, init, OrderedMap.empty]
  | append_singleton es e ih =>
    obtain ⟨hbefore,hnow⟩ := StepRun.steps_snoc.mp hfill
    have hnodup : (links es).Nodup := by
      rw [links_snoc] at hlinks
      exact (List.nodup_append.mp hlinks).1
    rw [after_snoc]
    exact (ih hnodup hbefore).step (apart hnodup) hlinks
      (fun link hae => hae.known hnodup) hnow

end Step

/-- When the router requires a password, the connection of a node that is not
in-process was sent a nonce and has answered it, exactly if it did not answer
before it was asked. -/
theorem adopted_answered_iff (env : RouterEnv) (setup : Setup)
    (hpassword : setup.passwordIsRequired = true) (es : List Event)
    (hlinks : (links es).Nodup)
    (hfill : StepRun.Steps (step env) FillsNonce (start setup) es) (id : EndpointId)
    (node : AdjacentNode) (c : Connection)
    (hnode : (after env setup es).nodes.find id = some node) (hc : node.connection = some c)
    (hkind : c.kind ≠ .inProcess) :
    Answered env setup es c.link ↔ ¬ AnsweredEarly env setup es c.link := by
  have hinv := inv env hpassword hlinks hfill
  constructor
  · intro h hearly
    exact hinv.early _ hearly h.asked
  · intro h
    exact (hinv.nodes _ (OrderedMap.find?_eq_some.mp hnode) c hc hkind).resolve_right h

/-- A password is known: the reply to a nonce has each of its bytes raised. -/
def lockedEnv : RouterEnv :=
  { RouterRun.sampleEnv with
    matchesEncryptedSharedPassword := fun nonce data => data = nonce.map (·+1) }

def lockedSetup : Setup := { RouterRun.sampleSetup with passwordIsRequired := true }

def remote : Connection := { link := 1, kind := .remoteInterprocess }

/-- The connection announces its id, is asked, and answers. -/
def handshake : List Event :=
  [.router (.handleAccept sampleClock remote),
    .message 0 (msgbusId .announceId) { sourceId := 7 },
    .requestPassword 0 sampleClock (List.replicate 128 4),
    .adopt 0 sampleClock,
    .message 0 (msgbusId .encRutrPwd) { sourceId := 7, data := List.replicate 128 5 },
    .adopt 0 sampleClock]

theorem handshake_answered :
    Answered lockedEnv lockedSetup handshake 1 ↔
      ¬ AnsweredEarly lockedEnv lockedSetup handshake 1 :=
  adopted_answered_iff lockedEnv lockedSetup rfl handshake (by decide)
    ⟨trivial,trivial,fun p hp => by obtain rfl := Option.some.inj hp; rfl,trivial,trivial,trivial,
      trivial⟩ 7 { connection := some remote } remote (by decide) rfl (by decide)

/-- The reply to the nonce as it is before it was filled is sent at once: the
round has nothing left to ask for and adopts the connection. -/
def unasked : List Event :=
  [.router (.handleAccept sampleClock remote),
    .message 0 (msgbusId .encRutrPwd) { data := List.replicate 128 1 },
    .message 0 (msgbusId .announceId) { sourceId := 7 },
    .requestPassword 0 sampleClock (List.replicate 128 4),
    .adopt 0 sampleClock]

theorem unasked_adopted :
    (after lockedEnv lockedSetup unasked).nodes.find 7 = some { connection := some remote } ∧
      ¬ Answered lockedEnv lockedSetup unasked 1 := by
  refine ⟨by decide,fun h => ?_⟩
  have hno : ¬ Asked (after lockedEnv lockedSetup unasked).sent 1 := by
    unfold Asked
    decide
  exact hno h.asked

end MsgBus.PasswordHandshake
