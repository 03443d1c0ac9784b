import MsgBus.Context

/-!
# Replacing a remote certificate

What is kept for a node is the text of its certificate, the certificate and
its public key. A certificate that was parsed takes the place of the old one
before it is verified, so a call that fails later leaves the new text and no
key behind.
-/

set_option autoImplicit false

namespace MsgBus

namespace Context

variable {X509 PKey : Type*}

def held (context : Context X509 PKey) (nodeId : EndpointId) :
    Block × Option X509 × Option PKey :=
  let info := (context.remotes.find? nodeId).getD {}
  (info.certPem,info.cert,info.pubkey)

/-- The call replaces what was kept for the node as a whole, by what belongs
to a verified certificate, or it changes nothing. -/
def AllOrNothing (subjectKey : X509 → PKey) (context : Context X509 PKey)
    (answers : CertificateAnswers X509) (nodeId : EndpointId) (blk : Block) : Prop :=
  let (replaced,after) := context.addRemoteCertificatePem subjectKey answers nodeId blk
  (replaced = true ∧ verifyCertificate answers = true ∧
    ∃ cert, answers.parseX509 = some cert ∧
      after.held nodeId = (blk,some cert,some (subjectKey cert)) ∧
      ∀ id, id ≠ nodeId → after.held id = context.held id) ∨
  (replaced = false ∧ ∀ id, after.held id = context.held id)

/-- Once the certificate is parsed it is verified and its key is read. -/
def Certified (answers : CertificateAnswers X509) (blk : Block) : Prop :=
  blk ≠ [] → answers.parseX509.isSome = true →
    verifyCertificate answers = true ∧ answers.getX509Pubkey = true

variable {subjectKey : X509 → PKey} {context : Context X509 PKey}
  {answers : CertificateAnswers X509} {nodeId : EndpointId} {blk : Block}

theorem getRemoteCertificatePem_held : context.getRemoteCertificatePem nodeId =
    (context.held nodeId).1 := by
  rw [getRemoteCertificatePem, held]
  cases context.remotes.find? nodeId <;> rfl

theorem held_assign (info : ContextRemoteNode X509 PKey) (id : EndpointId) :
    (⟨context.remotes.assign nodeId info⟩ : Context X509 PKey).held id =
      if nodeId = id then (info.certPem,info.cert,info.pubkey) else context.held id := by
  simp only [held, OrderedMap.find?_assign]
  split_ifs <;> rfl

variable (subjectKey context nodeId) in
theorem add_parsed {cert : X509} (hblk : blk ≠ []) (hcert : answers.parseX509 = some cert)
    (id : EndpointId) :
    let certified := verifyCertificate answers && answers.getX509Pubkey
    (context.addRemoteCertificatePem subjectKey answers nodeId blk).1 = certified ∧
    (context.addRemoteCertificatePem subjectKey answers nodeId blk).2.held id =
      if nodeId = id then (blk,some cert,if certified then some (subjectKey cert) else none)
      else context.held id := by
  simp only [addRemoteCertificatePem, if_pos hblk, hcert]
  by_cases hv : verifyCertificate answers = true
  · by_cases hk : answers.getX509Pubkey = true
    · simp only [hv, hk, if_true, Bool.and_self, held_assign, true_and]
    · simp only [hv, hk, if_true, Bool.false_eq_true, if_false, Bool.true_and, held_assign,
        true_and]
  · simp only [hv, Bool.false_eq_true, if_false, Bool.false_and, held_assign, true_and]

variable (subjectKey context answers nodeId blk) in
theorem allOrNothing_iff : AllOrNothing subjectKey context answers nodeId blk ↔
    Certified answers blk ∨
      ∃ cert, answers.parseX509 = some cert ∧ context.held nodeId = (blk,some cert,none) := by
  rcases unparsed_or answers blk with hunparsed | ⟨cert,hblk,hcert⟩
  · have hc : Certified answers blk := by
      intro hblk hcert
      rcases hunparsed with h | h
      · exact absurd h hblk
      · simp [h] at hcert
    simp [AllOrNothing, addRemoteCertificatePem_unparsed hunparsed, hc]
  have hadd := add_parsed subjectKey context nodeId hblk hcert
  have hcertified : Certified answers blk ↔
      (verifyCertificate answers && answers.getX509Pubkey) = true := by
    simp [Certified, hblk, hcert]
  simp only [AllOrNothing, hcertified, hcert, Option.some.injEq, exists_eq_left',
    (hadd nodeId).1]
  cases hok : verifyCertificate answers && answers.getX509Pubkey with
  | true =>
    simp only [true_or, iff_true]
    refine Or.inl ⟨trivial,(Bool.and_eq_true_iff.mp hok).1,?_,fun id hid => ?_⟩
    · rw [(hadd nodeId).2]
      simp [hok]
    · rw [(hadd id).2, if_neg hid.symm]
  | false =>
    simp only [Bool.false_eq_true, false_and, false_or, true_and]
    constructor
    · intro hsame
      rw [← hsame nodeId, (hadd nodeId).2]
      simp [hok]
    · intro hheld id
      rw [(hadd id).2]
      by_cases hid : nodeId = id
      · subst hid
        simp [hok, hheld]
      · rw [if_neg hid]

end Context

/-- A run of the context with the certificates that were added as verified ones. -/
structure ReplacementRun (X509 PKey : Type*) where
  run : ContextRun X509 PKey := {}
  verified : List (EndpointId × Block) := []

namespace ReplacementRun

open StepRun

variable {X509 PKey : Type*} (subjectKey : X509 → PKey)

def step (s : ReplacementRun X509 PKey) (e : ContextEvent X509) : ReplacementRun X509 PKey where
  run := s.run.step subjectKey e
  verified :=
    match e with
    | .addRemoteCertificatePem answers nodeId blk =>
      if (s.run.context.addRemoteCertificatePem subjectKey answers nodeId blk).1 then
        s.verified ++ [(nodeId,blk)]
      else s.verified
    | _ => s.verified

/-- Only verified certificates are handed out. -/
def OnlyVerified (s : ReplacementRun X509 PKey) : Prop :=
  ∀ nodeId, s.run.context.getRemoteCertificatePem nodeId ≠ [] →
    (nodeId,s.run.context.getRemoteCertificatePem nodeId) ∈ s.verified

def Whole (s : ReplacementRun X509 PKey) : ContextEvent X509 → Prop
  | .addRemoteCertificatePem answers nodeId blk =>
    s.run.context.AllOrNothing subjectKey answers nodeId blk
  | _ => True

def Certifies (_ : ReplacementRun X509 PKey) : ContextEvent X509 → Prop
  | .addRemoteCertificatePem answers _ blk => Context.Certified answers blk
  | _ => True

/-- A text comes with a key. -/
def Keyed (s : ReplacementRun X509 PKey) : Prop :=
  ∀ nodeId, (s.run.context.held nodeId).1 ≠ [] → (s.run.context.held nodeId).2.2.isSome = true

variable {subjectKey} {s : ReplacementRun X509 PKey}

/-- A nonce signature leaves the certificates as they are. -/
theorem step_nonce_held (answers : DigestAnswers) (sig : Block) (nodeId id : EndpointId) :
    (s.step subjectKey (.verifyRemoteNonceSignature answers sig nodeId)).run.context.held id =
      s.run.context.held id := by
  rcases s.run.step_nonce_cases subjectKey answers sig nodeId with
    h | ⟨remote,key,hf,-,h⟩
  · simp only [step, h]
  · simp only [step, h, Context.held_assign]
    by_cases hid : nodeId = id
    · subst hid
      simp [Context.held, hf]
    · rw [if_neg hid]

variable (subjectKey) in
/-- What a step does: it puts a parsed certificate in place of what was kept,
or leaves all as it is. -/
theorem step_cases (s : ReplacementRun X509 PKey) (e : ContextEvent X509) :
    (∀ id, (s.step subjectKey e).run.context.held id = s.run.context.held id) ∧
      (s.step subjectKey e).verified = s.verified ∨
    ∃ answers nodeId blk cert, e = .addRemoteCertificatePem answers nodeId blk ∧ blk ≠ [] ∧
      answers.parseX509 = some cert ∧
      let certified := Context.verifyCertificate answers && answers.getX509Pubkey
      (∀ id, (s.step subjectKey e).run.context.held id =
        if nodeId = id then (blk,some cert,if certified then some (subjectKey cert) else none)
        else s.run.context.held id) ∧
      (s.step subjectKey e).verified =
        if certified then s.verified ++ [(nodeId,blk)] else s.verified := by
  cases e with
  | verifyRemoteSignature answers content signature nodeId verifiedKey =>
    exact Or.inl ⟨fun id => rfl,rfl⟩
  | verifyRemoteNonceSignature answers sig nodeId =>
    exact Or.inl ⟨step_nonce_held answers sig nodeId,rfl⟩
  | addRemoteCertificatePem answers nodeId blk =>
    rcases Context.unparsed_or answers blk with hunparsed | ⟨cert,hblk,hcert⟩
    · have hadd : s.run.context.addRemoteCertificatePem subjectKey answers nodeId blk =
          (false,s.run.context) := Context.addRemoteCertificatePem_unparsed hunparsed
      refine Or.inl ⟨fun id => ?_,?_⟩
      · simp only [step, ContextRun.step, hadd]
      · simp [step, hadd]
    · have hadd := Context.add_parsed subjectKey s.run.context nodeId hblk hcert
      refine Or.inr ⟨answers,nodeId,blk,cert,rfl,hblk,hcert,fun id => (hadd id).2,?_⟩
      simp only [step, (hadd nodeId).1]

theorem whole_iff (hk : s.Keyed) (e : ContextEvent X509) :
    s.Whole subjectKey e ↔ s.Certifies e := by
  cases e with
  | addRemoteCertificatePem answers nodeId blk =>
    simp only [Whole, Certifies, Context.allOrNothing_iff, or_iff_left_iff_imp]
    rintro ⟨cert,-,hheld⟩ hblk
    have hkey := hk nodeId (by rwa [hheld])
    simp [hheld] at hkey
  | verifyRemoteSignature => exact Iff.rfl
  | verifyRemoteNonceSignature => exact Iff.rfl

theorem step_keyed {e : ContextEvent X509} (hk : s.Keyed) (hok : s.Certifies e) :
    (s.step subjectKey e).Keyed := by
  intro id hid
  rcases s.step_cases subjectKey e with ⟨hheld,-⟩ |
    ⟨answers,nodeId,blk,cert,rfl,hblk,hcert,hheld,-⟩
  · rw [hheld] at hid ⊢
    exact hk id hid
  · have hcertified : (Context.verifyCertificate answers && answers.getX509Pubkey) = true := by
      simpa using hok hblk (by simp [hcert])
    simp only [hcertified, if_true] at hheld
    rw [hheld] at hid ⊢
    by_cases heq : nodeId = id
    · rw [if_pos heq]
      rfl
    · rw [if_neg heq] at hid ⊢
      exact hk id hid

theorem step_onlyVerified {e : ContextEvent X509} (hv : s.OnlyVerified) (hok : s.Certifies e) :
    (s.step subjectKey e).OnlyVerified := by
  intro id hid
  rw [Context.getRemoteCertificatePem_held] at hid ⊢
  rcases s.step_cases subjectKey e with ⟨hheld,hlog⟩ |
    ⟨answers,nodeId,blk,cert,rfl,hblk,hcert,hheld,hlog⟩
  · rw [hheld, ← Context.getRemoteCertificatePem_held] at hid ⊢
    rw [hlog]
    exact hv id hid
  · have hcertified : (Context.verifyCertificate answers && answers.getX509Pubkey) = true := by
      simpa using hok hblk (by simp [hcert])
    simp only [hcertified, if_true] at hheld hlog
    rw [hheld] at hid ⊢
    rw [hlog]
    by_cases heq : nodeId = id
    · subst heq
      rw [if_pos rfl]
      exact List.mem_append_right _ (List.mem_singleton_self _)
    · rw [if_neg heq, ← Context.getRemoteCertificatePem_held] at hid ⊢
      exact List.mem_append_left _ (hv id hid)

theorem start_keyed : ({} : ReplacementRun X509 PKey).Keyed := fun _ h => absurd rfl h

theorem start_onlyVerified : ({} : ReplacementRun X509 PKey).OnlyVerified :=
  fun _ h => absurd rfl h

/-- One call replaces all or nothing unless a parsed certificate fails later
on, and what was there is not just what it leaves. In a run from the empty
context each call does, and only verified certificates are handed out, exactly
if no parsed certificate fails. -/
theorem all_or_nothing_iff :
    (∀ (context : Context X509 PKey) (answers : CertificateAnswers X509) (nodeId : EndpointId)
      (blk : Block), context.AllOrNothing subjectKey answers nodeId blk ↔
        Context.Certified answers blk ∨ ∃ cert, answers.parseX509 = some cert ∧
          context.held nodeId = (blk,some cert,none)) ∧
    ∀ es : List (ContextEvent X509),
      Steps (step subjectKey) (Whole subjectKey) {} es ∧
        Always (step subjectKey) (OnlyVerified : ReplacementRun X509 PKey → Prop) {} es ↔
      Steps (step subjectKey) Certifies {} es := by
  refine ⟨fun context answers nodeId blk =>
    Context.allOrNothing_iff subjectKey context answers nodeId blk,fun es => ?_⟩
  have hkeep (s : ReplacementRun X509 PKey) (e : ContextEvent X509) (hk : s.Keyed)
      (hok : s.Certifies e) : (s.step subjectKey e).Keyed := step_keyed hk hok
  have hiff : Steps (step subjectKey) (Whole subjectKey) {} es ↔
      Steps (step subjectKey) Certifies {} es :=
    steps_iff (fun _ e hk => whole_iff hk e) hkeep start_keyed
  constructor
  · exact fun h => hiff.mp h.1
  · exact fun h => ⟨hiff.mpr h,always_of_invariant
      (fun s e hv hok => step_onlyVerified hv hok) start_onlyVerified h⟩

/-- A certificate that is parsed and fails verification replaces a verified one. -/
def replacedByUnverified : List (ContextEvent ℕ) := [
  .addRemoteCertificatePem { parseX509 := some 1 } 7 [1],
  .addRemoteCertificatePem { parseX509 := some 2, x509VerifyCertificate := false } 7 [2]]

theorem unverified_handed_out : ¬ ∀ es : List (ContextEvent ℕ),
    Steps (step id) (Whole id) {} es ∧
      Always (step id) (OnlyVerified : ReplacementRun ℕ ℕ → Prop) {} es := by
  intro h
  have hv := always_last (h replacedByUnverified).2 7 (by decide)
  exact absurd hv (by decide)

end ReplacementRun

end MsgBus
