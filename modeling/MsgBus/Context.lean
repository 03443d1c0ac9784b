import MsgBus.Router
import MsgBus.Lib.StepRun

/-!
# Remote certificates and verified keys

The context keeps for each remote node a certificate, its public key, a nonce
and whether the node has shown that it has the private key. What the SSL
library answers comes with each call; a signature it accepts is logged with
the key and the content it was accepted for.
-/

set_option autoImplicit false

namespace MsgBus

structure VerificationBits where
  sourceId : Bool := false
  sourceCertificate : Bool := false
  sourcePrivateKey : Bool := false
  messageId : Bool := false
  messageContent : Bool := false
  deriving DecidableEq, Repr

/-- `std::array<byte, 256>`. -/
structure RemoteNonce where
  bytes : Block
  size : bytes.length = 256

namespace RemoteNonce

def filled (b : Byte) : RemoteNonce := ⟨List.replicate 256 b,List.length_replicate⟩

end RemoteNonce

structure ContextRemoteNode (X509 PKey : Type*) where
  nonce : RemoteNonce := .filled 0
  certPem : Block := []
  cert : Option X509 := none
  pubkey : Option PKey := none
  verifiedKey : Bool := false

/-- What the SSL library answers while a certificate is added. -/
structure CertificateAnswers (X509 : Type*) where
  parseX509 : Option X509
  newX509StoreCtx : Bool := true
  initX509StoreCtx : Bool := true
  x509VerifyCertificate : Bool := true
  getX509Pubkey : Bool := true
  random : RemoteNonce := .filled 0

/-- What the SSL library answers while a signature is verified. -/
structure DigestAnswers where
  messageDigestSha256 : Bool := true
  newMessageDigest : Bool := true
  messageDigestVerifyInit : Bool := true
  messageDigestVerifyUpdate : Bool := true
  messageDigestVerifyFinal : Bool := true

structure Context (X509 PKey : Type*) where
  remotes : OrderedMap EndpointId (ContextRemoteNode X509 PKey) := .empty

namespace Context

variable {X509 PKey : Type*}

def verifyCertificate (answers : CertificateAnswers X509) : Bool :=
  if answers.newX509StoreCtx then
    if answers.initX509StoreCtx then answers.x509VerifyCertificate else false
  else false

/-- The public key of a certificate is the library's to read; it may fail. -/
def addRemoteCertificatePem (subjectKey : X509 → PKey) (answers : CertificateAnswers X509)
    (context : Context X509 PKey) (nodeId : EndpointId) (blk : Block) :
    Bool × Context X509 PKey :=
  if blk ≠ [] then
    match answers.parseX509 with
    | none => (false,context)
    | some cert =>
      let info := (context.remotes.find? nodeId).getD {}
      let info := { info with pubkey := none, cert := some cert, certPem := blk }
      if verifyCertificate answers then
        if answers.getX509Pubkey then
          (true,⟨context.remotes.assign nodeId
            { info with pubkey := some (subjectKey cert), nonce := answers.random }⟩)
        else (false,⟨context.remotes.assign nodeId info⟩)
      else (false,⟨context.remotes.assign nodeId info⟩)
  else (false,context)

/-- The nonce of the node after the certificate was added. -/
def nonceAfter (answers : CertificateAnswers X509) (context : Context X509 PKey)
    (nodeId : EndpointId) : RemoteNonce :=
  if verifyCertificate answers && answers.getX509Pubkey then answers.random
  else ((context.remotes.find? nodeId).getD {}).nonce

def getRemoteCertificatePem (context : Context X509 PKey) (nodeId : EndpointId) : Block :=
  ((context.remotes.find? nodeId).map (·.certPem)).getD []

def verifiedRemoteKey (context : Context X509 PKey) (nodeId : EndpointId) : Bool :=
  ((context.remotes.find? nodeId).map (·.verifiedKey)).getD false

/-- The key that the verification of a signature was started with. -/
def messageDigestVerifyInit (answers : DigestAnswers) (context : Context X509 PKey)
    (nodeId : EndpointId) : Option PKey :=
  match context.remotes.find? nodeId with
  | some info => if answers.messageDigestVerifyInit then info.pubkey else none
  | none => none

/-- The key that the library has accepted the signature with. -/
def acceptingKey (answers : DigestAnswers) (context : Context X509 PKey)
    (content signature : Block) (nodeId : EndpointId) : Option PKey :=
  if content ≠ [] ∧ signature ≠ [] then
    if answers.messageDigestSha256 then
      if answers.newMessageDigest then
        match messageDigestVerifyInit answers context nodeId with
        | some key =>
          if answers.messageDigestVerifyUpdate then
            if answers.messageDigestVerifyFinal then some key else none
          else none
        | none => none
      else none
    else none
  else none

def verifyRemoteSignature (answers : DigestAnswers) (context : Context X509 PKey)
    (content signature : Block) (nodeId : EndpointId) (verifiedKey : Bool) : VerificationBits :=
  match context.acceptingKey answers content signature nodeId with
  | some _ =>
    { sourcePrivateKey := verifiedKey || context.verifiedRemoteKey nodeId
      sourceCertificate := true
      messageContent := true }
  | none => {}

def verifyRemoteNonceSignature (answers : DigestAnswers) (context : Context X509 PKey)
    (sig : Block) (nodeId : EndpointId) : Bool × Context X509 PKey :=
  match context.remotes.find? nodeId with
  | some remote =>
    if (context.verifyRemoteSignature answers remote.nonce.bytes sig nodeId
        true).messageContent then
      (true,⟨context.remotes.assign nodeId { remote with verifiedKey := true }⟩)
    else (false,context)
  | none => (false,context)

section Rules

variable {subjectKey : X509 → PKey} {context : Context X509 PKey} {nodeId : EndpointId}

theorem unparsed_or (answers : CertificateAnswers X509) (blk : Block) :
    (blk = [] ∨ answers.parseX509 = none) ∨
      ∃ cert, blk ≠ [] ∧ answers.parseX509 = some cert := by
  by_cases hblk : blk = []
  · exact Or.inl (Or.inl hblk)
  · cases hcert : answers.parseX509 with
    | none => exact Or.inl (Or.inr rfl)
    | some cert => exact Or.inr ⟨cert,hblk,rfl⟩

theorem addRemoteCertificatePem_unparsed {answers : CertificateAnswers X509} {blk : Block}
    (h : blk = [] ∨ answers.parseX509 = none) :
    context.addRemoteCertificatePem subjectKey answers nodeId blk = (false,context) := by
  rw [addRemoteCertificatePem]
  rcases h with h | h
  · simp [h]
  · simp [h]

variable (subjectKey context nodeId) in
/-- A parsed certificate replaces the one before it, and the key flag stays. -/
theorem addRemoteCertificatePem_parsed {answers : CertificateAnswers X509} {blk : Block}
    {cert : X509} (hblk : blk ≠ []) (hcert : answers.parseX509 = some cert) :
    ∃ info : ContextRemoteNode X509 PKey,
      (context.addRemoteCertificatePem subjectKey answers nodeId blk).2 =
        ⟨context.remotes.assign nodeId info⟩ ∧
      info.cert = some cert ∧ info.certPem = blk ∧
      info.nonce = context.nonceAfter answers nodeId ∧
      info.verifiedKey = context.verifiedRemoteKey nodeId ∧
      (∀ key, info.pubkey = some key → subjectKey cert = key) := by
  have hflag : ((context.remotes.find? nodeId).getD {}).verifiedKey =
      context.verifiedRemoteKey nodeId := by
    rw [verifiedRemoteKey]
    cases context.remotes.find? nodeId <;> rfl
  simp only [addRemoteCertificatePem, if_pos hblk, hcert, nonceAfter]
  by_cases hv : verifyCertificate answers = true
  · by_cases hk : answers.getX509Pubkey = true
    · rw [if_pos hv, if_pos hk]
      exact ⟨_,rfl,rfl,rfl,by simp [hv, hk],hflag,fun key h => Option.some.inj h⟩
    · rw [if_pos hv, if_neg hk]
      exact ⟨_,rfl,rfl,rfl,by simp [hk],hflag,fun key h => by cases h⟩
  · rw [if_neg hv]
    exact ⟨_,rfl,rfl,rfl,by simp [hv],hflag,fun key h => by cases h⟩

theorem acceptingKey_pubkey {answers : DigestAnswers} {content signature : Block} {key : PKey}
    (h : context.acceptingKey answers content signature nodeId = some key) :
    ∃ info, context.remotes.find? nodeId = some info ∧ info.pubkey = some key := by
  have hinit : context.messageDigestVerifyInit answers nodeId = some key := by
    cases hi : context.messageDigestVerifyInit answers nodeId with
    | none => simp [acceptingKey, hi] at h
    | some k =>
      simp only [acceptingKey, hi] at h
      split_ifs at h
      exact h
  rw [messageDigestVerifyInit] at hinit
  cases hf : context.remotes.find? nodeId with
  | none => simp [hf] at hinit
  | some info =>
    simp only [hf, Option.ite_none_right_eq_some] at hinit
    exact ⟨info,rfl,hinit.2⟩

theorem verifyRemoteSignature_messageContent {answers : DigestAnswers}
    {content signature : Block} {verifiedKey : Bool} :
    (context.verifyRemoteSignature answers content signature nodeId verifiedKey).messageContent =
      (context.acceptingKey answers content signature nodeId).isSome := by
  rw [verifyRemoteSignature]
  cases context.acceptingKey answers content signature nodeId <;> rfl

theorem verifiedRemoteKey_of_report {answers : DigestAnswers} {content signature : Block}
    (h : (context.verifyRemoteSignature answers content signature nodeId false).sourcePrivateKey =
      true) : context.verifiedRemoteKey nodeId = true := by
  rw [verifyRemoteSignature] at h
  cases ha : context.acceptingKey answers content signature nodeId with
  | none => simp [ha] at h
  | some key => simpa [ha] using h

theorem verifiedRemoteKey_eq_true : context.verifiedRemoteKey nodeId = true ↔
    ∃ info, context.remotes.find? nodeId = some info ∧ info.verifiedKey = true := by
  rw [verifiedRemoteKey]
  cases context.remotes.find? nodeId <;> simp

/-- The router's view of the context keeps just the texts of the certificates. -/
theorem getRemoteCertificatePem_add {answers : CertificateAnswers X509} {blk : Block}
    {parseX509 : Block → Bool} {router : RouterContext}
    (hparse : answers.parseX509.isSome = parseX509 blk)
    (hpem : ∀ id, context.getRemoteCertificatePem id = router.getRemoteCertificatePem id)
    (id : EndpointId) :
    (context.addRemoteCertificatePem subjectKey answers nodeId blk).2.getRemoteCertificatePem id =
      (router.addRemoteCertificatePem parseX509 nodeId blk).getRemoteCertificatePem id := by
  rw [RouterContext.addRemoteCertificatePem]
  by_cases h : blk ≠ [] ∧ parseX509 blk = true
  · obtain ⟨cert,hcert⟩ := Option.isSome_iff_exists.mp (hparse.trans h.2)
    obtain ⟨info,hadd,-,hp,-⟩ := addRemoteCertificatePem_parsed subjectKey context
      nodeId h.1 hcert
    rw [hadd, if_pos h]
    have := hpem id
    simp only [getRemoteCertificatePem, RouterContext.getRemoteCertificatePem,
      OrderedMap.find?_assign] at this ⊢
    split_ifs <;> simp_all
  · have hunparsed : blk = [] ∨ answers.parseX509 = none := by
      by_cases hblk : blk = []
      · exact Or.inl hblk
      · apply Or.inr
        apply Option.not_isSome_iff_eq_none.mp
        rw [hparse]
        exact fun hp => h ⟨hblk,hp⟩
    rw [if_neg h, addRemoteCertificatePem_unparsed hunparsed]
    exact hpem id

end Rules

end Context

/-- The library has accepted the signature of the content with the key. -/
structure AcceptedSignature (PKey : Type*) where
  key : PKey
  content : Block
  signature : Block

inductive ContextEvent (X509 : Type*) where
  | addRemoteCertificatePem (answers : CertificateAnswers X509) (nodeId : EndpointId)
      (blk : Block)
  | verifyRemoteSignature (answers : DigestAnswers) (content signature : Block)
      (nodeId : EndpointId) (verifiedKey : Bool)
  | verifyRemoteNonceSignature (answers : DigestAnswers) (sig : Block) (nodeId : EndpointId)

/-- A context and the signatures accepted in it so far. -/
structure ContextRun (X509 PKey : Type*) where
  context : Context X509 PKey := {}
  accepted : List (AcceptedSignature PKey) := []

namespace ContextRun

variable {X509 PKey : Type*} (subjectKey : X509 → PKey)

def accept (answers : DigestAnswers) (content signature : Block) (nodeId : EndpointId)
    (s : ContextRun X509 PKey) : List (AcceptedSignature PKey) :=
  match s.context.acceptingKey answers content signature nodeId with
  | some key => s.accepted++[⟨key,content,signature⟩]
  | none => s.accepted

def step (s : ContextRun X509 PKey) : ContextEvent X509 → ContextRun X509 PKey
  | .addRemoteCertificatePem answers nodeId blk =>
    { s with context := (s.context.addRemoteCertificatePem subjectKey answers nodeId blk).2 }
  | .verifyRemoteSignature answers content signature nodeId _ =>
    { s with accepted := s.accept answers content signature nodeId }
  | .verifyRemoteNonceSignature answers sig nodeId =>
    match s.context.remotes.find? nodeId with
    | some remote => {
        context := (s.context.verifyRemoteNonceSignature answers sig nodeId).2
        accepted := s.accept answers remote.nonce.bytes sig nodeId }
    | none => s

/-- A signature of this nonce was accepted with the key of this certificate. -/
def Shown (s : ContextRun X509 PKey) (cert : X509) (nonce : RemoteNonce) : Prop :=
  ∃ a ∈ s.accepted, a.key = subjectKey cert ∧ a.content = nonce.bytes

/-- A signature of the nonce the node has now was accepted with the key of the
certificate it has now. -/
def HasShown (s : ContextRun X509 PKey) (nodeId : EndpointId) : Prop :=
  ∃ info cert, s.context.remotes.find? nodeId = some info ∧ info.cert = some cert ∧
    s.Shown subjectKey cert info.nonce

def KeysVerified (s : ContextRun X509 PKey) : Prop :=
  ∀ nodeId, s.context.verifiedRemoteKey nodeId = true → s.HasShown subjectKey nodeId

/-- The call reports the private key of the source only when it was shown. -/
def ReportsShown (s : ContextRun X509 PKey) : ContextEvent X509 → Prop
  | .verifyRemoteSignature answers content signature nodeId false =>
    (s.context.verifyRemoteSignature answers content signature nodeId false).sourcePrivateKey =
      true → s.HasShown subjectKey nodeId
  | _ => True

/-- A certificate added for a node with a verified key is one that the node
has already shown the private key of, for the nonce it has afterwards. -/
def AddsShown (s : ContextRun X509 PKey) : ContextEvent X509 → Prop
  | .addRemoteCertificatePem answers nodeId blk => blk ≠ [] →
    s.context.verifiedRemoteKey nodeId = true → ∀ cert, answers.parseX509 = some cert →
      s.Shown subjectKey cert (s.context.nonceAfter answers nodeId)
  | _ => True

/-- The public key kept for a node is the one of its certificate. -/
def Keyed (s : ContextRun X509 PKey) : Prop :=
  ∀ nodeId info key, s.context.remotes.find? nodeId = some info → info.pubkey = some key →
    ∃ cert, info.cert = some cert ∧ subjectKey cert = key

section Steps

variable {subjectKey : X509 → PKey} {s : ContextRun X509 PKey}

theorem accepted_subset_accept {answers : DigestAnswers} {content signature : Block}
    {nodeId : EndpointId} : s.accepted ⊆ s.accept answers content signature nodeId := by
  rw [accept]
  cases s.context.acceptingKey answers content signature nodeId with
  | none => exact fun _ h => h
  | some key => exact List.subset_append_left _ _

theorem Shown.mono {s' : ContextRun X509 PKey} {cert : X509} {nonce : RemoteNonce}
    (h : s.Shown subjectKey cert nonce) (hs : s.accepted ⊆ s'.accepted) :
    s'.Shown subjectKey cert nonce := by
  obtain ⟨a,ha,hkey⟩ := h
  exact ⟨a,hs ha,hkey⟩

variable (subjectKey) in
/-- What a nonce signature does: nothing, or it is accepted with the key of
the node and the key flag is set. -/
theorem step_nonce_cases (s : ContextRun X509 PKey) (answers : DigestAnswers) (sig : Block)
    (nodeId : EndpointId) :
    s.step subjectKey (.verifyRemoteNonceSignature answers sig nodeId) = s ∨
    ∃ remote key, s.context.remotes.find? nodeId = some remote ∧ remote.pubkey = some key ∧
      s.step subjectKey (.verifyRemoteNonceSignature answers sig nodeId) = {
        context := ⟨s.context.remotes.assign nodeId { remote with verifiedKey := true }⟩
        accepted := s.accepted++[⟨key,remote.nonce.bytes,sig⟩] } := by
  cases hf : s.context.remotes.find? nodeId with
  | none => exact Or.inl (by simp [step, hf])
  | some remote =>
    simp only [step, hf, accept, Context.verifyRemoteNonceSignature,
      Context.verifyRemoteSignature_messageContent]
    cases ha : s.context.acceptingKey answers remote.nonce.bytes sig nodeId with
    | none => exact Or.inl (by simp)
    | some key =>
      obtain ⟨info,hinfo,hkey⟩ := Context.acceptingKey_pubkey ha
      obtain rfl := Option.some.inj (hf.symm.trans hinfo)
      exact Or.inr ⟨remote,key,rfl,hkey,by simp⟩

theorem step_keyed (e : ContextEvent X509) (h : s.Keyed subjectKey) :
    (s.step subjectKey e).Keyed subjectKey := by
  cases e with
  | addRemoteCertificatePem answers nodeId blk =>
    rcases Context.unparsed_or answers blk with hunparsed | ⟨cert,hblk,hcert⟩
    · simpa only [step, Context.addRemoteCertificatePem_unparsed hunparsed] using h
    · obtain ⟨info,hadd,hc,-,-,-,hkey⟩ :=
        Context.addRemoteCertificatePem_parsed subjectKey s.context nodeId hblk hcert
      intro id node key hnode hpub
      simp only [step, hadd, OrderedMap.find?_assign] at hnode
      split_ifs at hnode with hid
      · obtain rfl := Option.some.inj hnode
        exact ⟨cert,hc,hkey key hpub⟩
      · exact h id node key hnode hpub
  | verifyRemoteSignature answers content signature nodeId verifiedKey => exact h
  | verifyRemoteNonceSignature answers sig nodeId =>
    rcases s.step_nonce_cases subjectKey answers sig nodeId with hs | ⟨remote,k,hf,hpub,hs⟩
    · rwa [hs]
    · rw [hs]
      intro id node key hnode hkey
      simp only [OrderedMap.find?_assign] at hnode
      split_ifs at hnode with hid
      · obtain rfl := Option.some.inj hnode
        exact h nodeId remote key hf hkey
      · exact h id node key hnode hkey

theorem step_keysVerified (e : ContextEvent X509) (hk : s.Keyed subjectKey)
    (h : s.KeysVerified subjectKey) (hok : s.AddsShown subjectKey e) :
    (s.step subjectKey e).KeysVerified subjectKey := by
  cases e with
  | addRemoteCertificatePem answers nodeId blk =>
    rcases Context.unparsed_or answers blk with hunparsed | ⟨cert,hblk,hcert⟩
    · simpa only [step, Context.addRemoteCertificatePem_unparsed hunparsed] using h
    · obtain ⟨info,hadd,hc,-,hnonce,hflag,-⟩ :=
        Context.addRemoteCertificatePem_parsed subjectKey s.context nodeId hblk hcert
      intro id hid
      obtain ⟨node,hnode,hv⟩ := Context.verifiedRemoteKey_eq_true.mp hid
      simp only [step, hadd, OrderedMap.find?_assign] at hnode
      split_ifs at hnode with heq
      · obtain rfl := Option.some.inj hnode
        subst heq
        refine ⟨info,cert,by simp [step, hadd],hc,?_⟩
        rw [hnonce]
        exact (hok hblk (hflag ▸ hv) cert hcert).mono (fun _ h => h)
      · obtain ⟨node',c,hf,hc',hs⟩ := h id (Context.verifiedRemoteKey_eq_true.mpr ⟨node,hnode,hv⟩)
        exact ⟨node',c,by simpa [step, hadd, heq] using hf,hc',hs⟩
  | verifyRemoteSignature answers content signature nodeId verifiedKey =>
    intro id hid
    obtain ⟨info,cert,hf,hc,hs⟩ := h id hid
    exact ⟨info,cert,hf,hc,hs.mono accepted_subset_accept⟩
  | verifyRemoteNonceSignature answers sig nodeId =>
    rcases s.step_nonce_cases subjectKey answers sig nodeId with hs | ⟨remote,key,hf,hpub,hs⟩
    · rwa [hs]
    · rw [hs]
      intro id hid
      by_cases heq : nodeId = id
      · subst heq
        obtain ⟨cert,hc,hkey⟩ := hk nodeId remote key hf hpub
        exact ⟨{ remote with verifiedKey := true },cert,by simp,hc,
          ⟨⟨key,remote.nonce.bytes,sig⟩,by simp,hkey.symm,rfl⟩⟩
      · obtain ⟨node,hnode,hv⟩ := Context.verifiedRemoteKey_eq_true.mp hid
        simp only [OrderedMap.find?_assign, if_neg heq] at hnode
        obtain ⟨info,cert,hf',hc,hs'⟩ :=
          h id (Context.verifiedRemoteKey_eq_true.mpr ⟨node,hnode,hv⟩)
        exact ⟨info,cert,by simpa [heq] using hf',hc,
          hs'.mono (List.subset_append_left _ _)⟩

/-- A certificate added for a node with a verified key needs the proof again. -/
theorem addsShown_of_step (e : ContextEvent X509)
    (h : (s.step subjectKey e).KeysVerified subjectKey) : s.AddsShown subjectKey e := by
  cases e with
  | addRemoteCertificatePem answers nodeId blk =>
    intro hblk hv cert hcert
    obtain ⟨info,hadd,hc,-,hnonce,hflag,-⟩ :=
      Context.addRemoteCertificatePem_parsed subjectKey s.context nodeId hblk hcert
    have hfind : (s.step subjectKey
        (.addRemoteCertificatePem answers nodeId blk)).context.remotes.find? nodeId =
          some info := by simp [step, hadd]
    obtain ⟨info',cert',hf,hc',hs⟩ :=
      h nodeId (Context.verifiedRemoteKey_eq_true.mpr ⟨info,hfind,hflag.trans hv⟩)
    obtain rfl := Option.some.inj (hfind.symm.trans hf)
    obtain rfl := Option.some.inj (hc.symm.trans hc')
    rw [← hnonce]
    exact hs
  | verifyRemoteSignature => trivial
  | verifyRemoteNonceSignature => trivial

theorem reportsShown_of_keysVerified (e : ContextEvent X509) (h : s.KeysVerified subjectKey) :
    s.ReportsShown subjectKey e := by
  cases e with
  | verifyRemoteSignature answers content signature nodeId verifiedKey =>
    cases verifiedKey with
    | false => exact fun hr => h nodeId (Context.verifiedRemoteKey_of_report hr)
    | true => trivial
  | addRemoteCertificatePem => trivial
  | verifyRemoteNonceSignature => trivial

end Steps

theorem start_inv : ({} : ContextRun X509 PKey).Keyed subjectKey ∧
    ({} : ContextRun X509 PKey).KeysVerified subjectKey := by
  constructor
  · intro id info key h
    cases h
  · intro id h
    cases h

/-- In a run every verified key is really verified, and reported only then,
exactly if no certificate is put in place of another one under a verified key
that was not shown for it. -/
theorem keys_verified_iff (es : List (ContextEvent X509)) :
    StepRun.Always (step subjectKey) (KeysVerified subjectKey) {} es ∧
      StepRun.Steps (step subjectKey) (ReportsShown subjectKey) {} es ↔
    StepRun.Steps (step subjectKey) (AddsShown subjectKey) {} es := by
  have hkeep (s : ContextRun X509 PKey) (e : ContextEvent X509)
      (h : s.Keyed subjectKey ∧ s.KeysVerified subjectKey) (hok : s.AddsShown subjectKey e) :
      (s.step subjectKey e).Keyed subjectKey ∧ (s.step subjectKey e).KeysVerified subjectKey :=
    ⟨step_keyed e h.1,step_keysVerified e h.1 h.2 hok⟩
  have hiff : StepRun.Always (step subjectKey) (KeysVerified subjectKey) {} es ↔
      StepRun.Steps (step subjectKey) (AddsShown subjectKey) {} es :=
    StepRun.always_iff_steps (fun s h => h.2) hkeep (fun s e _ => addsShown_of_step e)
      (start_inv subjectKey)
  constructor
  · exact fun h => hiff.mp h.1
  · exact fun h => ⟨hiff.mpr h,StepRun.steps_of_invariant hkeep
      (fun s e hs _ => reportsShown_of_keysVerified e hs.2) (start_inv subjectKey) h⟩

/-- Node 7 signs its nonce, then its certificate is replaced by another one
and a message is verified with the key of the new one. -/
def replacedCertificate : List (ContextEvent ℕ) := [
  .addRemoteCertificatePem { parseX509 := some 1, random := .filled 11 } 7 [1],
  .verifyRemoteNonceSignature {} [5] 7,
  .addRemoteCertificatePem { parseX509 := some 2, random := .filled 22 } 7 [2],
  .verifyRemoteSignature {} [3] [6] 7 false]

theorem replaced_not_shown : ¬ (StepRun.run (step (id : ℕ → ℕ)) {}
    (replacedCertificate.take 3)).HasShown id 7 := by
  rintro ⟨info,cert,hf,hc,a,ha,hkey,-⟩
  have hcert : ((StepRun.run (step (id : ℕ → ℕ)) {}
      (replacedCertificate.take 3)).context.remotes.find? 7).map (·.cert) = some (some 2) := by
    decide
  have hall : ∀ a ∈ (StepRun.run (step (id : ℕ → ℕ)) {}
      (replacedCertificate.take 3)).accepted, a.key = 1 := by
    decide
  rw [hf] at hcert
  have h2 : cert = 2 := Option.some.inj (hc.symm.trans (Option.some.inj hcert))
  have h1 : cert = 1 := hkey.symm.trans (hall a ha)
  omega

/-- The flag outlives the certificate it was set for. -/
theorem replaced_certificate_verified :
    ¬ StepRun.Always (step (id : ℕ → ℕ)) (KeysVerified id) {} replacedCertificate ∧
    ¬ StepRun.Steps (step (id : ℕ → ℕ)) (ReportsShown id) {} replacedCertificate := by
  constructor
  · intro h
    exact replaced_not_shown (h.2.2.2.1 7 (by decide))
  · intro h
    exact replaced_not_shown (h.2.2.2.1 (by decide))

end ContextRun

end MsgBus
