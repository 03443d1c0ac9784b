import MsgBus.Context
import MsgBus.SampleSerializer

/-!
# Signing a stored message

The data is written with its size in front of it and the signature behind it;
the flags for a signed content are set when the last step has succeeded. After
any failure the plain data is stored, and flags that the message had before
stay. What the steps of the SSL library answer comes with each call.
-/

set_option autoImplicit false

namespace MsgBus

/-- The reading of one sized block that is followed by something else. -/
structure SizedData extends SizedBlocks where
  getDataWithSize : Block → Block
  skipDataWithSize : Block → ℕ
  get_frame : ∀ {data size frame} rest, storeDataWithSize data size = some frame →
    getDataWithSize (frame ++ rest) = data
  skip_frame : ∀ {data size frame} rest, storeDataWithSize data size = some frame →
    skipDataWithSize (frame ++ rest) = frame.length

/-- What the SSL library answers while data is signed. The last step is given
what was digested and the size of the free space. -/
structure SignAnswers where
  messageDigestSha256 : Bool := true
  newMessageDigest : Bool := true
  messageDigestSignInit : Bool := true
  messageDigestSignUpdate : Bool := true
  messageDigestSignFinal : Block → ℕ → Option Block
  final_fits : ∀ {digested free sig}, messageDigestSignFinal digested free = some sig →
    sig.length ≤ free

namespace Block

def resize (buffer : Block) (size : ℕ) : Block :=
  buffer.take size ++ List.replicate (size-buffer.length) 0

theorem length_resize (buffer : Block) (size : ℕ) : (resize buffer size).length = size := by
  rw [resize, List.length_append, List.length_take, List.length_replicate]
  omega

theorem resize_append (front back : Block) : resize (front ++ back) front.length = front := by
  rw [resize, List.take_left', List.length_append, Nat.sub_eq_zero_of_le (Nat.le_add_right _ _)]
  · exact List.append_nil front
  · rfl

end Block

namespace MessageView

variable (sized : SizedData)

def signature (message : MessageView) : Block :=
  if message.isSigned then message.data.drop (sized.skipDataWithSize message.data) else []

/-- The message when all steps succeed. -/
def signedWith (answers : SignAnswers) (message : MessageView) (data : Block) (maxSize : ℕ) :
    Option MessageView :=
  if answers.messageDigestSha256 then
    let storage := Block.resize message.data maxSize
    match sized.storeDataWithSize data storage.length with
    | some used =>
      if answers.newMessageDigest then
        if answers.messageDigestSignInit then
          if answers.messageDigestSignUpdate then
            let free := storage.drop used.length
            match answers.messageDigestSignFinal data free.length with
            | some sig => some { message with
                data := Block.resize (used ++ sig ++ free.drop sig.length)
                  (used.length+sig.length)
                cryptoFlags := { message.cryptoFlags with
                  asymmetric := true
                  signedContent := true } }
            | none => none
          else none
        else none
      else none
    | none => none
  else none

def storeAndSign (answers : SignAnswers) (message : MessageView) (data : Block) (maxSize : ℕ) :
    Bool × MessageView :=
  match message.signedWith sized answers data maxSize with
  | some message => (true,message)
  | none => (true,{ message with data })

def verifyBits {X509 PKey : Type*} (answers : DigestAnswers) (context : Context X509 PKey)
    (message : MessageView) : VerificationBits :=
  context.verifyRemoteSignature answers (message.content sized.getDataWithSize)
    (message.signature sized) message.sourceId false

/-- `endpoint::post_signed`: the information is assigned from the posted view. -/
def postSigned (answers : SignAnswers) (maxDataSize : Option ℕ) (msgView : MessageView) :
    Option MessageView :=
  maxDataSize.map fun maxSize =>
    (storeAndSign sized answers { msgView with data := [] }
      (msgView.content sized.getDataWithSize) maxSize).2

/-- The signature of the data, if there is space and no step fails. -/
def appendedSignature (answers : SignAnswers) (data : Block) (maxSize : ℕ) : Option Block :=
  if answers.messageDigestSha256 ∧ answers.newMessageDigest ∧ answers.messageDigestSignInit ∧
      answers.messageDigestSignUpdate then
    (sized.storeDataWithSize data maxSize).bind fun used =>
      answers.messageDigestSignFinal data (maxSize-used.length)
  else none

variable {sized} {answers : SignAnswers} {message : MessageView} {data : Block} {maxSize : ℕ}

/-- The message with a signature behind the sized data. -/
def withSignature (message : MessageView) (used sig : Block) : MessageView :=
  { message with
    data := used ++ sig
    cryptoFlags := { message.cryptoFlags with asymmetric := true, signedContent := true } }

theorem withSignature_data (message : MessageView) (used sig rest : Block) :
    { message with
      data := Block.resize (used ++ sig ++ rest) (used.length+sig.length)
      cryptoFlags := { message.cryptoFlags with asymmetric := true, signedContent := true } } =
      message.withSignature used sig := by
  rw [← List.length_append, Block.resize_append]
  rfl

variable (message) in
theorem signedWith_some {used sig : Block} (hs : answers.messageDigestSha256 ∧
      answers.newMessageDigest ∧ answers.messageDigestSignInit ∧ answers.messageDigestSignUpdate)
    (hu : sized.storeDataWithSize data maxSize = some used)
    (hf : answers.messageDigestSignFinal data (maxSize-used.length) = some sig) :
    message.signedWith sized answers data maxSize = some (message.withSignature used sig) := by
  obtain ⟨hsha,hnew,hinit,hupdate⟩ := hs
  rw [signedWith, if_pos hsha]
  simp only [Block.length_resize, hu, hnew, hinit, hupdate, if_true, List.length_drop, hf,
    withSignature_data]

variable (message) in
theorem signedWith_none (h : appendedSignature sized answers data maxSize = none) :
    message.signedWith sized answers data maxSize = none := by
  simp only [signedWith, Block.length_resize, List.length_drop]
  cases hu : sized.storeDataWithSize data maxSize with
  | none => exact ite_self none
  | some used =>
    by_cases hs : answers.messageDigestSha256 ∧ answers.newMessageDigest ∧
        answers.messageDigestSignInit ∧ answers.messageDigestSignUpdate
    · obtain ⟨hsha,hnew,hinit,hupdate⟩ := hs
      have hf : answers.messageDigestSignFinal data (maxSize-used.length) = none := by
        rwa [appendedSignature, if_pos ⟨hsha,hnew,hinit,hupdate⟩, hu, Option.bind_some] at h
      simp only [hsha, hnew, hinit, hupdate, if_true, hf]
    · -- some step before the last one fails
      split_ifs with hsha hnew hinit hupdate
      · exact absurd ⟨hsha,hnew,hinit,hupdate⟩ hs
      all_goals rfl

variable (sized answers data maxSize) in
/-- Either the data is signed or, as it was posted, stored under the old flags. -/
theorem storeAndSign_cases (message : MessageView) :
    (∃ used sig, sized.storeDataWithSize data maxSize = some used ∧
      appendedSignature sized answers data maxSize = some sig ∧
      message.storeAndSign sized answers data maxSize = (true,message.withSignature used sig)) ∨
    appendedSignature sized answers data maxSize = none ∧
      message.storeAndSign sized answers data maxSize = (true,{ message with data }) := by
  cases ha : appendedSignature sized answers data maxSize with
  | none =>
    right
    rw [storeAndSign, signedWith_none message ha]
    exact ⟨rfl,rfl⟩
  | some sig =>
    left
    have hsig := ha
    rw [appendedSignature] at ha
    split_ifs at ha with hs
    obtain ⟨used,hu,hf⟩ := Option.bind_eq_some_iff.mp ha
    refine ⟨used,sig,hu,rfl,?_⟩
    rw [storeAndSign, signedWith_some message hs hu hf]

variable (sized answers message data maxSize) in
/-- What is read back is the data, and a signature exactly if one was appended. -/
def KeepsContent : Prop :=
  let stored := (message.storeAndSign sized answers data maxSize).2
  stored.content sized.getDataWithSize = data ∧
    (stored.isSigned = true ↔ (appendedSignature sized answers data maxSize).isSome = true) ∧
    ∀ sig, appendedSignature sized answers data maxSize = some sig → stored.signature sized = sig

theorem withSignature_isSigned (message : MessageView) (used sig : Block) :
    (message.withSignature used sig).isSigned = true := rfl

theorem withSignature_content {used sig : Block} (message : MessageView)
    (hu : sized.storeDataWithSize data maxSize = some used) :
    (message.withSignature used sig).content sized.getDataWithSize = data := by
  rw [content, if_pos (withSignature_isSigned message used sig)]
  exact sized.get_frame sig hu

theorem withSignature_signature {used sig : Block} (message : MessageView)
    (hu : sized.storeDataWithSize data maxSize = some used) :
    (message.withSignature used sig).signature sized = sig := by
  rw [signature, if_pos (withSignature_isSigned message used sig)]
  simp only [withSignature, sized.skip_frame sig hu, List.drop_left']

variable (sized answers message data maxSize) in
/-- The stored message can be read back exactly if a signature was appended or
the message did not pass for a signed one before. -/
theorem keepsContent_iff : KeepsContent sized answers message data maxSize ↔
    (appendedSignature sized answers data maxSize).isSome = true ∨ message.isSigned = false := by
  rcases storeAndSign_cases sized answers data maxSize message with ⟨used,sig,hu,ha,hs⟩ | ⟨ha,hs⟩
  · simp only [KeepsContent, hs, ha, withSignature_content message hu,
      withSignature_isSigned, withSignature_signature message hu, Option.some.injEq]
    simp
  · have hflags : ({ message with data } : MessageView).isSigned = message.isSigned := rfl
    simp only [KeepsContent, hs, ha, content, hflags]
    cases message.isSigned <;> simp

/-- A posted message has the content of the posted view, under the same condition. -/
theorem postSigned_content {posted : MessageView}
    (hp : message.postSigned sized answers (some maxSize) = some posted)
    (hk : (appendedSignature sized answers (message.content sized.getDataWithSize)
      maxSize).isSome = true ∨ message.isSigned = false) :
    posted.content sized.getDataWithSize = message.content sized.getDataWithSize := by
  have hkeeps := (keepsContent_iff sized answers { message with data := [] }
    (message.content sized.getDataWithSize) maxSize).mpr hk
  cases hp
  exact hkeeps.1

section Verification

variable {X509 PKey : Type*} (digest : DigestAnswers) (context : Context X509 PKey)

/-- The signature that was appended is verified over the data, and no bit is
set for a message that was stored unsigned. -/
theorem verifyBits_stored
    (hk : (appendedSignature sized answers data maxSize).isSome = true ∨
      message.isSigned = false) :
    (message.storeAndSign sized answers data maxSize).2.verifyBits sized digest context =
      match appendedSignature sized answers data maxSize with
      | some sig => context.verifyRemoteSignature digest data sig message.sourceId false
      | none => {} := by
  rcases storeAndSign_cases sized answers data maxSize message with ⟨used,sig,hu,ha,hs⟩ | ⟨ha,hs⟩
  · rw [ha, hs, verifyBits, withSignature_content message hu, withSignature_signature message hu]
    rfl
  · have hsigned : message.isSigned = false := by simpa [ha] using hk
    have hflags : ({ message with data } : MessageView).isSigned = message.isSigned := rfl
    rw [ha, hs, verifyBits, signature, hflags, hsigned]
    simp [Context.verifyRemoteSignature, Context.acceptingKey]

end Verification

end MessageView

namespace SampleSized

def getDataWithSize (blk : Block) : Block :=
  match SampleBackend.number.decode blk with
  | some (size,rest) => rest.take size
  | none => []

def skipDataWithSize (blk : Block) : ℕ :=
  match SampleBackend.number.decode blk with
  | some (size,rest) => blk.length-rest.length+size
  | none => 0

theorem decode_frame {data frame : Block} {size : ℕ} (rest : Block)
    (h : storeDataWithSize data size = some frame) :
    SampleBackend.number.decode (frame ++ rest) = some (data.length,data ++ rest) ∧
      frame.length = (SampleBackend.number.encode data.length).length+data.length := by
  simp only [storeDataWithSize] at h
  split_ifs at h
  cases h
  rw [List.append_assoc]
  exact ⟨SampleBackend.number.decode_encode data.length (data ++ rest),List.length_append⟩

end SampleSized

def sampleSizedData : SizedData where
  toSizedBlocks := sampleSized
  getDataWithSize := SampleSized.getDataWithSize
  skipDataWithSize := SampleSized.skipDataWithSize
  get_frame rest h := by
    rw [SampleSized.getDataWithSize, (SampleSized.decode_frame rest h).1]
    exact List.take_left' rfl
  skip_frame rest h := by
    obtain ⟨hd,hl⟩ := SampleSized.decode_frame rest h
    simp only [SampleSized.skipDataWithSize, hd, List.length_append]
    omega

/-- A library whose signatures are two bytes. -/
def sampleSigner : SignAnswers where
  messageDigestSignFinal digested free :=
    if 2 ≤ free then some [UInt8.ofNat digested.length,9] else none
  final_fits h := by
    split_ifs at h with hfree
    cases h
    exact hfree

example : (({} : MessageView).storeAndSign sampleSizedData sampleSigner [5,6] 8).2.data =
    [0,2,5,6,2,9] := by decide

namespace MessageView

/-- A message that came with the flag is stored with plain data under it when
no digest type is available. -/
theorem inherited_flags_kept : ¬ ∀ (sized : SizedData) (answers : SignAnswers)
    (message : MessageView) (data : Block) (maxSize : ℕ),
    KeepsContent sized answers message data maxSize := by
  intro h
  have hk := h sampleSizedData { sampleSigner with messageDigestSha256 := false }
    { cryptoFlags := { signedContent := true } } [5,6] 8
  exact absurd hk.1 (by decide)

end MessageView

end MsgBus
