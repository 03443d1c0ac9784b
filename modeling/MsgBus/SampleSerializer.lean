import MsgBus.BlobManipulator
import MsgBus.MessageStorage

/-!
# A concrete serializer

The serializer of the bus is a parameter of the model. This one writes a
number as its remainder in one byte behind its quotient in unary; it shows
that the laws asked of a serializer can be met and serves to run the model on
concrete blobs and messages.
-/

set_option autoImplicit false

namespace MsgBus.SampleSerializer

def named : List Identifier := [
  .eagiMsgBus, .requestId, .assignId, .confirmId, .announceId, .annEndptId, .notARouter,
  .byeByeEndp, .byeByeRutr, .byeByeBrdg, .stillAlive, .ping, .pong, .subscribTo, .unsubFrom,
  .notSubTo, .qrySubscrb, .qrySubscrp, .clrBlkList, .clrAlwList, .msgBlkList, .msgAlwList,
  .blobFrgmnt, .blobResend, .blobPrpare, .rtrCertQry, .rtrCertPem, .eptCertQry, .eptCertPem,
  .eptSigNnce, .eptNnceSig, .reqRutrPwd, .encRutrPwd, .topoQuery, .topoRutrCn, .topoBrdgCn,
  .topoEndpt, .statsQuery, .statsRutr, .statsBrdg, .statsEndpt, .statsConn, .msgFlowInf]

def toNumber : Identifier → ℕ
  | .other value => named.length+value
  | id => named.idxOf id

def ofNumber (n : ℕ) : Option Identifier :=
  if n < named.length then named[n]? else some (.other (n-named.length))

theorem ofNumber_toNumber (id : Identifier) : ofNumber (toNumber id) = some id := by
  cases id with
  | other value => simp [ofNumber, toNumber]
  | _ => rfl

def number : SelfCode Byte ℕ :=
  .retract (fun n : ℕ => (n/200,UInt8.ofNat (n%200))) (fun p => some (p.1*200+p.2.toNat))
    (fun n => by
      have h : n%200 < UInt8.size := (Nat.mod_lt n (by decide)).trans (by decide)
      rw [UInt8.toNat_ofNat_of_lt' h, Nat.div_add_mod'])
    (.pair (.unary 1 0 (by decide)) .symbol)

def identifier : SelfCode Byte Identifier := .retract toNumber ofNumber ofNumber_toNumber number

def rational : SelfCode Byte ℚ :=
  .retract (fun q : ℚ => (q.num,q.den)) (fun p => some (mkRat p.1 p.2))
    (fun q => by rw [Rat.mkRat_self]) (.pair (.integer number) number)

/-- The fields of a header in the order of the source. -/
def fields (h : BlobHeader) :
    Identifier × Identifier × ℕ × ℕ × ℤ × ℤ × ℕ :=
  (h.classId,h.methodId,h.sourceBlobId,h.targetBlobId,h.offset,h.totalSize,h.options)

def header : SelfCode Byte BlobHeader :=
  .retract fields
    (fun (classId,methodId,sourceBlobId,targetBlobId,offset,totalSize,options) =>
      some ⟨classId,methodId,sourceBlobId,targetBlobId,offset,totalSize,options⟩)
    (fun _ => rfl)
    (.pair identifier (.pair identifier (.pair number (.pair number
      (.pair (.integer number) (.pair (.integer number) number))))))

end SampleSerializer

def sampleSerializer : BlobSerializer where
  header := SampleSerializer.header
  resend := .pair SampleSerializer.number (.pair SampleSerializer.number SampleSerializer.number)
  prepare := .pair SampleSerializer.number SampleSerializer.rational
  getDataWithSize := id

namespace SampleBackend

def number : LocalCode Byte ℕ :=
  .retract (fun n : ℕ => (n/200,UInt8.ofNat (n%200))) (fun p => some (p.1*200+p.2.toNat))
    (fun n => by
      have h : n%200 < UInt8.size := (Nat.mod_lt n (by decide)).trans (by decide)
      rw [UInt8.toNat_ofNat_of_lt' h, Nat.div_add_mod'])
    (.pair (.unary 1 0 (by decide)) .symbol)

def priority : LocalCode Byte MessagePriority :=
  .retract (fun p => UInt8.ofNat p.value)
    (fun b => [.idle,.low,.normal,.high,.critical][b.toNat]?)
    (fun p => by cases p <;> rfl) .symbol

def cryptoFlags : LocalCode Byte MessageCryptoFlags :=
  .retract
    (fun f => (if f.asymmetric then 1 else 0)+(if f.signedHeader then 2 else 0)+
      (if f.signedContent then 4 else 0))
    (fun b => some ⟨b%2 = 1,b/2%2 = 1,b/4%2 = 1⟩)
    (fun f => by rcases f with ⟨_ | _,_ | _,_ | _⟩ <;> rfl) .symbol

end SampleBackend

def sampleBackend : SerializerBackend where
  identifier := .retract SampleSerializer.toNumber SampleSerializer.ofNumber
    SampleSerializer.ofNumber_toNumber SampleBackend.number
  endpointId := SampleBackend.number
  sequence := SampleBackend.number
  int8 := .retract Int8.toUInt8 (fun b => some b.toInt8) (fun _ => rfl) .symbol
  priority := SampleBackend.priority
  cryptoFlags := SampleBackend.cryptoFlags

def samplePing : MessageView :=
  { sourceId := 5, targetId := 300, hopCount := -3, cryptoFlags := ⟨true,false,true⟩,
    data := [7,8] }

theorem samplePing_restored :
    deserializeMessage sampleBackend { priority := .high, data := [1] }
        [0,0,0,11,0,5,1,0,100,0,0,0,0,253,0,2,5,7,8] = some (msgbusId .ping,samplePing) ∧
      deserializeMessage sampleBackend {} [0,0,0,11,0,5,1,0,100,0,0,0,0,253,0,2] = none := by
  refine ⟨?_,?_⟩
  · exact (serialize_deserialize_message sampleBackend { priority := .high, data := [1] }).1
      (msgbusId .ping) samplePing 19 ⟨19,_⟩ (by decide)
  · exact (serialize_deserialize_message sampleBackend {}).2.2 (msgbusId .ping) samplePing 17
      ⟨17,[0,0,0,11,0,5,1,0,100,0,0,0,0,253,0,2,5]⟩ _ (by decide) (by decide) (by decide)

namespace SampleSized

def storeDataWithSize (data : Block) (size : ℕ) : Option Block :=
  let frame := SampleBackend.number.encode data.length ++ data
  if frame.length ≤ size then some frame else none

def sizedBlocks : ℕ → Block → List Block
  | 0, _ => []
  | fuel+1, blk =>
    match SampleBackend.number.decode blk with
    | none => []
    | some (n,rest) => rest.take n::sizedBlocks fuel (rest.drop n)

theorem decode_nil : SampleBackend.number.decode [] = none := rfl

theorem decode_shorter {blk rest : Block} {n : ℕ}
    (h : SampleBackend.number.decode blk = some (n,rest)) : rest.length < blk.length := by
  obtain ⟨word,rfl,hword⟩ := SampleBackend.number.takes h
  cases word with
  | nil =>
    have h := hword []
    rw [List.append_nil, decode_nil] at h
    cases h
  | cons b word =>
    rw [List.length_append, List.length_cons]
    omega

/-- Fuel for each byte is enough. -/
theorem sizedBlocks_fuel {fuel more : ℕ} {blk : Block} (h : blk.length ≤ fuel) :
    sizedBlocks (more+fuel) blk = sizedBlocks fuel blk := by
  induction fuel generalizing blk with
  | zero =>
    rw [List.length_eq_zero_iff.mp (Nat.le_zero.mp h)]
    cases more <;> rfl
  | succ fuel ih =>
    rw [← Nat.add_assoc]
    simp only [sizedBlocks]
    cases hd : SampleBackend.number.decode blk with
    | none => rfl
    | some r =>
      have hlt := decode_shorter hd
      have hdrop : (r.2.drop r.1).length ≤ fuel := by
        rw [List.length_drop]
        omega
      simp only [ih hdrop]

theorem sizedBlocks_frame {data frame : Block} {size : ℕ} (rest : Block)
    (h : storeDataWithSize data size = some frame) :
    sizedBlocks (frame ++ rest).length (frame ++ rest) =
      data::sizedBlocks rest.length rest := by
  simp only [storeDataWithSize] at h
  split_ifs at h
  cases h
  rw [List.append_assoc]
  have hd := SampleBackend.number.decode_encode data.length (data ++ rest)
  have hlt := decode_shorter hd
  obtain ⟨more,hmore⟩ : ∃ more, (SampleBackend.number.encode data.length ++
      (data ++ rest)).length = more+rest.length+1 := by
    simp only [List.length_append] at hlt ⊢
    exact ⟨(SampleBackend.number.encode data.length).length+data.length-1,by omega⟩
  rw [hmore, sizedBlocks, hd]
  simp only [List.take_left', List.drop_left', sizedBlocks_fuel le_rfl]

theorem sizedBlocks_zeros (fuel n : ℕ) :
    ∀ data ∈ sizedBlocks fuel (List.replicate n 0), data = [] := by
  induction fuel generalizing n with
  | zero =>
    intro data h
    cases h
  | succ fuel ih =>
    intro data h
    obtain _ | _ | n := n
    · cases h
    · cases h
    · rw [sizedBlocks, show SampleBackend.number.decode (List.replicate (n+2) 0) =
        some (0,List.replicate n 0) from rfl] at h
      rcases List.mem_cons.mp h with rfl | h
      · rfl
      · exact ih n data h

end SampleSized

/-- The size is written in front of the data by the sample backend. -/
def sampleSized : SizedBlocks where
  storeDataWithSize := SampleSized.storeDataWithSize
  forEachDataWithSize blk := SampleSized.sizedBlocks blk.length blk
  store_fits := by
    intro data size frame h
    simp only [SampleSized.storeDataWithSize] at h
    split_ifs at h with hfits
    cases h
    exact hfits
  forEach_frame rest _ h := SampleSized.sizedBlocks_frame rest h
  forEach_zeros n := SampleSized.sizedBlocks_zeros _ n

def sampleClock : Clock := ⟨0,id⟩

def acceptAll : SendHandler := fun _ _ _ => true

end MsgBus
