import Mathlib.Tactic.Ring
import MsgBus.BlobIo
import MsgBus.Lib.FragmentSource

/-!
# The source of a sequence

The content is that of a counter of 64 bits, written with its highest byte in
front. A generator keeps the current value with its bytes reversed and shifts
them out one by one; one that begins within a value shifts the first of them
out unused.
-/

set_option autoImplicit false

namespace MsgBus

structure SequenceGenerator where
  mod : UInt64
  seq : UInt64
  cur : UInt64
  ofs : ℕ := 0
  deriving DecidableEq, Repr

namespace SequenceGenerator

def sequenceBytes : ℕ := 8

/-- One round of the loop over the bytes: what has been reversed, and the rest. -/
def reverseByte (p : UInt64 × UInt64) : UInt64 × UInt64 :=
  ((p.1 ||| (0xFF &&& p.2)) <<< 8,p.2 >>> 8)

def reverseBytes (s : UInt64) : UInt64 :=
  let (r,s) := reverseByte^[sequenceBytes-1] (0,s)
  r ||| (0xFF &&& s)

def ofOffset (offs : ℕ) : SequenceGenerator where
  mod := UInt64.ofNat (offs%sequenceBytes)
  seq := UInt64.ofNat (offs/sequenceBytes)
  cur := reverseBytes (UInt64.ofNat (offs/sequenceBytes))

/-- The loop ends when nothing is left to skip, thus after as many rounds. -/
def skip : ℕ → SequenceGenerator → SequenceGenerator
  | 0, g => g
  | rounds+1, g =>
    if 0 < g.mod then skip rounds { g with mod := g.mod-1, ofs := g.ofs+1, cur := g.cur >>> 8 }
    else g

def next (g : SequenceGenerator) : Byte × SequenceGenerator :=
  let g := skip g.mod.toNat g
  let result := (0xFF &&& g.cur).toUInt8
  if g.ofs+1 < sequenceBytes then (result,{ g with ofs := g.ofs+1, cur := g.cur >>> 8 })
  else (result,{ g with seq := g.seq+1, cur := reverseBytes (g.seq+1), ofs := 0 })

def generate : ℕ → SequenceGenerator → Block
  | 0, _ => []
  | size+1, g => g.next.1::generate size g.next.2

end SequenceGenerator

structure SequenceBlobIo where
  size : ℕ
  deriving DecidableEq, Repr

instance : SourceBlobIo SequenceBlobIo where
  totalSize io := io.size
  fetchFragment io offs size :=
    (SequenceGenerator.generate (min size (io.size-offs)) (.ofOffset offs),io)

namespace SequenceGenerator

/-- The byte of the sequence, where the counter is written as a numeral. -/
def byteAt (i : ℕ) : Byte := UInt8.ofNat ((UInt64.ofNat (i/8)).toNat/256^(7-i%8))

/-- The lowest bytes of a number in the other order. -/
def reversed (n : ℕ) : ℕ → ℕ
  | 0 => 0
  | i+1 => reversed n i*256+n/256^i%256

theorem reversed_div (n i j : ℕ) : reversed n (i+j)/256^j = reversed n i := by
  induction j with
  | zero => simp
  | succ j ih =>
    rw [← ih, ← Nat.add_assoc, reversed, Nat.pow_succ', ← Nat.div_div_eq_div_mul]
    congr 1
    omega

theorem reversed_mod (n i : ℕ) : reversed n (i+1)%256 = n/256^i%256 := by
  rw [reversed]
  omega

theorem reversed_lt (n i : ℕ) : reversed n i < 256^i := by
  induction i with
  | zero => simp [reversed]
  | succ i ih =>
    rw [reversed, Nat.pow_succ]
    omega

theorem toNat_lowByte (s : UInt64) : (0xFF &&& s).toNat = s.toNat%256 := by
  rw [UInt64.toNat_and, Nat.and_comm]
  exact Nat.and_two_pow_sub_one_eq_mod s.toNat 8

theorem toNat_shift (s : UInt64) : (s >>> 8).toNat = s.toNat/256 := by
  rw [UInt64.toNat_shiftRight]
  exact Nat.shiftRight_eq_div_pow s.toNat 8

/-- A byte goes into the free lowest one. -/
theorem toNat_orByte {r : UInt64} {k : ℕ} (hr : r.toNat = k*256) (s : UInt64) :
    (r ||| (0xFF &&& s)).toNat = k*256+s.toNat%256 := by
  have hlow : s.toNat%256 < 2^8 := Nat.mod_lt _ (by decide)
  rw [UInt64.toNat_or, toNat_lowByte, hr, Nat.mul_comm k 256]
  exact (Nat.two_pow_add_eq_or_of_lt hlow k).symm

theorem toNat_shiftLeft_small {s : UInt64} (h : s.toNat < 256^7) :
    (s <<< 8).toNat = s.toNat*256 := by
  have hshift : s.toNat <<< 8 = s.toNat*256 := Nat.shiftLeft_eq s.toNat 8
  rw [UInt64.toNat_shiftLeft]
  change s.toNat <<< 8 % 2^64 = s.toNat*256
  rw [hshift]
  exact Nat.mod_eq_of_lt (by omega)

theorem reverseByte_iterate (s : UInt64) {i : ℕ} (hi : i < 8) :
    ((reverseByte^[i]) (0,s)).1.toNat = reversed s.toNat i*256 ∧
    ((reverseByte^[i]) (0,s)).2.toNat = s.toNat/256^i := by
  induction i with
  | zero => simp [reversed]
  | succ i ih =>
    obtain ⟨hr,hs⟩ := ih (by omega)
    rw [Function.iterate_succ_apply']
    constructor
    · have hor : (((reverseByte^[i]) (0,s)).1 ||| (0xFF &&& ((reverseByte^[i]) (0,s)).2)).toNat =
          reversed s.toNat (i+1) := by
        rw [toNat_orByte hr, hs, reversed]
      have hlt : reversed s.toNat (i+1) < 256^7 :=
        (reversed_lt _ _).trans_le (Nat.pow_le_pow_right (by decide) (by omega))
      rw [reverseByte, toNat_shiftLeft_small (hor ▸ hlt), hor]
    · rw [reverseByte, toNat_shift, hs, Nat.div_div_eq_div_mul, Nat.pow_succ]

theorem toNat_reverseBytes (s : UInt64) : (reverseBytes s).toNat = reversed s.toNat 8 := by
  obtain ⟨hr,hs⟩ := reverseByte_iterate s (show 7 < 8 by decide)
  simp only [reverseBytes, sequenceBytes]
  rw [toNat_orByte hr, hs]
  rfl

/-- The generator is at a byte of the sequence, of which it has yet to skip some. -/
structure At (g : SequenceGenerator) (i : ℕ) : Prop where
  place : g.ofs+g.mod.toNat = i%8
  seq : g.seq = UInt64.ofNat (i/8)
  cur : g.cur.toNat = reversed g.seq.toNat 8/256^g.ofs

theorem at_ofOffset (offs : ℕ) : At (ofOffset offs) offs := by
  refine ⟨?_,rfl,?_⟩
  · simp only [ofOffset, sequenceBytes, Nat.zero_add]
    exact UInt64.toNat_ofNat_of_lt' ((Nat.mod_lt offs (by decide)).trans (by decide))
  · simp [ofOffset, sequenceBytes, toNat_reverseBytes]

theorem skip_at {g : SequenceGenerator} {i : ℕ} (h : At g i) :
    At (skip g.mod.toNat g) i ∧ (skip g.mod.toNat g).mod = 0 := by
  generalize hn : g.mod.toNat = n
  induction n generalizing g with
  | zero => exact ⟨h,UInt64.toNat_inj.mp hn⟩
  | succ n ih =>
    have hpos : 0 < g.mod := by
      rw [UInt64.lt_iff_toNat_lt, hn]
      exact Nat.succ_pos n
    have hle : 1 ≤ g.mod := by
      rw [UInt64.le_iff_toNat_le, hn]
      exact Nat.succ_pos n
    have hmod : (g.mod-1).toNat = n := by
      rw [UInt64.toNat_sub_of_le _ _ hle, hn]
      rfl
    have hplace := h.place
    rw [skip, if_pos hpos]
    refine ih ⟨?_,h.seq,?_⟩ hmod
    · change g.ofs+1+(g.mod-1).toNat = i%8
      omega
    · rw [toNat_shift, h.cur, Nat.div_div_eq_div_mul, Nat.pow_succ]

theorem next_at {g : SequenceGenerator} {i : ℕ} (h : At g i) :
    g.next.1 = byteAt i ∧ At g.next.2 (i+1) := by
  obtain ⟨⟨hplace,hseq,hcur⟩,hmod⟩ := skip_at h
  simp only [next]
  generalize skip g.mod.toNat g = k at hplace hseq hcur hmod
  have hofs : k.ofs = i%8 := by
    rw [← hplace, hmod]
    rfl
  have hbyte : (0xFF &&& k.cur).toUInt8 = byteAt i := by
    have hlow := reversed_div k.seq.toNat (7-i%8+1) (i%8)
    rw [show 7-i%8+1+i%8 = 8 by omega] at hlow
    apply UInt8.toNat_inj.mp
    rw [UInt64.toNat_toUInt8, toNat_lowByte, hcur, hofs, hlow, reversed_mod, byteAt,
      UInt8.toNat_ofNat', hseq]
    omega
  split_ifs with hlast
  · -- the rest of the same value
    have hplace : (i+1)%8 = i%8+1 ∧ (i+1)/8 = i/8 := by
      simp only [sequenceBytes] at hlast
      omega
    refine ⟨hbyte,?_,?_,?_⟩
    · simp [hofs, hmod, hplace.1]
    · rw [hplace.2, hseq]
    · rw [toNat_shift, hcur, Nat.div_div_eq_div_mul, Nat.pow_succ]
  · -- the value after it
    have hplace : (i+1)%8 = 0 ∧ (i+1)/8 = i/8+1 := by
      simp only [sequenceBytes] at hlast
      omega
    refine ⟨hbyte,?_,?_,?_⟩
    · simp [hmod, hplace.1]
    · rw [hplace.2, hseq]
      exact (UInt64.ofNat_add (i/8) 1).symm
    · simp [toNat_reverseBytes]

theorem generate_at {g : SequenceGenerator} {i : ℕ} (h : At g i) (size : ℕ) :
    generate size g = (List.range size).map fun j => byteAt (i+j) := by
  induction size generalizing g i with
  | zero => rfl
  | succ size ih =>
    obtain ⟨hbyte,hnext⟩ := next_at h
    rw [generate, hbyte, ih hnext, List.range_succ_eq_map, List.map_cons, List.map_map]
    refine congrArg (byteAt i :: ·) (List.map_congr_left fun j _ => ?_)
    rw [Function.comp_apply, Nat.succ_eq_add_one, Nat.add_assoc, Nat.add_comm 1 j]

end SequenceGenerator

namespace SequenceBlobIo

open SequenceGenerator (byteAt)
open FragmentSource (fetchSplit)

def bytes (size : ℕ) : Block := (List.range size).map byteAt

theorem bytes_slice (size offs len : ℕ) : ((bytes size).drop offs).take len =
    (List.range (min len (size-offs))).map fun j => byteAt (offs+j) := by
  apply List.ext_getElem
  · simp [bytes]
  · intro j h h'
    simp [bytes]

theorem serves (io : SequenceBlobIo) : FragmentSource.Serves
    (SourceBlobIo.fetchFragment : SequenceBlobIo → ℕ → ℕ → Block × SequenceBlobIo) (· = io)
    (bytes io.size) := by
  constructor
  · rintro s offs len rfl _
    rw [bytes_slice]
    exact SequenceGenerator.generate_at (SequenceGenerator.at_ofOffset offs) _
  · rintro s offs len rfl _
    rfl

theorem bytes_length (size : ℕ) : (bytes size).length = size := by
  rw [bytes, List.length_map, List.length_range]

/-- The counter values are fetched wherever they are cut, and none of the
fragments before their end is empty. -/
theorem sequence_independent_of_cuts (io : SequenceBlobIo) (lens : List ℕ)
    (hsum : SourceBlobIo.totalSize io ≤ lens.sum) :
    (fetchSplit SourceBlobIo.fetchFragment io 0 lens).flatten =
      (SourceBlobIo.fetchFragment io 0 (SourceBlobIo.totalSize io)).1 ∧
    (SourceBlobIo.fetchFragment io 0 (SourceBlobIo.totalSize io)).1 = bytes io.size ∧
    ∀ offs < SourceBlobIo.totalSize io, ∀ len, 0 < len →
      0 < (SourceBlobIo.fetchFragment io offs len).1.length := by
  have hlength : (bytes io.size).length = SourceBlobIo.totalSize io := bytes_length io.size
  have hall := (serves io).fetch_all rfl
  rw [hlength] at hall
  refine ⟨?_,hall,?_⟩
  · rw [hall, (serves io).fetchSplit_all rfl (hlength ▸ hsum)]
  · intro offs hoffs len hlen
    rw [(serves io).fetch_length rfl (hlength ▸ hoffs.le), hlength]
    omega

/-- Cuts within the first and within the second value. -/
theorem cuts_within_values : SourceBlobIo.totalSize (SequenceBlobIo.mk 17) ≤ [3,9,5].sum ∧
    (fetchSplit SourceBlobIo.fetchFragment (SequenceBlobIo.mk 17) 0 [3,9,5]).flatten =
      [0,0,0,0,0,0,0,0,0,0,0,0,0,0,0,1,0] := by
  have hsum : SourceBlobIo.totalSize (SequenceBlobIo.mk 17) ≤ [3,9,5].sum := by decide
  obtain ⟨hcuts,hbytes,-⟩ := sequence_independent_of_cuts ⟨17⟩ [3,9,5] hsum
  exact ⟨hsum,(hcuts.trans hbytes).trans (by decide)⟩

end SequenceBlobIo

end MsgBus
