import Mathlib.Tactic.Ring
import MsgBus.Lib.ByteBlock

/-!
# Blocks kept in chunks

The symbols of a block are kept in chunks of one size; the last chunk may be
shorter, and chunks that grow while slices of some content are written into
them may be shorter too. When every place of the content has been written, the
chunks are the content cut at the multiples of their size.
-/

set_option autoImplicit false

namespace ChunkedBlock

open ByteBlock

variable {β : Type*} (size : ℕ)

def symbolAt (chunks : List (List β)) (x : ℕ) : Option β := chunks[x/size]?.bind (·[x%size]?)

/-- No chunk reaches beyond its size or beyond the end of the content. -/
def Within (total : ℕ) (chunks : List (List β)) : Prop :=
  ∀ i chunk, chunks[i]? = some chunk →
    i*size < total ∧ chunk.length ≤ size ∧ i*size+chunk.length ≤ total

def Holds (s : Set ℕ) (chunks : List (List β)) (whole : List β) : Prop :=
  ∀ x ∈ s, x < whole.length ∧ symbolAt size chunks x = whole[x]?

def grown (chunks : List (List β)) (count : ℕ) : List (List β) :=
  chunks ++ List.replicate (count-chunks.length) []

def writeInto (blank : β) (chunk : List β) (offs : ℕ) (src : List β) : List β :=
  overlay (chunk ++ List.replicate (offs+src.length-chunk.length) blank) offs src

def write (blank : β) (chunks : List (List β)) (i offs : ℕ) (src : List β) : List (List β) :=
  (grown chunks (i+1)).modify i fun chunk => writeInto blank chunk offs src

/-- The content cut at the multiples of the size: every chunk but the last is
full, and no chunk is empty. -/
structure Cut (chunks : List (List β)) (whole : List β) : Prop where
  flatten : chunks.flatten = whole
  full : ∀ chunk ∈ chunks.dropLast, chunk.length = size
  last : ∀ chunk ∈ chunks.getLast?, 1 ≤ chunk.length ∧ chunk.length ≤ size

section Write

variable (blank : β) (chunk : List β) (offs : ℕ) (src : List β)

theorem writeInto_length : (writeInto blank chunk offs src).length =
    max chunk.length (offs+src.length) := by
  rw [writeInto, overlay_length]
  · rw [List.length_append, List.length_replicate]
    omega
  · rw [List.length_append, List.length_replicate]
    omega

theorem writeInto_inside {j : ℕ} (hl : offs ≤ j) (hr : j < offs+src.length) :
    (writeInto blank chunk offs src)[j]? = src[j-offs]? := by
  apply overlay_inside _ _ _ _ _ hl hr
  rw [List.length_append, List.length_replicate]
  omega

theorem writeInto_outside {j : ℕ} (h : j < offs ∨ offs+src.length ≤ j) (hj : j < chunk.length) :
    (writeInto blank chunk offs src)[j]? = chunk[j]? := by
  rw [writeInto, overlay_outside _ _ _ _ _ h, List.getElem?_append_left hj]
  rw [List.length_append, List.length_replicate]
  omega

theorem grown_getElem (chunks : List (List β)) (count i : ℕ) : (grown chunks count)[i]? =
    if i < chunks.length then chunks[i]? else if i < count then some [] else none := by
  rw [grown]
  split_ifs with hi hc
  · exact List.getElem?_append_left hi
  · rw [List.getElem?_append_right (not_lt.mp hi), List.getElem?_replicate, if_pos (by omega)]
  · rw [List.getElem?_append_right (not_lt.mp hi), List.getElem?_replicate, if_neg (by omega)]

theorem write_getElem_same (chunks : List (List β)) (i : ℕ) :
    (write blank chunks i offs src)[i]? =
      some (writeInto blank ((chunks[i]?).getD []) offs src) := by
  rw [write, List.getElem?_modify_eq, grown_getElem]
  split_ifs with hi hc
  · rw [List.getElem?_eq_getElem hi]
    rfl
  · rw [List.getElem?_eq_none (not_lt.mp hi)]
    rfl
  · omega

theorem write_getElem_other (chunks : List (List β)) {i j : ℕ} (h : j ≠ i) :
    (write blank chunks i offs src)[j]? =
      if j < chunks.length then chunks[j]? else if j < i then some [] else none := by
  rw [write, List.getElem?_modify_ne _ _ h.symm, grown_getElem]
  split_ifs <;> first | rfl | omega

end Write

section Store

variable {size} {chunks : List (List β)} {whole src : List β} {i offs : ℕ} (blank : β)

theorem place_iff (h : 0 < size) (hoffs : offs+src.length ≤ size) {x : ℕ} :
    i*size+offs ≤ x ∧ x < i*size+offs+src.length ↔
      x/size = i ∧ offs ≤ x%size ∧ x%size < offs+src.length := by
  have hx := Nat.div_add_mod' x size
  have hm := Nat.mod_lt x h
  constructor
  · rintro ⟨hl,hr⟩
    have hi : x/size = i := by
      apply Nat.div_eq_of_lt_le
      · omega
      · rw [Nat.add_mul, Nat.one_mul]
        omega
    rw [hi] at hx
    omega
  · rintro ⟨hi,hl,hr⟩
    rw [hi] at hx
    omega

/-- A slice of the content that lies in one chunk is written. -/
theorem write_within (hw : Within size whole.length chunks) (hoffs : offs+src.length ≤ size)
    (hn : src ≠ []) (hs : Slice whole (i*size+offs) src) :
    Within size whole.length (write blank chunks i offs src) := by
  have hpos := List.length_pos_of_ne_nil hn
  have hend := slice_bound hs hn
  intro j chunk hj
  by_cases hji : j = i
  · subst hji
    rw [write_getElem_same] at hj
    obtain rfl := Option.some.inj hj
    rw [writeInto_length]
    cases hc : chunks[j]? with
    | none =>
      simp only [Option.getD_none, List.length_nil]
      omega
    | some old =>
      have hold := hw j old hc
      simp only [Option.getD_some]
      omega
  · rw [write_getElem_other blank offs src chunks hji] at hj
    split_ifs at hj with hlen hlt
    · exact hw j chunk hj
    · obtain rfl := Option.some.inj hj
      have hmul : j*size ≤ i*size := Nat.mul_le_mul_right size (by omega)
      simp only [List.length_nil]
      omega

theorem write_holds {s : Set ℕ} (h : 0 < size) (ha : Holds size s chunks whole)
    (hoffs : offs+src.length ≤ size) (hn : src ≠ []) (hs : Slice whole (i*size+offs) src) :
    Holds size (s ∪ Set.Ico (i*size+offs) (i*size+offs+src.length))
      (write blank chunks i offs src) whole := by
  have hend := slice_bound hs hn
  intro x hx
  by_cases hin : i*size+offs ≤ x ∧ x < i*size+offs+src.length
  · obtain ⟨hi,hl,hr⟩ := (place_iff h hoffs).mp hin
    refine ⟨by omega,?_⟩
    have hx := Nat.div_add_mod' x size
    rw [symbolAt, hi, write_getElem_same, Option.bind_some, writeInto_inside _ _ _ _ hl hr,
      ← slice_getElem hs hin.1 hin.2]
    congr 1
    rw [hi] at hx
    omega
  · obtain ⟨hlen,hsym⟩ := ha x (hx.resolve_right hin)
    refine ⟨hlen,?_⟩
    rw [symbolAt] at hsym
    -- the place was written before, so its chunk is long enough
    obtain ⟨chunk,hc,hj⟩ := Option.bind_eq_some_iff.mp
      (hsym.trans (List.getElem?_eq_getElem hlen))
    have hjlen : x%size < chunk.length := (List.getElem?_eq_some_iff.mp hj).1
    rw [← hsym, symbolAt]
    by_cases hi : x/size = i
    · rw [hi] at hc
      have hout : x%size < offs ∨ offs+src.length ≤ x%size := by
        by_contra hcon
        exact hin ((place_iff h hoffs).mpr ⟨hi,by omega,by omega⟩)
      rw [hi, write_getElem_same, hc, Option.getD_some, Option.bind_some, Option.bind_some,
        writeInto_outside blank chunk offs src hout hjlen]
    · rw [write_getElem_other blank offs src chunks hi,
        if_pos (List.getElem?_eq_some_iff.mp hc).1]

end Store

section Whole

variable {size} {chunks : List (List β)} {whole : List β}

/-- When all is written, the chunks are the full cuts of the content. -/
theorem chunk_eq (h : 0 < size) (hw : Within size whole.length chunks)
    (ha : Holds size (Set.Ico 0 whole.length) chunks whole) (i : ℕ) : chunks[i]? =
      if i*size < whole.length then some ((whole.drop (i*size)).take size) else none := by
  have hplace : ∀ j < size, i*size+j < whole.length →
      chunks[i]?.bind (·[j]?) = whole[i*size+j]? := by
    intro j hj hlen
    have hsym := (ha (i*size+j) ⟨Nat.zero_le _,hlen⟩).2
    rwa [symbolAt, Nat.mul_comm i size, Nat.mul_add_div h, Nat.div_eq_of_lt hj, Nat.add_zero,
      Nat.mul_add_mod, Nat.mod_eq_of_lt hj, Nat.mul_comm size i] at hsym
  split_ifs with hi
  · have hfirst := hplace 0 h hi
    rw [List.getElem?_eq_getElem (by omega : i*size+0 < whole.length)] at hfirst
    obtain ⟨chunk,hc,-⟩ := Option.bind_eq_some_iff.mp hfirst
    rw [hc]
    congr 1
    apply List.ext_getElem?
    intro j
    rw [List.getElem?_take, List.getElem?_drop]
    by_cases hj : j < size ∧ i*size+j < whole.length
    · rw [if_pos hj.1, ← hplace j hj.1 hj.2, hc, Option.bind_some]
    · obtain ⟨_,hsize,hend⟩ := hw i chunk hc
      rw [List.getElem?_eq_none (by omega : chunk.length ≤ j)]
      split_ifs with hs
      · exact (List.getElem?_eq_none (by omega)).symm
      · rfl
  · cases hc : chunks[i]? with
    | none => rfl
    | some chunk => exact absurd (hw i chunk hc).1 hi

theorem cut_of_chunks (h : 0 < size) (hc : ∀ i : ℕ, chunks[i]? =
    if i*size < whole.length then some ((whole.drop (i*size)).take size) else none) :
    Cut size chunks whole := by
  induction chunks generalizing whole with
  | nil =>
    have h0 := hc 0
    rw [Nat.zero_mul, List.getElem?_nil] at h0
    split_ifs at h0 with hlen
    obtain rfl : whole = [] := List.eq_nil_of_length_eq_zero (by omega)
    exact ⟨rfl,by simp,by simp⟩
  | cons chunk chunks ih =>
    have h0 := hc 0
    rw [Nat.zero_mul, List.drop_zero, List.getElem?_cons_zero] at h0
    split_ifs at h0 with hlen
    obtain rfl := Option.some.inj h0
    have hrest : Cut size chunks (whole.drop size) := by
      apply ih
      intro i
      have hi := hc (i+1)
      rw [List.getElem?_cons_succ] at hi
      rw [hi, List.length_drop, List.drop_drop, Nat.add_one_mul, Nat.add_comm size]
      exact if_congr (by omega) rfl rfl
    refine ⟨?_,?_,?_⟩
    · rw [List.flatten_cons, hrest.flatten, List.take_append_drop]
    · cases chunks with
      | nil => simp
      | cons next chunks =>
        -- a further chunk starts behind a full one
        have h1 := hc 1
        rw [Nat.one_mul, List.getElem?_cons_succ, List.getElem?_cons_zero] at h1
        split_ifs at h1 with hfull
        intro c hmem
        rw [List.dropLast_cons_cons] at hmem
        rcases List.mem_cons.mp hmem with rfl | hmem
        · rw [List.length_take, Nat.min_eq_left hfull.le]
        · exact hrest.full c hmem
    · cases chunks with
      | nil =>
        rintro c hmem
        rw [List.getLast?_singleton, Option.mem_some_iff] at hmem
        rw [← hmem, List.length_take]
        omega
      | cons next chunks =>
        rw [List.getLast?_cons_cons]
        exact hrest.last

theorem cut_of_holds (h : 0 < size) (hw : Within size whole.length chunks)
    (ha : Holds size (Set.Ico 0 whole.length) chunks whole) : Cut size chunks whole :=
  cut_of_chunks h (chunk_eq h hw ha)

end Whole

end ChunkedBlock
