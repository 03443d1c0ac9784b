import Mathlib.Data.List.Basic
import Mathlib.Data.List.Range

/-!
# Blocks in a stream

A stream that is written in blocks of one size is cut into these blocks again.
-/

set_option autoImplicit false

namespace BlockStream

variable {β : Type*}

/-- The whole blocks at the front of the stream. -/
def blocks (size : ℕ) (stream : List β) : List (List β) :=
  (List.range (stream.length/size)).map fun i => (stream.drop (i*size)).take size

variable {size : ℕ} {block rest : List β}

@[simp] theorem blocks_nil (size : ℕ) : blocks size ([] : List β) = [] := by simp [blocks]

theorem blocks_cons (h : 0 < size) (hb : block.length = size) :
    blocks size (block++rest) = block::blocks size rest := by
  have hcount : (block++rest).length/size = rest.length/size+1 := by
    rw [List.length_append, hb, Nat.add_comm, Nat.add_div_right _ h]
  rw [blocks, hcount, List.range_succ_eq_map, List.map_cons, List.map_map]
  congr 1
  · rw [Nat.zero_mul, List.drop_zero, List.take_left' hb]
  · apply List.map_congr_left
    intro i _
    simp only [Function.comp_apply, Nat.succ_eq_add_one]
    rw [Nat.succ_mul, Nat.add_comm, ← List.drop_drop, List.drop_left' hb]

/-- What consists of whole blocks is what they make up. -/
theorem blocks_flatten (h : 0 < size) {bs : List (List β)} (hs : ∀ b ∈ bs, b.length = size) :
    blocks size bs.flatten = bs := by
  induction bs with
  | nil => exact blocks_nil size
  | cons b bs ih =>
    rw [List.flatten_cons, blocks_cons h (hs b List.mem_cons_self),
      ih (fun b hb => hs b (List.mem_cons_of_mem _ hb))]

end BlockStream
