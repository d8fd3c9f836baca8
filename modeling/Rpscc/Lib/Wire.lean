import Mathlib.Algebra.Group.Action.Defs
import Mathlib.Algebra.Order.BigOperators.Group.List
import Mathlib.Data.Nat.Digits.Lemmas

/-!
# The size of a serialised message

Protocol buffers write a message field by field: a tag, which takes one byte if the number of the
field is below `16`, and the value.  Numbers are written in base `128`.  Strings, sub-messages and
packed lists of numbers are blocks, which begin with their length.  In version 3 a number that is
zero is left out, and so is an empty string or an empty list.  This file has the number of bytes of
each kind of field, and bounds for it.
-/

set_option autoImplicit false

namespace Wire

/-- A number in base `128`, with one byte for zero. -/
def varint (n : ℕ) : ℕ := max 1 (Nat.digits 128 n).length

/-- An `int32`, which is extended to 64 bits, so that a negative one takes ten bytes. -/
def int32 (n : Int) : ℕ := varint (n % 2 ^ 64).toNat

/-- A tag, a length and that many bytes. -/
def block (n : ℕ) : ℕ := 1 + varint n + n

/-- A field that is a number. -/
def int32Field (n : Int) : ℕ := if n = 0 then 0 else 1 + int32 n

/-- A field that is a truth value. -/
def boolField (b : Bool) : ℕ := if b then 2 else 0

/-- A string of `n` bytes, or a packed list that takes `n` bytes. -/
def blockField (n : ℕ) : ℕ := if n = 0 then 0 else block n

/-- A packed list of numbers. -/
def int32sField (ns : List Int) : ℕ := blockField (ns.map int32).sum

/-! ## Bounds -/

theorem varint_pos (n : ℕ) : 1 ≤ varint n := le_max_left _ _

theorem varint_le {n k : ℕ} (hk : 1 ≤ k) (h : n < 128 ^ k) : varint n ≤ k :=
  max_le hk ((Nat.digits_length_le_iff (by omega) n).2 h)

theorem int32_pos (n : Int) : 1 ≤ int32 n := varint_pos _

theorem int32_le (n : Int) : int32 n ≤ 10 := by
  refine varint_le (by omega) ?_
  have hlt := Int.emod_lt_of_pos n (show (0 : Int) < 2 ^ 64 by omega)
  omega

theorem int32Field_le (n : Int) : int32Field n ≤ 11 := by
  have h := int32_le n
  rw [int32Field]
  split <;> omega

theorem le_block (n : ℕ) : n ≤ block n := Nat.le_add_left _ _

theorem le_blockField (n : ℕ) : n ≤ blockField n := by
  rw [blockField]
  split
  · omega
  · exact le_block n

/-- A block of less than two million bytes has at most three for its length. -/
theorem block_le {n : ℕ} (h : n < 2097152) : block n ≤ n + 4 := by
  have hle := varint_le (n := n) (k := 3) (by omega) h
  rw [block]
  omega

theorem blockField_le {n : ℕ} (h : n < 2097152) : blockField n ≤ n + 4 := by
  rw [blockField]
  split
  · omega
  · exact block_le h

theorem length_le_sum_int32 (ns : List Int) : ns.length ≤ (ns.map int32).sum := by
  have h := List.card_nsmul_le_sum (ns.map int32) 1 fun x hx ↦ by
    obtain ⟨n, -, rfl⟩ := List.mem_map.1 hx
    exact int32_pos n
  rwa [List.length_map, smul_eq_mul, Nat.mul_one] at h

theorem sum_int32_le (ns : List Int) : (ns.map int32).sum ≤ 10 * ns.length := by
  have h := List.sum_le_card_nsmul (ns.map int32) 10 fun x hx ↦ by
    obtain ⟨n, -, rfl⟩ := List.mem_map.1 hx
    exact int32_le n
  rwa [List.length_map, smul_eq_mul, Nat.mul_comm] at h

theorem length_le_int32sField (ns : List Int) : ns.length ≤ int32sField ns :=
  (length_le_sum_int32 ns).trans (le_blockField _)

theorem int32sField_le {ns : List Int} (h : ns.length ≤ 200000) :
    int32sField ns ≤ 10 * ns.length + 4 := by
  have hle := sum_int32_le ns
  have hfield := blockField_le (n := (ns.map int32).sum) (by omega)
  rw [int32sField]
  omega

example : int32sField [0, 127, 128, -1] = 16 := by decide

end Wire
