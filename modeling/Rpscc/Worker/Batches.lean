import Mathlib.Data.List.FinRange
import Mathlib.Data.List.Flatten
import Mathlib.Tactic.Common

/-!
# The worker's batches

`next_batch` of `linear_regression.py` is a generator that never ends.  It goes through the samples
in a random order, a batch at a time, and when it comes to the end of a permutation it draws the
next one and fills the batch up from there.

What it has yielded, with the rest of the permutation, is all the permutations it has drawn, one
behind the other (`NextBatch.Inv`).  So it uses the samples equally often, up to one
(`NextBatch.batches_even`).  But it does not look whether a batch is longer than a permutation: the
cursor then runs ahead, and in the end the batches are too short.
-/

set_option autoImplicit false

namespace Rpscc

/-- The variables of `next_batch` for `n` samples, and how many permutations it has drawn. -/
structure NextBatch (n : ℕ) where
  permutation : List (Fin n)
  cursor : ℕ
  drawn : ℕ

namespace NextBatch

variable {n : ℕ}

/-- Before the loop.  The results of `np.random.permutation(n)` are `draw 0`, `draw 1` and so on. -/
def start (draw : ℕ → List (Fin n)) : NextBatch n := ⟨draw 0, 0, 1⟩

/-- One pass of the loop: the indices of the batch, and the variables when it is yielded. -/
def next (draw : ℕ → List (Fin n)) (batchSize : ℕ) (s : NextBatch n) :
    List (Fin n) × NextBatch n :=
  if s.cursor + batchSize ≤ n then
    ((s.permutation.drop s.cursor).take batchSize, { s with cursor := s.cursor + batchSize })
  else
    -- `batch_size - (n - cursor)`, which is positive here
    let nextCursor := s.cursor + batchSize - n
    (s.permutation.drop s.cursor ++ (draw s.drawn).take nextCursor,
      ⟨draw s.drawn, nextCursor, s.drawn + 1⟩)

/-- The first batches, and the variables after them. -/
def batches (draw : ℕ → List (Fin n)) (batchSize : ℕ) : ℕ → List (List (Fin n)) × NextBatch n
  | 0 => ([], start draw)
  | t + 1 =>
    let r := batches draw batchSize t
    (r.1 ++ [(r.2.next draw batchSize).1], (r.2.next draw batchSize).2)

variable {draw : ℕ → List (Fin n)} {batchSize : ℕ}

/-! ## The stream of samples -/

/-- What is yielded, with what is left of the permutation, is what is drawn. -/
structure Inv (draw : ℕ → List (Fin n)) (yielded : List (Fin n)) (s : NextBatch n) : Prop where
  drawn : ∃ k, s.drawn = k + 1 ∧ s.permutation = draw k
  stream : yielded ++ s.permutation.drop s.cursor = (List.range s.drawn).flatMap draw

theorem Inv.next {yielded : List (Fin n)} {s : NextBatch n} (h : Inv draw yielded s)
    (batchSize : ℕ) :
    Inv draw (yielded ++ (s.next draw batchSize).1) (s.next draw batchSize).2 := by
  rw [NextBatch.next]
  split
  · refine ⟨h.drawn, ?_⟩
    dsimp only
    rw [List.append_assoc, ← List.drop_drop, List.take_append_drop, h.stream]
  · refine ⟨⟨s.drawn, rfl, rfl⟩, ?_⟩
    dsimp only
    rw [← List.append_assoc yielded, h.stream, List.append_assoc, List.take_append_drop,
      List.range_succ, List.flatMap_append, List.flatMap_singleton]

theorem inv_batches (draw : ℕ → List (Fin n)) (batchSize t : ℕ) :
    Inv draw (batches draw batchSize t).1.flatten (batches draw batchSize t).2 := by
  induction t with
  | zero => exact ⟨⟨0, rfl, rfl⟩, by simp [batches, start]⟩
  | succ t ih =>
    have hnext := ih.next batchSize
    rw [batches]
    dsimp only
    rwa [List.flatten_append, List.flatten_singleton]

/-- Every permutation has every sample once. -/
theorem count_flatMap (hdraw : ∀ k, (draw k).Perm (List.finRange n)) (i : Fin n) (m : ℕ) :
    ((List.range m).flatMap draw).count i = m := by
  induction m with
  | zero => rfl
  | succ m ih =>
    rw [List.range_succ, List.flatMap_append, List.flatMap_singleton, List.count_append, ih,
      (hdraw m).count_eq, List.count_eq_one_of_mem (List.nodup_finRange n) (List.mem_finRange i)]

/-- A sample has been used as often as permutations have been drawn, or once less. -/
theorem count_batches (hdraw : ∀ k, (draw k).Perm (List.finRange n)) (t : ℕ) (i : Fin n) :
    (batches draw batchSize t).1.flatten.count i ≤ (batches draw batchSize t).2.drawn ∧
      (batches draw batchSize t).2.drawn ≤ (batches draw batchSize t).1.flatten.count i + 1 := by
  obtain ⟨⟨k, -, hperm⟩, hstream⟩ := inv_batches draw batchSize t
  have hcount := congrArg (List.count i) hstream
  rw [List.count_append, count_flatMap hdraw] at hcount
  have hnodup : (batches draw batchSize t).2.permutation.Nodup := by
    rw [hperm]
    exact (hdraw k).nodup_iff.2 (List.nodup_finRange n)
  have hrest := List.nodup_iff_count_le_one.1 (hnodup.sublist
    (List.drop_sublist (batches draw batchSize t).2.cursor _)) i
  omega

/-! ## The lengths of the batches -/

theorem Inv.length_permutation (hdraw : ∀ k, (draw k).Perm (List.finRange n))
    {yielded : List (Fin n)} {s : NextBatch n} (h : Inv draw yielded s) :
    s.permutation.length = n := by
  obtain ⟨k, -, hperm⟩ := h.drawn
  rw [hperm, (hdraw k).length_eq, List.length_finRange]

/-- With small batches the cursor stays within the permutation, and the batches are full. -/
theorem length_batches (hdraw : ∀ k, (draw k).Perm (List.finRange n)) (hle : batchSize ≤ n)
    (t : ℕ) : (batches draw batchSize t).2.cursor ≤ n ∧
      ∀ b ∈ (batches draw batchSize t).1, b.length = batchSize := by
  induction t with
  | zero => exact ⟨Nat.zero_le n, fun b hb ↦ absurd hb List.not_mem_nil⟩
  | succ t ih =>
    obtain ⟨hcursor, hlength⟩ := ih
    have hperm := (inv_batches draw batchSize t).length_permutation hdraw
    have hdrawn : (draw (batches draw batchSize t).2.drawn).length = n := by
      simp [(hdraw _).length_eq]
    rw [batches]
    dsimp only
    rw [List.forall_mem_append, List.forall_mem_singleton, next]
    split
    · rename_i hroom
      refine ⟨hroom, hlength, ?_⟩
      simp [hperm]
      omega
    · dsimp only
      refine ⟨by omega, hlength, ?_⟩
      simp [hperm, hdrawn]
      omega

/-- With big batches the cursor runs ahead. -/
theorem cursor_batches (hlt : n < batchSize) (t : ℕ) :
    (batches draw batchSize t).2.cursor = t * (batchSize - n) := by
  induction t with
  | zero => rw [Nat.zero_mul]; rfl
  | succ t ih =>
    rw [batches]
    dsimp only
    rw [next, if_neg (by omega)]
    dsimp only
    rw [ih, Nat.succ_mul]
    omega

/-- **The batches are even.**  Whatever permutations are drawn, and however long the batches are, no
sample is used more than once more often than another.  The batches have the length that was asked
for if and only if it is not greater than the number of samples. -/
theorem batches_even (hdraw : ∀ k, (draw k).Perm (List.finRange n)) :
    (∀ t i j, (batches draw batchSize t).1.flatten.count i
      ≤ (batches draw batchSize t).1.flatten.count j + 1) ∧
    ((∀ t, ∀ b ∈ (batches draw batchSize t).1, b.length = batchSize) ↔ batchSize ≤ n) := by
  refine ⟨fun t i j ↦ ?_, fun hfull ↦ ?_, fun hle t ↦ (length_batches hdraw hle t).2⟩
  · exact (count_batches hdraw t i).1.trans (count_batches hdraw t j).2
  · by_contra hlt
    rw [not_le] at hlt
    have hperm := (inv_batches draw batchSize n).length_permutation hdraw
    have hdrawn : (draw (batches draw batchSize n).2.drawn).length = n := by
      simp [(hdraw _).length_eq]
    have hahead : n ≤ (batches draw batchSize n).2.cursor := by
      rw [cursor_batches hlt]
      exact Nat.le_mul_of_pos_right n (by omega)
    -- the batch after `n` others is no more than one permutation
    have hlast := hfull (n + 1) ((batches draw batchSize n).2.next draw batchSize).1
      (List.mem_append_right _ (List.mem_singleton_self _))
    rw [next, if_neg (by omega), List.length_append, List.length_drop, List.length_take, hperm,
      hdrawn] at hlast
    omega

/-- Three samples in batches of two. -/
theorem batches_even_three : (batches (fun _ ↦ List.finRange 3) 2 3).1 = [[0, 1], [2, 0], [1, 2]] ∧
    ∀ b ∈ (batches (fun _ ↦ List.finRange 3) 2 3).1, b.length = 2 :=
  ⟨by decide, (batches_even fun _ ↦ List.Perm.refl _).2.2 (by decide) 3⟩

end NextBatch

end Rpscc
