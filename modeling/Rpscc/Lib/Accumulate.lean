import Mathlib.Algebra.BigOperators.Fin
import Mathlib.Data.List.FinRange
import Mathlib.Logic.Function.Basic

/-!
# Loops that add up

An array that is filled in by a loop is a function of its indices here, and a write is
`Function.update`.  Three kinds of loop are closed forms: one that adds to a number
(`foldl_add_finRange`), one that adds to a single cell (`foldl_update_add`), and one that works on
each cell in turn and looks at no other (`foldl_update_finRange`).
-/

set_option autoImplicit false

universe u v

namespace Accumulate

variable {ι : Type u} {M : Type v}

/-- `for i in l: x += f i`. -/
theorem foldl_add [AddCommMonoid M] (f : ι → M) :
    ∀ (l : List ι) (x : M), l.foldl (fun x i ↦ x + f i) x = x + (l.map f).sum
  | [], x => by rw [List.foldl_nil, List.map_nil, List.sum_nil, add_zero]
  | i :: l, x => by rw [List.foldl_cons, foldl_add f l, List.map_cons, List.sum_cons, add_assoc]

@[simp] theorem foldl_add_finRange [AddCommMonoid M] {n : ℕ} (f : Fin n → M) (x : M) :
    (List.finRange n).foldl (fun x i ↦ x + f i) x = x + ∑ i, f i := by
  rw [foldl_add, Fin.sum_univ_def]

/-- Adding to one cell all along is adding to a number and then writing it there. -/
theorem foldl_update_add [AddCommMonoid M] [DecidableEq ι] {κ : Type u} (f : κ → M) (i : ι) :
    ∀ (l : List κ) (y : ι → M), l.foldl (fun y j ↦ Function.update y i (y i + f j)) y
      = Function.update y i (l.foldl (fun x j ↦ x + f j) (y i))
  | [], y => by rw [List.foldl_nil, List.foldl_nil, Function.update_eq_self]
  | j :: l, y => by
    rw [List.foldl_cons, List.foldl_cons, foldl_update_add f i l, Function.update_idem,
      Function.update_self]

/-- A loop over distinct cells, each of which is rewritten from its own value. -/
theorem foldl_update [DecidableEq ι] (g : ι → M → M) :
    ∀ {l : List ι}, l.Nodup → ∀ y : ι → M,
      l.foldl (fun y i ↦ Function.update y i (g i (y i))) y
        = fun i ↦ if i ∈ l then g i (y i) else y i
  | [], _, y => by
    funext i
    rw [List.foldl_nil, if_neg List.not_mem_nil]
  | i :: l, h, y => by
    rw [List.nodup_cons] at h
    rw [List.foldl_cons, foldl_update g h.2]
    funext k
    by_cases hki : k = i
    · subst hki
      rw [if_neg h.1, Function.update_self, if_pos List.mem_cons_self]
    · simp only [Function.update_of_ne hki, List.mem_cons, hki, false_or]

theorem foldl_update_finRange {n : ℕ} (g : Fin n → M → M) (y : Fin n → M) :
    (List.finRange n).foldl (fun y i ↦ Function.update y i (g i (y i))) y
      = fun i ↦ g i (y i) := by
  rw [foldl_update g (List.nodup_finRange n)]
  funext i
  rw [if_pos (List.mem_finRange i)]

end Accumulate
