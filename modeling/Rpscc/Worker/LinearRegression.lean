import Mathlib.Algebra.BigOperators.Field
import Mathlib.Algebra.Field.Rat
import Mathlib.LinearAlgebra.Matrix.Notation
import Mathlib.Tactic.NormNum
import Mathlib.Tactic.Ring
import Rpscc.Lib.Accumulate
import Rpscc.Lib.Checked

/-!
# The worker's gradient

`calc_g` of `linear_regression.py` computes the loss of a linear model on a batch, and its gradient.
It does so in two ways, of which a flag chooses one: with operations on whole arrays, and with
loops.  `calcG` is both, over the rationals.  An array of `n` numbers is a function on `Fin n`, so
that its length is part of its type.

What is to be computed is `ridgeLoss` and `ridgeGrad`, the mean of half the squared errors with a
penalty on the weights, and its gradient (`ridgeLoss_add`).  The vectorised branch computes them.
The loops compute the loss; of the penalty on the weights the gradient gets the last coordinate
only, because the line that adds it stands behind the loop over the coordinates and not in it
(`loop_eq`).  So the branches agree exactly when all the other weights are zero
(`branches_agree_iff`).
-/

set_option autoImplicit false

namespace Rpscc

namespace LinearRegression

open Function (update)

variable {n d : ℕ}

/-- `alpha = 0.1`. -/
def alpha : ℚ := 1 / 10

/-! ## The loops -/

/-- The loops that fill in `y_pred`. -/
def predictLoop (X : Matrix (Fin n) (Fin d) ℚ) (w : Fin d → ℚ) : Fin n → ℚ :=
  (List.finRange n).foldl (fun yPred i ↦
    (List.finRange d).foldl (fun yPred j ↦ update yPred i (yPred i + X i j * w j)) yPred)
    fun _ ↦ 0

/-- The loops that add up `loss`.  Dividing the integer `0` by `n = 0` raises an error. -/
def lossLoop (Y : Fin n → ℚ) (w : Fin d → ℚ) (yPred : Fin n → ℚ) : Except Fault ℚ :=
  let loss := (List.finRange n).foldl (fun loss i ↦ loss + 1 / 2 * (yPred i - Y i) ^ 2) 0
  if n = 0 then .error .divisionByZero
  else .ok ((List.finRange d).foldl (fun loss i ↦ loss + 1 / 2 * alpha * w i ^ 2) (loss / n))

/-- The loops that fill in `w_grad`, and the line behind them, in which `i` is what the last pass of
the outer loop left it at.  Without a pass it is an index of the samples, and `w_grad` has no
element there. -/
def gradLoop (X : Matrix (Fin n) (Fin d) ℚ) (Y : Fin n → ℚ) (w : Fin d → ℚ) (yPred : Fin n → ℚ) :
    Except Fault (Fin d → ℚ) :=
  let wGrad := (List.finRange d).foldl (fun wGrad i ↦
    let wGrad := (List.finRange n).foldl
      (fun wGrad j ↦ update wGrad i (wGrad i + (yPred j - Y j) * X j i)) wGrad
    update wGrad i (wGrad i / n)) fun _ ↦ 0
  match (List.finRange d).getLast? with
  | some i => .ok (update wGrad i (wGrad i + alpha * w i))
  | none => .error .outOfRange

/-- `calc_g(X, Y, w)`, with the flag as an argument.  For an empty batch the vectorised branch gives
numbers that are not numbers, which the rationals do not have. -/
def calcG (multiThread : Bool) (X : Matrix (Fin n) (Fin d) ℚ) (Y : Fin n → ℚ) (w : Fin d → ℚ) :
    Except Fault (ℚ × (Fin d → ℚ)) :=
  if multiThread then
    let yPred := X.mulVec w
    let loss := (∑ i, 1 / 2 * (yPred i - Y i) ^ 2) / n + 1 / 2 * alpha * (w ⬝ᵥ w)
    let wGrad := fun i ↦ X.transpose.mulVec (yPred - Y) i / n + alpha * w i
    if n = 0 then .error .divisionByZero else .ok (loss, wGrad)
  else do
    let yPred := predictLoop X w
    let loss ← lossLoop Y w yPred
    let wGrad ← gradLoop X Y w yPred
    .ok (loss, wGrad)

/-! ## What is to be computed -/

/-- The mean of half the squared errors, and a penalty on the weights. -/
def ridgeLoss (X : Matrix (Fin n) (Fin d) ℚ) (Y : Fin n → ℚ) (w : Fin d → ℚ) : ℚ :=
  (∑ i, 1 / 2 * ((X.mulVec w - Y) i) ^ 2) / n + 1 / 2 * alpha * (w ⬝ᵥ w)

/-- Its gradient in `w`. -/
def ridgeGrad (X : Matrix (Fin n) (Fin d) ℚ) (Y : Fin n → ℚ) (w : Fin d → ℚ) : Fin d → ℚ :=
  fun i ↦ X.transpose.mulVec (X.mulVec w - Y) i / n + alpha * w i

/-- **The gradient is the gradient**: a step `v` changes the loss by the product of `v` with the
gradient, up to a term of second order. -/
theorem ridgeLoss_add (X : Matrix (Fin n) (Fin d) ℚ) (Y : Fin n → ℚ) (w v : Fin d → ℚ) :
    ridgeLoss X Y (w + v) = ridgeLoss X Y w + v ⬝ᵥ ridgeGrad X Y w + ridgeLoss X 0 v := by
  have herror : ∑ i, 1 / 2 * ((X.mulVec (w + v) - Y) i) ^ 2
      = ∑ i, 1 / 2 * ((X.mulVec w - Y) i) ^ 2 + X.mulVec v ⬝ᵥ (X.mulVec w - Y)
        + ∑ i, 1 / 2 * ((X.mulVec v - 0) i) ^ 2 := by
    rw [dotProduct, ← Finset.sum_add_distrib, ← Finset.sum_add_distrib]
    refine Finset.sum_congr rfl fun i _ ↦ ?_
    rw [Matrix.mulVec_add]
    simp only [Pi.add_apply, Pi.sub_apply, Pi.zero_apply]
    ring
  have hpenalty : (w + v) ⬝ᵥ (w + v) = w ⬝ᵥ w + 2 * (v ⬝ᵥ w) + v ⬝ᵥ v := by
    rw [add_dotProduct, dotProduct_add, dotProduct_add, dotProduct_comm w v]
    ring
  have hgrad : v ⬝ᵥ ridgeGrad X Y w
      = (X.mulVec v ⬝ᵥ (X.mulVec w - Y)) / n + alpha * (v ⬝ᵥ w) := by
    have htranspose : X.mulVec v ⬝ᵥ (X.mulVec w - Y)
        = v ⬝ᵥ X.transpose.mulVec (X.mulVec w - Y) := by
      rw [Matrix.mulVec_transpose, dotProduct_comm, Matrix.dotProduct_mulVec, dotProduct_comm]
    rw [htranspose, dotProduct, dotProduct, dotProduct, Finset.sum_div, Finset.mul_sum,
      ← Finset.sum_add_distrib]
    refine Finset.sum_congr rfl fun i _ ↦ ?_
    rw [ridgeGrad]
    ring
  rw [ridgeLoss, ridgeLoss, ridgeLoss, herror, hpenalty, hgrad]
  ring

/-! ## What the branches compute -/

variable {X : Matrix (Fin n) (Fin d) ℚ} {Y : Fin n → ℚ} {w : Fin d → ℚ}

/-- The vectorised branch is right. -/
theorem vectorised_eq (hn : 0 < n) :
    calcG true X Y w = .ok (ridgeLoss X Y w, ridgeGrad X Y w) := by
  rw [calcG, if_pos rfl]
  exact if_neg hn.ne'

@[simp] theorem predictLoop_eq : predictLoop X w = X.mulVec w := by
  rw [predictLoop]
  simp only [Accumulate.foldl_update_add]
  rw [Accumulate.foldl_update_finRange fun i x ↦ (List.finRange d).foldl
    (fun x j ↦ x + X i j * w j) x]
  funext i
  rw [Accumulate.foldl_add_finRange, zero_add]
  rfl

/-- The loops compute the loss. -/
theorem lossLoop_eq (hn : 0 < n) : lossLoop Y w (X.mulVec w) = .ok (ridgeLoss X Y w) := by
  rw [lossLoop, if_neg hn.ne', Accumulate.foldl_add_finRange, Accumulate.foldl_add_finRange,
    zero_add, ridgeLoss, dotProduct, Finset.mul_sum]
  simp only [Pi.sub_apply, sq, mul_assoc]

/-- Without the line behind the loops the gradient has no penalty. -/
theorem gradLoop_eq {e : Fin n → ℚ} (hd : 0 < d) (he : e = X.mulVec w - Y) :
    gradLoop X Y w (X.mulVec w)
      = .ok fun i ↦ X.transpose.mulVec e i / n + if (i : ℕ) + 1 = d then alpha * w i else 0 := by
  have hcell : ∀ (i : Fin d) (x : ℚ), (List.finRange n).foldl
      (fun x j ↦ x + (X.mulVec w j - Y j) * X j i) x = x + X.transpose.mulVec e i := by
    intro i x
    rw [Accumulate.foldl_add_finRange, he]
    refine congrArg (x + ·) (Finset.sum_congr rfl fun j _ ↦ ?_)
    exact mul_comm _ _
  have hlast : (List.finRange d).getLast? = some ⟨d - 1, by omega⟩ := by
    rw [List.getLast?_eq_getElem?, List.length_finRange,
      List.getElem?_eq_getElem (by rw [List.length_finRange]; omega), List.getElem_finRange]
    rfl
  rw [gradLoop]
  simp only [Accumulate.foldl_update_add, Function.update_idem, Function.update_self, hcell, hlast]
  rw [Accumulate.foldl_update_finRange fun i x ↦ (x + X.transpose.mulVec e i) / n]
  simp only [zero_add]
  refine congrArg Except.ok (funext fun i ↦ ?_)
  by_cases hi : (i : ℕ) + 1 = d
  · have heq : (⟨d - 1, by omega⟩ : Fin d) = i := Fin.ext (by simp only; omega)
    rw [heq, Function.update_self, if_pos hi]
  · have hne : i ≠ ⟨d - 1, by omega⟩ := fun h ↦ hi (by rw [h]; simp only; omega)
    rw [Function.update_of_ne hne, if_neg hi, add_zero]

/-- **What the loops compute**: the loss, and a gradient in which the penalty is missing in every
coordinate but the last. -/
theorem loop_eq (hn : 0 < n) (hd : 0 < d) :
    calcG false X Y w = .ok (ridgeLoss X Y w, fun i ↦
      X.transpose.mulVec (X.mulVec w - Y) i / n
        + if (i : ℕ) + 1 = d then alpha * w i else 0) := by
  rw [calcG, if_neg Bool.false_ne_true]
  dsimp only
  rw [predictLoop_eq, lossLoop_eq hn, Checked.ok_bind, gradLoop_eq hd rfl, Checked.ok_bind]

/-- Both branches give the loss and its gradient. -/
def BranchesAgree (X : Matrix (Fin n) (Fin d) ℚ) (Y : Fin n → ℚ) (w : Fin d → ℚ) : Prop :=
  ∃ loss wGrad, calcG false X Y w = .ok (loss, wGrad) ∧ calcG true X Y w = .ok (loss, wGrad) ∧
    loss = ridgeLoss X Y w ∧ wGrad = ridgeGrad X Y w

/-- **The branches agree exactly when all weights but the last are zero.** -/
theorem branches_agree_iff (hn : 0 < n) (hd : 0 < d) :
    BranchesAgree X Y w ↔ ∀ i : Fin d, (i : ℕ) + 1 < d → w i = 0 := by
  have halpha : alpha ≠ 0 := by norm_num [alpha]
  rw [BranchesAgree, loop_eq hn hd, vectorised_eq hn]
  constructor
  · rintro ⟨loss, wGrad, hloop, -, -, hgrad⟩ i hi
    have hcell := congrFun ((Prod.mk.inj (Except.ok.inj hloop)).2.trans hgrad) i
    rw [ridgeGrad, if_neg hi.ne, add_left_cancel_iff] at hcell
    exact (mul_eq_zero.1 hcell.symm).resolve_left halpha
  · intro hzero
    have hsame : ridgeGrad X Y w = fun i ↦ X.transpose.mulVec (X.mulVec w - Y) i / n
        + if (i : ℕ) + 1 = d then alpha * w i else 0 := by
      funext i
      rw [ridgeGrad]
      split
      · rfl
      · rename_i hi
        have hlt := i.isLt
        rw [hzero i (by omega), mul_zero]
    rw [← hsame]
    exact ⟨_, _, rfl, rfl, rfl, rfl⟩

/-- Two samples, and a weight for the second feature only. -/
theorem branches_agree_iff_two : BranchesAgree !![1, 2; 3, 1] ![1, 2] ![0, 3] := by
  refine (branches_agree_iff (by decide) (by decide)).2 fun i hi ↦ ?_
  obtain rfl : i = 0 := Fin.ext (by simp only [Fin.val_zero]; omega)
  rfl

/-- A sample without an error, and a weight for the first feature: the gradient of the loops does
not see the penalty. -/
theorem penalty_lost :
    calcG false !![(1 : ℚ), 1] ![1] ![1, 0] = .ok (1 / 20, ![0, 0]) ∧
    calcG true !![(1 : ℚ), 1] ![1] ![1, 0] = .ok (1 / 20, ![1 / 10, 0]) ∧
    ¬ BranchesAgree !![1, 1] ![1] ![1, 0] := by
  have hloss : ridgeLoss !![1, 1] ![1] ![1, 0] = 1 / 20 := by
    norm_num [ridgeLoss, alpha, Matrix.mulVec, dotProduct]
  have hloop : calcG false !![(1 : ℚ), 1] ![1] ![1, 0] = .ok (1 / 20, ![0, 0]) := by
    rw [loop_eq (by decide) (by decide), hloss]
    refine congrArg Except.ok (Prod.ext rfl (funext fun i ↦ ?_))
    fin_cases i <;> norm_num [Matrix.mulVec, dotProduct]
  have hvectorised : calcG true !![(1 : ℚ), 1] ![1] ![1, 0] = .ok (1 / 20, ![1 / 10, 0]) := by
    rw [vectorised_eq (by decide), hloss]
    refine congrArg Except.ok (Prod.ext rfl (funext fun i ↦ ?_))
    fin_cases i <;> norm_num [ridgeGrad, alpha, Matrix.mulVec, dotProduct]
  refine ⟨hloop, hvectorised, ?_⟩
  rintro ⟨loss, wGrad, hfalse, htrue, -, -⟩
  have hgrad := hloop.symm.trans (hfalse.trans (htrue.symm.trans hvectorised))
  have hcell := congrFun (Prod.mk.inj (Except.ok.inj hgrad)).2 0
  norm_num at hcell

end LinearRegression

end Rpscc
