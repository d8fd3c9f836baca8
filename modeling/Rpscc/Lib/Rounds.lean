import Mathlib.Data.List.Basic
import Mathlib.Data.List.Count
import Mathlib.Data.List.Nodup
import Mathlib.Logic.Function.Basic
import Mathlib.Order.Bounds.Basic
import Rpscc.Lib.Lists

/-!
# Rounds of a bounded-staleness barrier

A fixed list `ids` of producers hands in updates.  A *round* is one update of every producer, and
it is consumed as soon as it is complete; a producer may run ahead of the consumed rounds by at
most `bound` updates.  Nothing else is remembered here than what each producer has handed in so
far, so this is the specification of the barrier, not an implementation of it: queues, counters
and results are *read off* the history.

* `Rounds.hist a` is everything `a` has handed in, and `Rounds.bottom` the number of rounds
  consumed.  The three fields about them make it impossible to build a state in which a complete
  round has been left lying (`exists_eq`), or one consumed too early (`bottom_le`).
* `Rounds.pending a` is what `a` has handed in that is not consumed; `Rounds.count j` the number
  of producers with more than `j` of those.
* `Rounds.push` hands in one update.  `Rounds.Completes` says when that consumes a round.
* `Rounds.total` folds a merge over the consumed rounds, each as the list of its updates in the
  order of `ids`.  Since `bottom` is the least length of a history (`Rounds.bottom_isLeast`), the
  whole state, `total` included, is a function of the histories alone: `Rounds.bottom_congr` and
  `Rounds.total_congr`.
-/

set_option autoImplicit false

universe u v w

/-- The state of the barrier: what every producer has handed in, and the rounds consumed. -/
structure Rounds {α : Type u} (ids : List α) (bound : ℕ) (U : Type v) where
  /-- The updates a producer has handed in, in order. -/
  hist : α → List U
  /-- The number of rounds consumed. -/
  bottom : ℕ
  /-- A consumed round has an update of everyone. -/
  bottom_le : ∀ a ∈ ids, bottom ≤ (hist a).length
  /-- No complete round is left: someone has handed in nothing beyond the consumed rounds. -/
  exists_eq : ∃ a ∈ ids, (hist a).length = bottom
  /-- Nobody is more than `bound` updates ahead. -/
  le_bound : ∀ a ∈ ids, (hist a).length ≤ bottom + bound

namespace Rounds

variable {α : Type u} {ids : List α} {bound : ℕ} {U : Type v}

/-- Nothing handed in yet. -/
def empty (h : ids ≠ []) : Rounds ids bound U where
  hist := fun _ ↦ []
  bottom := 0
  bottom_le := by simp
  exists_eq := by
    obtain ⟨a, ha⟩ := List.exists_mem_of_ne_nil ids h
    exact ⟨a, ha, rfl⟩
  le_bound := by simp

/-- What `a` has handed in beyond the consumed rounds. -/
def pending (st : Rounds ids bound U) (a : α) : List U := (st.hist a).drop st.bottom

/-- How many producers have more than `j` updates pending. -/
def count (st : Rounds ids bound U) (j : ℕ) : ℕ :=
  ids.countP fun a ↦ decide (j < (st.pending a).length)

theorem length_pending (st : Rounds ids bound U) (a : α) :
    (st.pending a).length = (st.hist a).length - st.bottom := by
  rw [pending, List.length_drop]

theorem length_pending_le (st : Rounds ids bound U) {a : α} (ha : a ∈ ids) :
    (st.pending a).length ≤ bound := by
  have h := st.le_bound a ha
  rw [length_pending]
  omega

theorem length_hist (st : Rounds ids bound U) {a : α} (ha : a ∈ ids) :
    (st.hist a).length = st.bottom + (st.pending a).length := by
  have h := st.bottom_le a ha
  rw [length_pending]
  omega

theorem exists_pending_nil (st : Rounds ids bound U) : ∃ a ∈ ids, st.pending a = [] := by
  obtain ⟨a, ha, h⟩ := st.exists_eq
  exact ⟨a, ha, by rw [pending, ← h, List.drop_length]⟩

/-- Somebody is left out of the first counter: no complete round is pending. -/
theorem count_zero_lt (st : Rounds ids bound U) : st.count 0 < ids.length := by
  refine lt_of_le_of_ne List.countP_le_length fun h ↦ ?_
  rw [count, List.countP_eq_length] at h
  obtain ⟨b, hb, hnil⟩ := st.exists_pending_nil
  have hpos := h b hb
  rw [hnil] at hpos
  simp at hpos

/-- The rounds consumed are the least number of updates anyone has handed in. -/
theorem bottom_isLeast (st : Rounds ids bound U) :
    IsLeast {n | ∃ a ∈ ids, n = (st.hist a).length} st.bottom := by
  refine ⟨?_, ?_⟩
  · obtain ⟨a, ha, h⟩ := st.exists_eq
    exact ⟨a, ha, h.symm⟩
  · rintro n ⟨a, ha, rfl⟩
    exact st.bottom_le a ha

/-- The rounds consumed are a function of the histories. -/
theorem bottom_congr {bound' : ℕ} {st : Rounds ids bound U} {st' : Rounds ids bound' U}
    (h : ∀ a ∈ ids, st.hist a = st'.hist a) : st.bottom = st'.bottom := by
  refine st.bottom_isLeast.unique ?_
  have heq :
      {n | ∃ a ∈ ids, n = (st.hist a).length} = {n | ∃ a ∈ ids, n = (st'.hist a).length} := by
    ext n
    constructor
    · rintro ⟨a, ha, rfl⟩
      exact ⟨a, ha, by rw [h a ha]⟩
    · rintro ⟨a, ha, rfl⟩
      exact ⟨a, ha, by rw [h a ha]⟩
  rw [heq]
  exact st'.bottom_isLeast

theorem pending_congr {bound' : ℕ} {st : Rounds ids bound U} {st' : Rounds ids bound' U}
    (h : ∀ a ∈ ids, st.hist a = st'.hist a) {a : α} (ha : a ∈ ids) :
    st.pending a = st'.pending a := by
  rw [pending, pending, h a ha, bottom_congr h]

/-! ## Folding over the consumed rounds -/

/-- The updates of round `r`, in the order of `ids`. -/
def round (ids : List α) (hist : α → List U) (r : ℕ) : List U :=
  ids.filterMap fun a ↦ (hist a)[r]?

/-- Fold `merge` over the first `n` rounds. -/
def fold {P : Type w} (ids : List α) (hist : α → List U) (merge : P → List U → P) (init : P) :
    ℕ → P
  | 0 => init
  | n + 1 => merge (fold ids hist merge init n) (round ids hist n)

/-- Fold `merge` over the rounds consumed so far. -/
def total {P : Type w} (st : Rounds ids bound U) (merge : P → List U → P) (init : P) : P :=
  fold ids st.hist merge init st.bottom

/-- Only the first `n` updates of everyone matter to the first `n` rounds. -/
theorem fold_congr {P : Type w} {hist hist' : α → List U} {merge : P → List U → P} {init : P} :
    ∀ {n : ℕ}, (∀ a ∈ ids, ∀ r < n, (hist a)[r]? = (hist' a)[r]?) →
      fold ids hist merge init n = fold ids hist' merge init n
  | 0, _ => rfl
  | n + 1, h => by
    have hround : round ids hist n = round ids hist' n :=
      List.filterMap_congr fun a ha ↦ h a ha n (Nat.lt_succ_self n)
    rw [fold, fold, hround, fold_congr fun a ha r hr ↦ h a ha r (Nat.lt_succ_of_lt hr)]

/-- **The simulation rule**: what holds of the initial values and is kept by every round holds of
the results. -/
theorem fold_rel {P : Type w} {P' : Type w} {U' : Type v} {hist : α → List U} {hist' : α → List U'}
    {merge : P → List U → P} {merge' : P' → List U' → P'} {init : P} {init' : P'}
    (R : P → P' → Prop) (h0 : R init init') :
    ∀ {n : ℕ},
      (∀ r < n, ∀ x y, R x y → R (merge x (round ids hist r)) (merge' y (round ids hist' r))) →
      R (fold ids hist merge init n) (fold ids hist' merge' init' n)
  | 0, _ => h0
  | n + 1, h =>
    h n (Nat.lt_succ_self n) _ _ (fold_rel R h0 fun r hr ↦ h r (Nat.lt_succ_of_lt hr))

/-- What the updates of a round hold, put together in the order of `ids`. -/
theorem flatMap_round {V : Type w} (hist : α → List U) (r : ℕ) (f : U → List V) :
    (round ids hist r).flatMap f = ids.flatMap fun a ↦ ((hist a)[r]?).elim [] f := by
  induction ids with
  | nil => rfl
  | cons a ids ih =>
    rw [round, List.filterMap_cons, List.flatMap_cons, ← ih]
    cases (hist a)[r]? <;> rfl

/-- The folded result is a function of the histories. -/
theorem total_congr {P : Type w} {bound' : ℕ} {st : Rounds ids bound U}
    {st' : Rounds ids bound' U} (h : ∀ a ∈ ids, st.hist a = st'.hist a)
    (merge : P → List U → P) (init : P) : st.total merge init = st'.total merge init := by
  rw [total, total, bottom_congr h]
  exact fold_congr fun a ha r _ ↦ by rw [h a ha]

/-! ## Handing in one update -/

section Push

variable [DecidableEq α]

/-- Everyone else already has an update pending, so that one more of `a` completes the round. -/
def Completes (st : Rounds ids bound U) (a : α) : Prop :=
  ∀ b ∈ ids, b ≠ a → st.pending b ≠ []

instance (st : Rounds ids bound U) (a : α) : Decidable (st.Completes a) :=
  inferInstanceAs (Decidable (∀ b ∈ ids, b ≠ a → st.pending b ≠ []))

/-- Only a producer with nothing pending completes a round: someone has nothing pending, and it is
not anyone else. -/
theorem Completes.pending_eq {st : Rounds ids bound U} {a : α} (h : st.Completes a) :
    st.pending a = [] := by
  obtain ⟨b, hb, hnil⟩ := st.exists_pending_nil
  by_cases hba : b = a
  · rw [← hba, hnil]
  · exact absurd hnil (h b hb hba)

/-- What is pending once `a` has handed in `u`, before a complete round is consumed. -/
def stored (st : Rounds ids bound U) (a : α) (u : U) : α → List U :=
  Function.update st.pending a (st.pending a ++ [u])

@[simp, grind =] theorem length_update_hist (st : Rounds ids bound U) (a b : α) (u : U) :
    (Function.update st.hist a (st.hist a ++ [u]) b).length
      = (st.hist b).length + if b = a then 1 else 0 := by
  by_cases hba : b = a
  · subst hba
    simp
  · simp [hba]

/-- `a`, which has room for it, hands in `u`; if that completes a round, the round is consumed. -/
def push (st : Rounds ids bound U) (a : α) (u : U) (ha : a ∈ ids)
    (hroom : (st.pending a).length < bound) : Rounds ids bound U where
  hist := Function.update st.hist a (st.hist a ++ [u])
  bottom := if st.Completes a then st.bottom + 1 else st.bottom
  bottom_le := by
    intro b hb
    have hle := st.bottom_le b hb
    rw [length_update_hist]
    split
    · rename_i hc
      by_cases hba : b = a
      · rw [if_pos hba]; omega
      · have hpos := List.length_pos_of_ne_nil (hc b hb hba)
        rw [length_pending] at hpos
        omega
    · omega
  exists_eq := by
    by_cases hc : st.Completes a
    · refine ⟨a, ha, ?_⟩
      rw [if_pos hc, length_update_hist, if_pos rfl, st.length_hist ha, hc.pending_eq]
      rfl
    · rw [if_neg hc]
      simp only [Completes, not_forall, ne_eq, not_not] at hc
      obtain ⟨b, hb, hba, hnil⟩ := hc
      refine ⟨b, hb, ?_⟩
      rw [length_update_hist, if_neg hba, st.length_hist hb, hnil]
      rfl
  le_bound := by
    intro b hb
    rw [length_update_hist, st.length_hist hb]
    have hle := st.length_pending_le hb
    split <;> split
    · rename_i hba _; subst hba; omega
    · rename_i hba _; subst hba; omega
    · omega
    · omega

variable {st : Rounds ids bound U} {a : α} {u : U} {ha : a ∈ ids}
  {hroom : (st.pending a).length < bound}

theorem push_hist : (st.push a u ha hroom).hist = Function.update st.hist a (st.hist a ++ [u]) :=
  rfl

theorem push_bottom : (st.push a u ha hroom).bottom
    = if st.Completes a then st.bottom + 1 else st.bottom := rfl

theorem drop_update_hist (st : Rounds ids bound U) {a b : α} (hb : b ∈ ids) (u : U) :
    (Function.update st.hist a (st.hist a ++ [u]) b).drop st.bottom = st.stored a u b := by
  by_cases hba : b = a
  · subst hba
    rw [stored, Function.update_self, Function.update_self,
      List.drop_append_of_le_length (st.bottom_le b hb), pending]
  · rw [stored, Function.update_of_ne hba, Function.update_of_ne hba, pending]

theorem pending_push_of_not_completes (hc : ¬ st.Completes a) {b : α} (hb : b ∈ ids) :
    (st.push a u ha hroom).pending b = st.stored a u b := by
  rw [pending, push_hist, push_bottom, if_neg hc, drop_update_hist st hb]

theorem pending_push_of_completes (hc : st.Completes a) {b : α} (hb : b ∈ ids) :
    (st.push a u ha hroom).pending b = (st.stored a u b).tail := by
  rw [pending, push_hist, push_bottom, if_pos hc, ← drop_update_hist st hb, List.tail_drop]

/-- In a complete round everyone has an update to take. -/
theorem stored_ne_nil (hc : st.Completes a) {b : α} (hb : b ∈ ids) : st.stored a u b ≠ [] := by
  by_cases hba : b = a
  · subst hba
    rw [stored, Function.update_self]
    simp
  · rw [stored, Function.update_of_ne hba]
    exact hc b hb hba

theorem length_stored (st : Rounds ids bound U) (a b : α) (u : U) :
    (st.stored a u b).length = (st.pending b).length + if b = a then 1 else 0 := by
  by_cases hba : b = a
  · subst hba
    simp [stored]
  · simp [stored, hba]

/-- Counting what exceeds `j`, when only the value at `a` goes up, and by one. -/
theorem countP_lt_update {f g : α → ℕ} {a : α} (hg : ∀ b, g b = f b + if b = a then 1 else 0)
    (j : ℕ) {l : List α} (hl : l.Nodup) :
    (l.countP fun b ↦ decide (j < g b))
      = (l.countP fun b ↦ decide (j < f b)) + if a ∈ l ∧ j = f a then 1 else 0 := by
  induction l with
  | nil => simp
  | cons b l ih =>
    obtain ⟨hbl, hl'⟩ := List.nodup_cons.mp hl
    rw [List.countP_cons, List.countP_cons, ih hl', hg]
    by_cases hba : b = a
    · subst hba
      simp only [hbl, List.mem_cons_self, true_and, false_and, if_true, if_false,
        decide_eq_true_eq]
      by_cases hj : j = f b
      · subst hj; simp
      · have hiff : j < f b + 1 ↔ j < f b := by omega
        simp [hj, hiff]
    · have hab : a ≠ b := fun h ↦ hba h.symm
      simp only [List.mem_cons, hab, hba, false_or, if_false, Nat.add_zero]
      omega

/-- The counters after an update is stored: the one at the old length of `a`'s queue goes up. -/
theorem countP_stored (hnd : ids.Nodup) (ha : a ∈ ids) (u : U) (j : ℕ) :
    (ids.countP fun b ↦ decide (j < (st.stored a u b).length))
      = st.count j + if j = (st.pending a).length then 1 else 0 := by
  rw [countP_lt_update (fun b ↦ length_stored st a b u) j hnd, count]
  simp only [ha, true_and]

/-- A round is complete exactly when everyone is counted by the first counter. -/
theorem completes_iff (u : U) :
    st.Completes a ↔ (ids.countP fun b ↦ decide (0 < (st.stored a u b).length)) = ids.length := by
  rw [List.countP_eq_length]
  constructor
  · intro hc b hb
    simpa using List.length_pos_of_ne_nil (stored_ne_nil hc hb)
  · intro h b hb hba hnil
    have hpos := h b hb
    rw [length_stored, if_neg hba, hnil] at hpos
    simp at hpos

theorem count_push_of_not_completes (hc : ¬ st.Completes a) (j : ℕ) :
    (st.push a u ha hroom).count j
      = ids.countP fun b ↦ decide (j < (st.stored a u b).length) := by
  rw [count]
  refine List.countP_congr fun b hb ↦ ?_
  rw [pending_push_of_not_completes hc hb]

/-- Consuming a round shifts the counters down by one. -/
theorem count_push_of_completes (hc : st.Completes a) (j : ℕ) :
    (st.push a u ha hroom).count j
      = ids.countP fun b ↦ decide (j + 1 < (st.stored a u b).length) := by
  rw [count]
  refine List.countP_congr fun b hb ↦ ?_
  rw [pending_push_of_completes hc hb, List.length_tail]
  simp only [decide_eq_true_eq]
  omega

/-- An update of `a` takes nobody else further ahead. -/
theorem length_pending_push_le {b : α} (hb : b ∈ ids) (hba : b ≠ a) :
    ((st.push a u ha hroom).pending b).length ≤ (st.pending b).length := by
  by_cases hc : st.Completes a
  · rw [pending_push_of_completes hc hb, List.length_tail, length_stored, if_neg hba]
    omega
  · rw [pending_push_of_not_completes hc hb, length_stored, if_neg hba]
    omega

/-- Right after a round is consumed everyone has room. -/
theorem length_pending_push_lt (hc : st.Completes a) {b : α} (hb : b ∈ ids) :
    ((st.push a u ha hroom).pending b).length < bound := by
  have hle := st.length_pending_le hb
  rw [pending_push_of_completes hc hb, List.length_tail, length_stored]
  by_cases hba : b = a
  · subst hba
    rw [if_pos rfl]
    omega
  · rw [if_neg hba]
    have hpos := List.length_pos_of_ne_nil (hc b hb hba)
    omega

/-- The counters, kept as a deque: storing an update raises the one at the old length of the
queue. -/
theorem map_count_set (hnd : ids.Nodup) (ha : a ∈ ids) (hroom : (st.pending a).length < bound)
    (u : U) :
    ((List.range bound).map fun j ↦ (st.count j : Int)).set (st.pending a).length
        (st.count (st.pending a).length + 1)
      = (List.range bound).map fun j ↦
          ((ids.countP fun b ↦ decide (j < (st.stored a u b).length) : ℕ) : Int) := by
  refine (Lists.map_range_set _ hroom _).trans (List.map_congr_left fun j _ ↦ ?_)
  rw [countP_stored hnd ha]
  by_cases hj : j = (st.pending a).length
  · subst hj
    simp
  · simp [hj]

/-- And consuming a round shifts it.  Nobody is a full bound ahead after that, so that the counter
which comes in at the back is right. -/
theorem map_count_shift (hc : st.Completes a) (hpos : 0 < bound) :
    ((List.range bound).map fun j ↦
        ((ids.countP fun b ↦ decide (j < (st.stored a u b).length) : ℕ) : Int)).tail ++ [0]
      = (List.range bound).map fun j ↦ ((st.push a u ha hroom).count j : Int) := by
  have hlast : (st.push a u ha hroom).count (bound - 1) = 0 := by
    rw [count, List.countP_eq_zero]
    intro b hb
    have hlt : ((st.push a u ha hroom).pending b).length < bound := length_pending_push_lt hc hb
    simp only [decide_eq_true_eq]
    omega
  have h := Lists.tail_append_map_range
    (fun j ↦ ((ids.countP fun b ↦ decide (j < (st.stored a u b).length) : ℕ) : Int))
    (fun j ↦ ((st.push a u ha hroom).count j : Int)) hpos
    fun j _ ↦ congrArg Nat.cast (count_push_of_completes hc j)
  rwa [hlast] at h

theorem getElem?_update_hist (st : Rounds ids bound U) {a b : α} (hb : b ∈ ids) (u : U) {r : ℕ}
    (hr : r < st.bottom) :
    (st.hist b)[r]? = (Function.update st.hist a (st.hist a ++ [u]) b)[r]? := by
  by_cases hba : b = a
  · subst hba
    have hle := st.bottom_le b hb
    rw [Function.update_self, List.getElem?_append_left (by omega)]
  · rw [Function.update_of_ne hba]

theorem total_push_of_not_completes {P : Type w} (hc : ¬ st.Completes a)
    (merge : P → List U → P) (init : P) :
    (st.push a u ha hroom).total merge init = st.total merge init := by
  rw [total, total, push_bottom, if_neg hc, push_hist]
  exact (fold_congr fun b hb r hr ↦ st.getElem?_update_hist hb u hr).symm

/-- The round that is consumed is merged in the order of `ids`, not in the order of arrival. -/
theorem total_push_of_completes {P : Type w} (hc : st.Completes a)
    (merge : P → List U → P) (init : P) :
    (st.push a u ha hroom).total merge init
      = merge (st.total merge init) (ids.filterMap fun b ↦ (st.stored a u b).head?) := by
  have hround : round ids (Function.update st.hist a (st.hist a ++ [u])) st.bottom
      = ids.filterMap fun b ↦ (st.stored a u b).head? := by
    refine List.filterMap_congr fun b hb ↦ ?_
    rw [← drop_update_hist st hb, List.head?_drop]
  rw [total, total, push_bottom, if_pos hc, push_hist, fold, hround]
  congr 1
  exact (fold_congr fun b hb r hr ↦ st.getElem?_update_hist hb u hr).symm

end Push

end Rounds
