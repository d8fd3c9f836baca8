import Mathlib.Algebra.BigOperators.Group.List.Basic
import Mathlib.Algebra.Order.Ring.Nat
import Mathlib.Data.List.Nodup

/-!
# Accounts of work

A machine with several actors has every one of its steps entered into the account of one of them:
the step adds one to the work the actor has begun, or takes one off what it has begun and not
finished.  Then the accounts of all the actors together say how many steps a run has taken
(`Ledger.run_total`), so that a bound on the work that can be begun is a bound on the length of the
run.
-/

set_option autoImplicit false

universe u v

namespace Ledger

variable {α : Type u} {ids : List α}

/-- Two sums grow alike when their terms do. -/
theorem sum_map_congr {f f' g g' : α → ℕ} (h : ∀ b ∈ ids, f' b + g b = f b + g' b) :
    (ids.map f').sum + (ids.map g).sum = (ids.map f).sum + (ids.map g').sum := by
  induction ids with
  | nil => rfl
  | cons b ids ih =>
    have hb := h b (List.mem_cons_self ..)
    have hrest := ih fun c hc ↦ h c (List.mem_cons_of_mem _ hc)
    simp only [List.map_cons, List.sum_cons]
    omega

/-- One sum grows by more than the other when one of its terms does. -/
theorem sum_map_step (hnd : ids.Nodup) {f f' g g' : α → ℕ} {a : α} (ha : a ∈ ids) {d : ℕ}
    (hself : f' a + g a = f a + g' a + d)
    (hother : ∀ b ∈ ids, b ≠ a → f' b + g b = f b + g' b) :
    (ids.map f').sum + (ids.map g).sum = (ids.map f).sum + (ids.map g').sum + d := by
  induction ids with
  | nil => exact absurd ha List.not_mem_nil
  | cons b ids ih =>
    obtain ⟨hb, hnd⟩ := List.nodup_cons.1 hnd
    simp only [List.map_cons, List.sum_cons]
    rcases List.mem_cons.1 ha with rfl | ha
    · have hrest := sum_map_congr fun c hc ↦
        hother c (List.mem_cons_of_mem _ hc) fun heq ↦ hb (heq ▸ hc)
      omega
    · have hhead := hother b (List.mem_cons_self ..) fun heq ↦ hb (heq ▸ ha)
      have hrest := ih hnd ha fun c hc ↦ hother c (List.mem_cons_of_mem _ hc)
      omega

/-- The step from `s` to `s'` is entered into the account of one actor. -/
def Enters {S : Type v} (ids : List α) (begun owed : S → α → ℕ) (s s' : S) : Prop :=
  ∃ a ∈ ids, begun s' a + owed s a = begun s a + owed s' a + 1 ∧
    ∀ b, b ≠ a → begun s' b + owed s b = begun s b + owed s' b

/-- **The accounts count the steps.** -/
theorem run_total {S : Type v} {Step : S → S → Prop} {Inv : S → Prop} {begun owed : S → α → ℕ}
    (hnd : ids.Nodup) (hkeep : ∀ s s', Inv s → Step s s' → Inv s')
    (henters : ∀ s s', Inv s → Step s s' → Enters ids begun owed s s') {run : ℕ → S}
    (hinv : Inv (run 0)) (hzero : ∀ a, owed (run 0) a = begun (run 0) a) {T : ℕ}
    (hstep : ∀ t < T, Step (run t) (run (t + 1))) :
    Inv (run T) ∧ T + (ids.map (owed (run T))).sum = (ids.map (begun (run T))).sum := by
  induction T with
  | zero =>
    refine ⟨hinv, ?_⟩
    rw [funext hzero, Nat.zero_add]
  | succ T ih =>
    obtain ⟨hinv', htotal⟩ := ih fun t ht ↦ hstep t (Nat.lt_succ_of_lt ht)
    have hlast := hstep T (Nat.lt_succ_self T)
    obtain ⟨a, ha, hself, hother⟩ := henters _ _ hinv' hlast
    have hsum := sum_map_step hnd ha hself fun b _ ↦ hother b
    exact ⟨hkeep _ _ hinv' hlast, by omega⟩

end Ledger
