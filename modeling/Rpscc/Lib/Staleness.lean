import Mathlib.Data.List.Basic

/-!
# Iterating on values that may be out of date

Participants `ids` improve the values of some coordinates `keys` together, round by round.  In
round `r` each of them contributes to every coordinate something it computes from what it has seen
of all the coordinates, and the contributions are merged into the values.

* `Staleness.sync` is the iteration as it is meant: in round `r` everyone sees the values after `r`
  rounds.
* `Staleness.Bounded` is what a machine does that lets its participants run ahead: in round `r` a
  participant has seen each coordinate as it was after some number of rounds, at most `r` and more
  than `r - bound`.  The coordinates need not have got equally far; `horizon k` says how far
  coordinate `k` is.  Nor need they be seen in the same order every time.
* `Bounded.eq_sync`: with the bound `1`, and participants that do not mind the order, the two are
  the same.  A machine with that bound is a synchronous one, whatever the order in which its parts
  take their steps.
-/

set_option autoImplicit false

universe u v w x

namespace Staleness

variable {α : Type u} {κ : Type v} {V : Type w} {U : Type x}

/-- The values after a number of rounds in which everyone sees what there is. -/
def sync (ids : List α) (keys : List κ) (merge : V → List U → V)
    (contrib : α → ℕ → List (κ × V) → κ → U) (init : κ → V) : ℕ → κ → V
  | 0, k => init k
  | r + 1, k =>
    merge (sync ids keys merge contrib init r k) (ids.map fun a ↦
      contrib a r (keys.map fun l ↦ (l, sync ids keys merge contrib init r l)) k)

/-- `val r k` is the value of coordinate `k` after `r` rounds, as long as there have been so many,
and `seen r a k` the number of rounds after which participant `a` has seen that coordinate for what
it contributes to round `r`.  It has seen the coordinates in the order `order r a`. -/
structure Bounded (ids : List α) (keys : List κ) (bound : ℕ) (merge : V → List U → V)
    (contrib : α → ℕ → List (κ × V) → κ → U) (init : κ → V) (horizon : κ → ℕ)
    (order : ℕ → α → List κ) (seen : ℕ → α → κ → ℕ) (val : ℕ → κ → V) : Prop where
  zero : ∀ k ∈ keys, val 0 k = init k
  succ : ∀ k ∈ keys, ∀ r < horizon k, val (r + 1) k = merge (val r k)
    (ids.map fun a ↦ contrib a r ((order r a).map fun l ↦ (l, val (seen r a l) l)) k)
  order_perm : ∀ k ∈ keys, ∀ r < horizon k, ∀ a ∈ ids, (order r a).Perm keys
  seen_le : ∀ k ∈ keys, ∀ r < horizon k, ∀ a ∈ ids, ∀ l ∈ keys, seen r a l ≤ r
  lt_seen : ∀ k ∈ keys, ∀ r < horizon k, ∀ a ∈ ids, ∀ l ∈ keys, r < seen r a l + bound
  seen_le_horizon : ∀ k ∈ keys, ∀ r < horizon k, ∀ a ∈ ids, ∀ l ∈ keys, seen r a l ≤ horizon l

variable {ids : List α} {keys : List κ} {merge : V → List U → V}
  {contrib : α → ℕ → List (κ × V) → κ → U} {init : κ → V} {horizon : κ → ℕ}
  {order : ℕ → α → List κ} {seen : ℕ → α → κ → ℕ} {val : ℕ → κ → V}

/-- **With the bound `1` nothing is out of date.** -/
theorem Bounded.eq_sync
    (h : Bounded ids keys 1 merge contrib init horizon order seen val)
    (hfree : ∀ k ∈ keys, ∀ r < horizon k, ∀ a ∈ ids, ∀ f : κ → V,
      contrib a r ((order r a).map fun l ↦ (l, f l)) k
        = contrib a r (keys.map fun l ↦ (l, f l)) k)
    {r : ℕ} : ∀ k ∈ keys, r ≤ horizon k → val r k = sync ids keys merge contrib init r k := by
  induction r with
  | zero => exact fun k hk _ ↦ h.zero k hk
  | succ r ih =>
    intro k hk hr
    have hview : ∀ a ∈ ids, ((order r a).map fun l ↦ (l, val (seen r a l) l))
        = (order r a).map fun l ↦ (l, sync ids keys merge contrib init r l) := by
      intro a ha
      refine List.map_congr_left fun l hl ↦ ?_
      have hl := (h.order_perm k hk r hr a ha).mem_iff.1 hl
      have hle := h.seen_le k hk r hr a ha l hl
      have hlt := h.lt_seen k hk r hr a ha l hl
      have hfar := h.seen_le_horizon k hk r hr a ha l hl
      obtain hseen : seen r a l = r := by omega
      rw [hseen] at hfar ⊢
      rw [ih l hl hfar]
    rw [h.succ k hk r hr, sync, ih k hk (Nat.le_of_lt hr)]
    refine congrArg _ (List.map_congr_left fun a ha ↦ ?_)
    rw [hview a ha]
    exact hfree k hk r hr a ha _

end Staleness
