import Mathlib.Data.List.Rotate
import Rpscc.Lib.Sorted

/-!
# The arcs of a circle

Points on a circle, listed in order, cut it into arcs.  A place on the circle belongs to the last
point at or before it, and if there is none, to the last point of all, going round.  With `P` for
"at or before the place", which the points satisfy up to some place in the list and not after it,
`Arcs.turn P` turns the list until the owner stands at its end, and `Arcs.owner P` is what stands
there.

Turning commutes with taking points out (`turn_filter`), so when points are taken out the new owner
is the last that is left of the turned list: `nearestBefore_of_owner` says that it is found by going
back from the old owner.
-/

set_option autoImplicit false

universe u

namespace Arcs

open Sorted (Initial)

variable {α : Type u} {P : α → Bool} {l : List α}

/-- The list, turned so that the points up to a place come last. -/
def turn (P : α → Bool) (l : List α) : List α := l.rotate (l.countP P)

theorem turn_eq (h : Initial P l) : turn P l = (l.filter fun a ↦ !P a) ++ l.filter P := by
  rw [turn, List.rotate_eq_drop_append_take List.countP_le_length, h.drop_countP, h.take_countP]

theorem turn_filter (h : Initial P l) (Q : α → Bool) :
    turn P (l.filter Q) = (turn P l).filter Q := by
  rw [turn_eq h, turn_eq (h.sublist List.filter_sublist), List.filter_append]
  simp only [List.filter_filter, Bool.and_comm]

/-- The point a place belongs to. -/
def owner (P : α → Bool) (l : List α) : Option α := (turn P l).getLast?

/-- The place of the owner in the list. -/
def place (P : α → Bool) (l : List α) : ℕ := (l.countP P + (l.length - 1)) % l.length

/-- What stands `k` places before the end of the turned list. -/
theorem getElem?_reverse_turn (P : α → Bool) {k : ℕ} (hk : k < l.length) :
    (turn P l).reverse[k]? = l[(place P l + l.length - k) % l.length]? := by
  rw [turn, List.getElem?_reverse (by rw [List.length_rotate]; exact hk), List.length_rotate,
    List.getElem?_rotate (by omega), place, Nat.add_sub_assoc hk.le, Nat.mod_add_mod,
    show l.countP P + (l.length - 1) + (l.length - k)
      = l.length - 1 - k + l.countP P + l.length by omega, Nat.add_mod_right]

theorem owner_eq_getElem? (P : α → Bool) (h : l ≠ []) : owner P l = l[place P l]? := by
  have hpos : 0 < l.length := List.length_pos_iff.2 h
  have hlt : place P l < l.length := Nat.mod_lt _ hpos
  rw [owner, ← List.head?_reverse, List.head?_eq_getElem?, getElem?_reverse_turn P hpos,
    Nat.sub_zero, Nat.add_mod_right, Nat.mod_eq_of_lt hlt]

/-- Going back from place `i` of the list, itself included, and round its end, `a` is the first
element with `Q`. -/
def NearestBefore (l : List α) (Q : α → Prop) (i : ℕ) (a : α) : Prop :=
  ∃ k < l.length, l[(i + l.length - k) % l.length]? = some a ∧ Q a ∧
    ∀ j < k, ∀ b, l[(i + l.length - j) % l.length]? = some b → ¬ Q b

/-- **When points are taken out** a place goes to the nearest point before its owner that is
left. -/
theorem nearestBefore_of_owner (h : Initial P l) {Q : α → Bool} {a : α}
    (ha : owner P (l.filter Q) = some a) : NearestBefore l (fun b ↦ Q b = true) (place P l) a := by
  rw [owner, turn_filter h, List.getLast?_filter, List.find?_eq_some_iff_getElem] at ha
  obtain ⟨hQ, k, hk, hget, hbefore⟩ := ha
  have hk' : k < l.length := by
    rw [List.length_reverse, turn, List.length_rotate] at hk
    exact hk
  refine ⟨k, hk', ?_, hQ, fun j hj b hb hQb ↦ ?_⟩
  · rw [← getElem?_reverse_turn P hk', List.getElem?_eq_getElem hk, hget]
  · have hne := hbefore j hj
    rw [← getElem?_reverse_turn P (by omega), List.getElem?_eq_getElem (by omega)] at hb
    rw [Option.some.inj hb, hQb] at hne
    simp at hne

theorem NearestBefore.map {β : Type u} {f : α → β} {Q : β → Prop} {i : ℕ} {a : α}
    (h : NearestBefore l (fun b ↦ Q (f b)) i a) : NearestBefore (l.map f) Q i (f a) := by
  obtain ⟨k, hk, hget, hQ, hbefore⟩ := h
  simp only [NearestBefore, List.length_map, List.getElem?_map]
  refine ⟨k, hk, by rw [hget]; rfl, hQ, fun j hj b hb ↦ ?_⟩
  obtain ⟨c, hc, rfl⟩ := Option.map_eq_some_iff.1 hb
  exact hbefore j hj c hc

/-- An owner that is left stays the owner. -/
theorem NearestBefore.eq_of_left {Q : α → Prop} {i : ℕ} {a b : α} (h : NearestBefore l Q i a)
    (hi : i < l.length) (hb : l[i]? = some b) (hQ : Q b) : a = b := by
  obtain ⟨k, hk, hget, -, hbefore⟩ := h
  have hback : (i + l.length - 0) % l.length = i := by
    rw [Nat.sub_zero, Nat.add_mod_right, Nat.mod_eq_of_lt hi]
  rcases Nat.eq_zero_or_pos k with rfl | hpos
  · rw [hback, hb] at hget
    exact (Option.some.inj hget).symm
  · exact absurd hQ (hbefore 0 hpos b (by rw [hback, hb]))

end Arcs
