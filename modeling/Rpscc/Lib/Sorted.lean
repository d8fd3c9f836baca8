import Mathlib.Algebra.Order.Ring.Int
import Mathlib.Data.List.Sort
import Mathlib.Data.List.TakeWhile
import Mathlib.Tactic.Common

/-!
# Searching and cutting sorted lists

`lowerBound` and `upperBound` are the two searches of the C++ library, on a list that is sorted:
the position of the first element that is not below, or that is above, a given one.  On a sorted
list a position found by a search is a count (`lowerBound_eq_countP`, `upperBound_eq_countP`), and
counts are easier to compare than searches.

The rest is about cutting a list at such positions.  All of it rests on one fact: when a predicate
holds of everything before a member it holds of, the list is its members that satisfy it followed
by those that do not (`take_countP`, `drop_countP`).  So the part of a list between the count of
`f < s` and the count of `f < s + 1` is the part on which `f` is `s` (`slice_countP`).
-/

set_option autoImplicit false

universe u v

namespace Sorted

variable {α : Type u} {β : Type v}

/-! ## A predicate that stops holding -/

section Predicate

variable {P : α → Bool} {l : List α}

/-- Once `P` fails it fails to the end of the list. -/
def Initial (P : α → Bool) (l : List α) : Prop := l.Pairwise fun a b ↦ P b → P a

theorem Initial.not_of_head {a : α} (h : Initial P (a :: l)) (ha : ¬ P a) :
    ∀ b ∈ a :: l, ¬ P b := by
  intro b hb hpb
  rcases List.mem_cons.1 hb with rfl | hb
  · exact ha hpb
  · exact ha ((List.pairwise_cons.1 h).1 b hb hpb)

theorem Initial.takeWhile_eq (h : Initial P l) : l.takeWhile P = l.filter P := by
  induction l with
  | nil => rfl
  | cons a l ih =>
    by_cases ha : P a
    · rw [List.takeWhile_cons_of_pos ha, List.filter_cons_of_pos ha, ih (List.pairwise_cons.1 h).2]
    · rw [List.takeWhile_cons_of_neg ha, List.filter_eq_nil_iff.2 (h.not_of_head ha)]

theorem Initial.take_countP (h : Initial P l) : l.take (l.countP P) = l.filter P := by
  induction l with
  | nil => rfl
  | cons a l ih =>
    by_cases ha : P a
    · rw [List.countP_cons_of_pos ha, List.take_succ_cons, List.filter_cons_of_pos ha,
        ih (List.pairwise_cons.1 h).2]
    · rw [List.countP_eq_zero.2 (h.not_of_head ha), List.filter_eq_nil_iff.2 (h.not_of_head ha),
        List.take_zero]

theorem Initial.drop_countP (h : Initial P l) :
    l.drop (l.countP P) = l.filter fun a ↦ !P a := by
  induction l with
  | nil => rfl
  | cons a l ih =>
    by_cases ha : P a
    · rw [List.countP_cons_of_pos ha, List.drop_succ_cons, List.filter_cons_of_neg (by simp [ha]),
        ih (List.pairwise_cons.1 h).2]
    · rw [List.countP_eq_zero.2 (h.not_of_head ha), List.drop_zero, List.filter_eq_self.2]
      intro b hb
      simpa using h.not_of_head ha b hb

end Predicate

/-- In a list without repetitions, what only one element satisfies filters out that one. -/
theorem filter_eq_singleton {P : α → Bool} {l : List α} (h : l.Nodup) {a : α} (ha : a ∈ l)
    (hpa : P a) (hunique : ∀ b ∈ l, P b → b = a) : l.filter P = [a] := by
  refine List.perm_singleton.1 ?_
  refine (List.perm_ext_iff_of_nodup (h.filter P) (List.nodup_singleton a)).2 fun b ↦ ?_
  rw [List.mem_filter, List.mem_singleton]
  constructor
  · exact fun hb ↦ hunique b hb.1 hb.2
  · rintro rfl
    exact ⟨ha, hpa⟩

/-- Counting one is finding exactly one. -/
theorem countP_eq_one_iff {P : α → Bool} {l : List α} (h : l.Nodup) :
    l.countP P = 1 ↔ ∃ a ∈ l, P a ∧ ∀ b ∈ l, P b → b = a := by
  rw [List.countP_eq_length_filter, List.length_eq_one_iff]
  constructor
  · rintro ⟨a, ha⟩
    have hmem : ∀ b, b ∈ l.filter P ↔ b = a := fun b ↦ by rw [ha, List.mem_singleton]
    simp only [List.mem_filter] at hmem
    exact ⟨a, ((hmem a).2 rfl).1, ((hmem a).2 rfl).2, fun b hb hpb ↦ (hmem b).1 ⟨hb, hpb⟩⟩
  · rintro ⟨a, ha, hpa, hunique⟩
    exact ⟨a, filter_eq_singleton h ha hpa hunique⟩

/-! ## The searches -/

section Search

variable [LinearOrder α] {l : List α}

/-- `std::lower_bound`: the position of the first element that is not less than `x`. -/
def lowerBound (l : List α) (x : α) : ℕ := (l.takeWhile fun a ↦ decide (a < x)).length

/-- `std::upper_bound`: the position of the first element that is greater than `x`. -/
def upperBound (l : List α) (x : α) : ℕ := (l.takeWhile fun a ↦ decide (a ≤ x)).length

theorem lowerBound_eq_countP (h : l.Pairwise (· ≤ ·)) (x : α) :
    lowerBound l x = l.countP fun a ↦ decide (a < x) := by
  have hi : Initial (fun a ↦ decide (a < x)) l :=
    h.imp fun hab hb ↦ decide_eq_true (lt_of_le_of_lt hab (of_decide_eq_true hb))
  rw [lowerBound, hi.takeWhile_eq, List.countP_eq_length_filter]

theorem lowerBound_cons_pos {a x : α} (h : a < x) : 0 < lowerBound (a :: l) x := by
  simp [lowerBound, h]

/-- What stands before the position found is less. -/
theorem lt_of_mem_take_lowerBound {a x : α} (h : a ∈ l.take (lowerBound l x)) : a < x := by
  rw [lowerBound, ← List.prefix_iff_eq_take.1 (List.takeWhile_prefix _)] at h
  exact of_decide_eq_true (List.mem_takeWhile_imp (p := fun a ↦ decide (a < x)) h)

theorem lowerBound_le (l : List α) (x : α) : lowerBound l x ≤ l.length :=
  (List.takeWhile_sublist _).length_le

theorem upperBound_eq_countP (h : l.Pairwise (· ≤ ·)) (x : α) :
    upperBound l x = l.countP fun a ↦ decide (a ≤ x) := by
  have hi : Initial (fun a ↦ decide (a ≤ x)) l :=
    h.imp fun hab hb ↦ decide_eq_true (le_trans hab (of_decide_eq_true hb))
  rw [upperBound, hi.takeWhile_eq, List.countP_eq_length_filter]

/-- In a sorted list, fewer than `i + 1` elements are at most `x` exactly when the one at `i` is
above `x`. -/
theorem countP_le_iff (h : l.Pairwise (· ≤ ·)) (x : α) {i : ℕ} (hi : i < l.length) :
    (l.countP fun a ↦ decide (a ≤ x)) ≤ i ↔ x < l[i] := by
  have hinit : Initial (fun a ↦ decide (a ≤ x)) l :=
    h.imp fun hab hb ↦ decide_eq_true (le_trans hab (of_decide_eq_true hb))
  constructor
  · intro hle
    have hmem : l[i] ∈ l.drop (l.countP fun a ↦ decide (a ≤ x)) :=
      List.mem_drop_iff_getElem.2 ⟨i - l.countP fun a ↦ decide (a ≤ x), by omega,
        by simp only [Nat.add_sub_cancel' hle]⟩
    rw [hinit.drop_countP, List.mem_filter] at hmem
    simpa using hmem.2
  · intro hlt
    by_contra hgt
    have hmem : l[i] ∈ l.take (l.countP fun a ↦ decide (a ≤ x)) :=
      List.mem_take_iff_getElem.2 ⟨i, by omega, rfl⟩
    rw [hinit.take_countP, List.mem_filter] at hmem
    exact absurd (of_decide_eq_true hmem.2) (not_le.2 hlt)

/-- A list can be sorted by distinct keys in one way only. -/
theorem insertionSort_eq_of_perm {f : β → α} {l l' : List β} (h : l.Perm l')
    (hs : l'.Pairwise fun a b ↦ f a < f b) : (l.insertionSort fun a b ↦ f a ≤ f b) = l' := by
  have : Std.Total fun a b : β ↦ f a ≤ f b := ⟨fun a b ↦ le_total (f a) (f b)⟩
  have : IsTrans β fun a b ↦ f a ≤ f b := ⟨fun _ _ _ ↦ le_trans⟩
  have hnd : (l'.map f).Nodup := (List.pairwise_map.2 hs).imp ne_of_lt
  refine List.Perm.eq_of_pairwise ?_ (List.pairwise_insertionSort _ _) (hs.imp le_of_lt)
    ((List.perm_insertionSort _ _).trans h)
  intro a b ha hb hab hba
  exact List.inj_on_of_nodup_map hnd (h.subset ((List.mem_insertionSort _).1 ha)) hb
    (le_antisymm hab hba)

end Search

/-! ## Cutting -/

/-- The elements from position `start` up to, and not including, position `stop`. -/
def slice (l : List α) (start stop : ℕ) : List α := (l.drop start).take (stop - start)

@[simp, grind =] theorem length_slice (l : List α) (start stop : ℕ) :
    (slice l start stop).length = min (stop - start) (l.length - start) := by
  rw [slice, List.length_take, List.length_drop]

@[simp] theorem slice_map (f : α → β) (l : List α) (start stop : ℕ) :
    slice (l.map f) start stop = (slice l start stop).map f := by
  rw [slice, slice, List.map_take, List.map_drop]

/-- A slice of the beginning of a list is a slice of the list. -/
theorem slice_take (l : List α) {start stop n : ℕ} (h : stop ≤ n) :
    slice (l.take n) start stop = slice l start stop := by
  rw [slice, slice, List.drop_take, List.take_take, Nat.min_eq_left (by omega)]

section Cut

variable {f : α → ℕ} {l : List α}

theorem initial_lt (h : l.Pairwise fun a b ↦ f a ≤ f b) (s : ℕ) :
    Initial (fun a ↦ decide (f a < s)) l :=
  h.imp fun hab hb ↦ decide_eq_true (lt_of_le_of_lt hab (of_decide_eq_true hb))

/-- What `f < s + 1` counts: what `f < s` counts, and then the rest. -/
theorem countP_lt_succ (f : α → ℕ) (l : List α) (s : ℕ) :
    (l.countP fun a ↦ decide (f a < s + 1))
      = (l.countP fun a ↦ decide (f a < s))
        + (l.filter fun a ↦ !decide (f a < s)).countP fun a ↦ decide (f a < s + 1) := by
  have hsplit := List.countP_eq_countP_filter_add l (fun a ↦ decide (f a < s + 1))
    fun a ↦ decide (f a < s)
  have hfirst : (l.filter fun a ↦ decide (f a < s)).countP (fun a ↦ decide (f a < s + 1))
      = l.countP fun a ↦ decide (f a < s) := by
    rw [List.countP_filter]
    refine List.countP_congr fun a _ ↦ ?_
    simp only [Bool.and_eq_true, decide_eq_true_eq]
    omega
  rw [hsplit, hfirst]

theorem countP_lt_countP_succ {s : ℕ} (hex : ∃ a ∈ l, f a = s) :
    (l.countP fun a ↦ decide (f a < s)) < l.countP fun a ↦ decide (f a < s + 1) := by
  obtain ⟨a, ha, has⟩ := hex
  have hpos : 0 < (l.filter fun a ↦ !decide (f a < s)).countP fun a ↦ decide (f a < s + 1) :=
    List.countP_pos_iff.2 ⟨a, List.mem_filter.2 ⟨ha, by simp [has]⟩, by simp [has]⟩
  rw [countP_lt_succ]
  omega

/-- Cutting a list sorted by `f` where `f` passes `s`, and where it passes `s + 1`, leaves the
elements at which `f` is `s`. -/
theorem slice_countP (h : l.Pairwise fun a b ↦ f a ≤ f b) (s : ℕ) :
    slice l (l.countP fun a ↦ decide (f a < s)) (l.countP fun a ↦ decide (f a < s + 1))
      = l.filter fun a ↦ decide (f a = s) := by
  have hrest : (l.filter fun a ↦ !decide (f a < s)).Pairwise fun a b ↦ f a ≤ f b :=
    h.sublist List.filter_sublist
  rw [slice, (initial_lt h s).drop_countP, countP_lt_succ, Nat.add_sub_cancel_left,
    (initial_lt hrest (s + 1)).take_countP, List.filter_filter]
  refine List.filter_congr fun a _ ↦ ?_
  rw [Bool.eq_iff_iff]
  simp only [Bool.and_eq_true, Bool.not_eq_true', decide_eq_true_eq, decide_eq_false_iff_not]
  omega

/-- In a list sorted by `f`, the first element at which `f` is `s` stands behind those at which it
is less. -/
theorem drop_countP_eq_cons (h : l.Pairwise fun a b ↦ f a ≤ f b) {s : ℕ}
    (hex : ∃ a ∈ l, f a = s) :
    ∃ x rest, l.drop (l.countP fun a ↦ decide (f a < s)) = x :: rest ∧ f x = s := by
  obtain ⟨a, ha, has⟩ := hex
  have hdrop := (initial_lt h s).drop_countP
  have hmem : a ∈ l.filter fun a ↦ !decide (f a < s) :=
    List.mem_filter.2 ⟨ha, by simp [has]⟩
  obtain ⟨x, rest, hrest⟩ := List.exists_cons_of_ne_nil (List.ne_nil_of_mem hmem)
  have hsorted : (x :: rest).Pairwise fun a b ↦ f a ≤ f b :=
    hrest ▸ h.sublist List.filter_sublist
  have hx : x ∈ l.filter fun a ↦ !decide (f a < s) := hrest ▸ List.mem_cons_self
  refine ⟨x, rest, hdrop.trans hrest, le_antisymm ?_ (by simpa using (List.mem_filter.1 hx).2)⟩
  rw [hrest] at hmem
  rcases List.mem_cons.1 hmem with rfl | hmem
  · exact has.le
  · exact has ▸ (List.pairwise_cons.1 hsorted).1 a hmem

end Cut

end Sorted
