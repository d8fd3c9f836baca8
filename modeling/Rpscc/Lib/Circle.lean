import Mathlib.Algebra.Order.Ring.Int
import Mathlib.Tactic.Common

/-!
# Arcs of a circle

The integers from `0` up to `K`, bent into a circle.  `Circle.offset K a k` is how far one has to
go from `a` up to `k`, and an arc of a given length that begins at `a` is the set of `k` with a
smaller offset.  `Circle.offset_lt_iff` tells arcs that pass `0` from those that do not.

Values that are kept around the circle can be read off along an arc: `Circle.Reads v K a xs` says
that `xs` is what one reads from `a` on.  Lists that are read off adjacent arcs can be put together
(`Reads.append`), and `Circle.splice` puts lists in front until there is as much as there should be.
What it has put in front, `Circle.shift`, is how far back the result reads from (`Reads.splice`).

When some number of the lists, put in front, makes just as much as there should be, they are what
`splice` puts in front (`splice_eq_stack`), and a key has the value that it has in the one list
whose arc contains it (`holds_stack_iff`).
-/

set_option autoImplicit false

universe u

namespace Circle

/-- How far `k` is from `a`, going up and around. -/
def offset (K a k : Int) : Int := (k - a + K) % K

variable {K a b k : Int}

theorem offset_of_le (ha : 0 ≤ a) (hk : k < K) (h : a ≤ k) : offset K a k = k - a := by
  rw [offset, Int.add_emod_right]
  exact Int.emod_eq_of_lt (by omega) (by omega)

theorem offset_of_lt (ha : a < K) (hk : 0 ≤ k) (h : k < a) : offset K a k = k - a + K :=
  Int.emod_eq_of_lt (by omega) (by omega)

theorem offset_nonneg (hK : 0 < K) : 0 ≤ offset K a k := Int.emod_nonneg _ (by omega)

theorem offset_lt (hK : 0 < K) : offset K a k < K := Int.emod_lt_of_pos _ hK

/-- The arc from `a` up to `b`, when it does not pass `0` and when it does.  The arc from `a` to
`a` is empty. -/
theorem offset_lt_iff (ha : 0 ≤ a) (haK : a < K) (hb : 0 ≤ b) (hbK : b < K) (hk : 0 ≤ k)
    (hkK : k < K) :
    offset K a k < offset K a b ↔ if a ≤ b then a ≤ k ∧ k < b else a ≤ k ∨ k < b := by
  rcases le_or_gt a b with hab | hab
  · rw [if_pos hab, offset_of_le ha hbK hab]
    rcases le_or_gt a k with hak | hak
    · rw [offset_of_le ha hkK hak]
      omega
    · rw [offset_of_lt haK hk hak]
      omega
  · rw [if_neg (not_le.2 hab), offset_of_lt haK hb hab]
    rcases le_or_gt a k with hak | hak
    · rw [offset_of_le ha hkK hak]
      omega
    · rw [offset_of_lt haK hk hak]
      omega

/-- Going as far as `b` is from `a` gets to `b`. -/
theorem add_offset (K a b : Int) : (a + offset K a b) % K = b % K := by
  rw [offset, Int.add_emod_right, Int.add_emod_emod, add_sub_cancel]

theorem offset_add {o : Int} (ho : 0 ≤ o) (hoK : o < K) : offset K a ((a + o) % K) = o := by
  rw [offset, Int.add_emod_right, Int.emod_sub_emod, add_sub_cancel_left, Int.emod_eq_of_lt ho hoK]

/-- Two arcs, one after the other, that do not go around. -/
theorem offset_add_offset {c : Int} (hK : 0 < K) (h : offset K a b + offset K b c < K) :
    offset K a c = offset K a b + offset K b c := by
  have hab : 0 ≤ offset K a b := offset_nonneg hK
  have hbc : 0 ≤ offset K b c := offset_nonneg hK
  rw [← Int.emod_eq_of_lt (add_nonneg hab hbc) h]
  simp only [offset, Int.add_emod_right, Int.add_emod_emod, Int.emod_add_emod]
  congr 1
  omega

/-- What is beyond `b` is as far from `b` as it is from `a`, less the way to `b`. -/
theorem offset_eq_sub (hK : 0 < K) (h : offset K a b ≤ offset K a k) :
    offset K b k = offset K a k - offset K a b := by
  have hab : 0 ≤ offset K a b := offset_nonneg hK
  have hak : offset K a k < K := offset_lt hK
  rw [← Int.emod_eq_of_lt (show 0 ≤ offset K a k - offset K a b by omega)
    (show offset K a k - offset K a b < K by omega)]
  simp only [offset, Int.add_emod_right, Int.emod_sub_emod, Int.sub_emod_emod]
  congr 1
  omega

/-! ## Values around the circle -/

section Values

variable {α : Type u} {v : Int → Option α} {xs ys : List α}

/-- The list holds the values that `v` has from `a` on, going up and around. -/
def Reads (v : Int → Option α) (K a : Int) (xs : List α) : Prop :=
  ∀ o : ℕ, o < xs.length → v ((a + o) % K) = xs[o]?

theorem Reads.congr (h : Reads v K a xs) (hab : a % K = b % K) : Reads v K b xs := by
  intro o ho
  rw [← h o ho, (Int.emod_add_cancel_right (o : Int)).2 hab]

theorem Reads.append (hx : Reads v K a xs) (hy : Reads v K (a + xs.length) ys) :
    Reads v K a (xs ++ ys) := by
  intro o ho
  rcases Nat.lt_or_ge o xs.length with hlt | hge
  · rw [hx o hlt, List.getElem?_append_left hlt]
  · rw [List.length_append] at ho
    have h := hy (o - xs.length) (by omega)
    rw [List.getElem?_append_right hge, ← h]
    congr 2
    omega

/-- What stands at the offset of `k` in a list that reads from `m` places further back. -/
theorem Reads.getElem?_offset {m : Int} (hK : 0 < K) (h : Reads v K (a - m) xs)
    (hlt : offset K a k < xs.length) : v ((k - m) % K) = xs[(offset K a k).toNat]? := by
  have hnonneg : 0 ≤ offset K a k := offset_nonneg hK
  rw [← h _ (by omega), Int.toNat_of_nonneg hnonneg,
    show a - m + offset K a k = a + offset K a k - m by omega]
  exact congrArg v ((Int.emod_sub_cancel_right m).2 (add_offset K a k).symm)

/-- The lists hold the values behind `a`, the first of them those right behind it. -/
def ReadsBack (v : Int → Option α) (K : Int) : Int → List (List α) → Prop
  | _, [] => True
  | a, xs :: rest => Reads v K (a - xs.length) xs ∧ ReadsBack v K (a - xs.length) rest

/-- Put lists in front, one after the other, until the length is `n`. -/
def splice (n : Int) : List (List α) → List α → List α
  | [], xs => xs
  | ys :: rest, xs => if (xs.length : Int) = n then xs else splice n rest (ys ++ xs)

theorem splice_of_length {n : Int} (rest : List (List α)) (h : (xs.length : Int) = n) :
    splice n rest xs = xs := by
  cases rest with
  | nil => rfl
  | cons ys rest => rw [splice, if_pos h]

theorem splice_concat (n : Int) (ys : List α) : ∀ (rest : List (List α)) (xs : List α),
    splice n (rest ++ [ys]) xs
      = if ((splice n rest xs).length : Int) = n then splice n rest xs else ys ++ splice n rest xs
  | [], xs => rfl
  | zs :: rest, xs => by
    rw [List.cons_append, splice, splice]
    by_cases hn : (xs.length : Int) = n
    · simp only [if_pos hn]
    · simp only [if_neg hn]
      exact splice_concat n ys rest (zs ++ xs)

/-- How much is put in front, by the lengths of the lists, when `missing` is missing. -/
def shift : List Int → Int → Int
  | [], _ => 0
  | l :: rest, missing => if missing = 0 then 0 else l + shift rest (missing - l)

theorem length_splice (n : Int) : ∀ (rest : List (List α)) (xs : List α),
    ((splice n rest xs).length : Int)
      = xs.length + shift (rest.map fun ys ↦ (ys.length : Int)) (n - xs.length)
  | [], xs => by simp [splice, shift]
  | ys :: rest, xs => by
    rw [splice, List.map_cons, shift]
    by_cases hn : (xs.length : Int) = n
    · rw [if_pos hn, if_pos (by omega), Int.add_zero]
    · rw [if_neg hn, if_neg (by omega), length_splice, List.length_append]
      push_cast
      rw [show n - ((ys.length : Int) + xs.length) = n - xs.length - ys.length by omega]
      omega

/-- **The result reads from further back**, by what has been put in front. -/
theorem Reads.splice (n : Int) : ∀ {rest : List (List α)} {a : Int} {xs : List α},
    Reads v K a xs → ReadsBack v K a rest →
      Reads v K (a - shift (rest.map fun ys ↦ (ys.length : Int)) (n - xs.length))
        (Circle.splice n rest xs)
  | [], a, xs, hx, _ => by simpa [Circle.splice, shift] using hx
  | ys :: rest, a, xs, hx, hrest => by
    rw [Circle.splice, List.map_cons, shift]
    by_cases hn : (xs.length : Int) = n
    · rw [if_pos hn, if_pos (by omega), Int.sub_zero]
      exact hx
    · have hyx : Reads v K (a - ys.length) (ys ++ xs) :=
        hrest.1.append (by rw [Int.sub_add_cancel]; exact hx)
      have h := Reads.splice n hyx hrest.2
      rw [if_neg hn, if_neg (by omega)]
      rw [List.length_append] at h
      push_cast at h
      rw [show n - ((ys.length : Int) + xs.length) = n - xs.length - ys.length by omega,
        Int.sub_sub] at h
      exact h

/-! ## Lists on adjacent arcs -/

/-- All the lists in front of `xs`, the first of them right in front of it. -/
def stack (rest : List (List α)) (xs : List α) : List α := rest.reverse.flatten ++ xs

@[simp] theorem stack_cons (ys : List α) (rest : List (List α)) (xs : List α) :
    stack (ys :: rest) xs = stack rest (ys ++ xs) := by
  simp [stack]

@[simp] theorem stack_concat (ys : List α) (rest : List (List α)) (xs : List α) :
    stack (rest ++ [ys]) xs = ys ++ stack rest xs := by
  simp [stack]

/-- The lists are put in front up to the first of them that makes the length right.  Those that
still follow up to the `k`-th are empty. -/
theorem splice_eq_stack {n : Int} : ∀ (rest : List (List α)) (xs : List α) (k : ℕ),
    ((stack (rest.take k) xs).length : Int) = n → splice n rest xs = stack (rest.take k) xs
  | [], xs, k, _ => by
    rw [List.take_nil]
    rfl
  | ys :: rest, xs, 0, h => splice_of_length _ h
  | ys :: rest, xs, k + 1, h => by
    rw [List.take_succ_cons] at h ⊢
    rw [splice]
    split
    · rename_i hn
      have hsuffix : xs <:+ stack (ys :: rest.take k) xs := List.suffix_append _ _
      exact hsuffix.eq_of_length (by omega)
    · rw [stack_cons] at h ⊢
      exact splice_eq_stack rest (ys ++ xs) k h

/-- Read from `a` on, the list has the value `x` for `k`. -/
def Holds (K a : Int) (xs : List α) (k : Int) (x : α) : Prop := xs[(offset K a k).toNat]? = some x

theorem Holds.lt {x : α} (hK : 0 < K) (h : Holds K a xs k x) : offset K a k < xs.length := by
  obtain ⟨hlt, -⟩ := List.getElem?_eq_some_iff.1 h
  have hnonneg : 0 ≤ offset K a k := offset_nonneg hK
  omega

theorem exists_holds (hK : 0 < K) (h : offset K a k < xs.length) : ∃ x, Holds K a xs k x := by
  have hnonneg : 0 ≤ offset K a k := offset_nonneg hK
  exact ⟨_, List.getElem?_eq_getElem (by omega)⟩

/-- A key has the value it has in one of two lists on adjacent arcs. -/
theorem holds_append_iff {x : α} (hK : 0 < K) (hxs : (xs.length : Int) = offset K a b)
    (hlt : ((xs ++ ys).length : Int) < K) :
    Holds K a (xs ++ ys) k x ↔ Holds K a xs k x ∨ Holds K b ys k x := by
  rw [List.length_append] at hlt
  have hak : 0 ≤ offset K a k := offset_nonneg hK
  have hbk : 0 ≤ offset K b k := offset_nonneg hK
  constructor
  · intro h
    rcases lt_or_ge (offset K a k) xs.length with hin | hout
    · rw [Holds, List.getElem?_append_left (by omega)] at h
      exact .inl h
    · have hsub : offset K b k = offset K a k - offset K a b := offset_eq_sub hK (by omega)
      rw [Holds, List.getElem?_append_right (by omega)] at h
      refine .inr ?_
      rw [Holds, ← h]
      congr 1
      omega
  · rintro (h | h)
    · have hin := h.lt hK
      rw [Holds, List.getElem?_append_left (by omega)]
      exact h
    · have hin := h.lt hK
      have hadd : offset K a k = offset K a b + offset K b k := offset_add_offset hK (by omega)
      rw [Holds, List.getElem?_append_right (by omega), ← h]
      congr 1
      omega

section

variable {c : ℕ → Int} {e : Int} {rest : List (List α)} {m : ℕ}

/-- The `t`-th list has the length of the arc from `c (t + 1)` up to `c t`. -/
def OnArcs (K : Int) (c : ℕ → Int) (rest : List (List α)) : Prop :=
  ∀ t ys, rest[t]? = some ys → (ys.length : Int) = offset K (c (t + 1)) (c t)

/-- Lists on arcs that do not go all the way around: together they are as long as the arc from the
beginning of the last of them up to `e`. -/
theorem length_stack (hK : 0 < K) (hxs : (xs.length : Int) = offset K (c 0) e)
    (hrest : OnArcs K c rest) (hm : m ≤ rest.length)
    (hlt : ((stack (rest.take m) xs).length : Int) < K) :
    ((stack (rest.take m) xs).length : Int) = offset K (c m) e := by
  induction m with
  | zero => exact hxs
  | succ m ih =>
    rw [List.take_succ_eq_append_getElem hm, stack_concat, List.length_append] at hlt ⊢
    have hys := hrest m _ (List.getElem?_eq_getElem hm)
    have hstack := ih (by omega) (by omega)
    push_cast at hlt ⊢
    rw [offset_add_offset (b := c m) hK (by omega), hys, hstack]

/-- **A key has the value it has in the one list whose arc contains it.** -/
theorem holds_stack_iff {x : α} (hK : 0 < K) (hrest : OnArcs K c rest) (hm : m ≤ rest.length)
    (hlt : ((stack (rest.take m) xs).length : Int) < K) :
    Holds K (c m) (stack (rest.take m) xs) k x ↔ Holds K (c 0) xs k x ∨
      ∃ t < m, ∃ ys, rest[t]? = some ys ∧ Holds K (c (t + 1)) ys k x := by
  induction m with
  | zero => simp [stack]
  | succ m ih =>
    rw [List.take_succ_eq_append_getElem hm, stack_concat] at hlt ⊢
    have hys := List.getElem?_eq_getElem hm
    have hlt' : ((stack (rest.take m) xs).length : Int) < K := by
      rw [List.length_append] at hlt
      omega
    rw [holds_append_iff hK (hrest m _ hys) hlt, ih (by omega) hlt']
    constructor
    · rintro (h | h | ⟨t, ht, h⟩)
      · exact .inr ⟨m, by omega, _, hys, h⟩
      · exact .inl h
      · exact .inr ⟨t, by omega, h⟩
    · rintro (h | ⟨t, ht, ys, hget, h⟩)
      · exact .inr (.inl h)
      · rcases Nat.lt_or_ge t m with htm | htm
        · exact .inr (.inr ⟨t, htm, ys, hget, h⟩)
        · obtain rfl : t = m := by omega
          cases hys.symm.trans hget
          exact .inl h

end

end Values

end Circle
