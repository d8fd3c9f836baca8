import Mathlib.Algebra.Order.Ring.Int
import Mathlib.Data.List.Induction
import Mathlib.Tactic.Common

/-!
# Code that can go wrong, and runs of it

The containers of a C++ program are indexed without a check, so a faithful model of such code has
to say what an access outside the container is.  Here it is a `Fault`: a checked computation is an
`Except Fault`, and "the program never does this" becomes "the computation is `.ok`".

* `Checked.get` is the indexed read of a vector or a deque by a machine integer, `Checked.int32` the
  result of a sum of two `int32`, and `Checked.tmod` the remainder of C, which follows the sign of
  the dividend.
* `Checked.zip` reads two lists in step, and `Checked.write` overwrites part of an array.
* `Checked.mapM_ok` turns a loop that computes one value an element into a `map`;
  `Checked.foldlM_range_inv` and `Checked.foldlM_range_ok` are the two rules for a counting loop
  `for (i = 0; i < n; ++i)`, written as `(List.range n).foldlM`.
* `Checked.run` feeds a list of inputs to a step function that may fault and keeps the trace of
  inputs and outputs.  `Checked.run_concat` adds a last input to a run, `Checked.run_concat_eq_ok`
  takes it off, `Checked.run_keeps` is the rule for what holds as long as nothing faults, and
  `Checked.run_invariant` is the induction rule every statement about all runs goes through: a
  predicate of the state *and the trace so far* that every step preserves, together with the fact
  that the step does not fault, holds after every run, and no run faults.
-/

set_option autoImplicit false

/-- The ways a run of C++ code leaves defined behaviour, or stops. -/
inductive Fault
  /-- An index outside its container. -/
  | outOfRange
  /-- `front()` of an empty queue. -/
  | frontOfEmpty
  /-- A container of negative size. -/
  | lengthError
  /-- `%` by zero. -/
  | divisionByZero
  /-- A sum of two `int32` that is none. -/
  | overflow
  /-- A text that `std::stoi` throws on. -/
  | notANumber
  /-- A write into a fifo that nobody has open for reading, which is `SIGPIPE`. -/
  | brokenPipe
  /-- A loop that is still running when the fuel of its model is spent. -/
  | outOfFuel
  /-- A `CHECK` that does not hold. -/
  | checkFailed
  /-- The function logs the text as an error and returns `false`. -/
  | refused (text : String)
deriving DecidableEq, Repr

namespace Checked

universe u v w

/-! ## Sequencing -/

@[simp] theorem ok_bind {α β : Type u} (a : α) (f : α → Except Fault β) :
    (Except.ok a >>= f) = f a := rfl

@[simp] theorem error_bind {α β : Type u} (e : Fault) (f : α → Except Fault β) :
    (Except.error e >>= f) = Except.error e := rfl

/-- A sequence succeeds exactly when both parts do. -/
@[simp] theorem bind_eq_ok {α β : Type u} {x : Except Fault α} {f : α → Except Fault β} {b : β} :
    (x >>= f) = .ok b ↔ ∃ a, x = .ok a ∧ f a = .ok b := by
  cases x with
  | error e => simp
  | ok a => simp

@[simp] theorem toOption_eq_some {α : Type u} {x : Except Fault α} {a : α} :
    x.toOption = some a ↔ x = .ok a := by
  cases x <;> simp [Except.toOption]

/-! ## Containers -/

/-- `xs[i]` of a vector or a deque, for a machine integer `i`. -/
def get {α : Type u} (xs : List α) (i : Int) : Except Fault α :=
  if i < 0 then .error .outOfRange
  else match xs[i.toNat]? with
    | some x => .ok x
    | none => .error .outOfRange

@[simp, grind =] theorem get_eq_ok_iff {α : Type u} {xs : List α} {i : Int} {x : α} :
    get xs i = .ok x ↔ 0 ≤ i ∧ xs[i.toNat]? = some x := by
  rw [get]
  split
  · rename_i h
    simp only [reduceCtorEq, false_iff, not_and]
    omega
  · rename_i h
    cases hx : xs[i.toNat]? with
    | none => simp
    | some y =>
      simp only [Except.ok.injEq, Option.some.injEq]
      exact (and_iff_right (by omega)).symm

theorem get_natCast {α : Type u} {xs : List α} {n : ℕ} {x : α} (h : xs[n]? = some x) :
    get xs (n : Int) = .ok x :=
  get_eq_ok_iff.2 ⟨Int.natCast_nonneg n, by simpa using h⟩

theorem exists_get {α : Type u} {xs : List α} {i : Int} (h0 : 0 ≤ i) (h : i < xs.length) :
    ∃ x, get xs i = .ok x := by
  have hlt : i.toNat < xs.length := by omega
  exact ⟨xs[i.toNat], get_eq_ok_iff.2 ⟨h0, List.getElem?_eq_getElem hlt⟩⟩

/-! ## Arithmetic -/

/-- The number is one of the `2 ^ 32` that an `int32` can be. -/
def IsInt32 (x : Int) : Prop := -2147483648 ≤ x ∧ x < 2147483648

instance (x : Int) : Decidable (IsInt32 x) := inferInstanceAs (Decidable (_ ∧ _))

/-- The result of `int32` arithmetic: there is none outside the type. -/
def int32 (x : Int) : Except Fault Int := if IsInt32 x then .ok x else .error .overflow

@[simp, grind =] theorem int32_eq_ok_iff {x y : Int} : int32 x = .ok y ↔ IsInt32 x ∧ x = y := by
  rw [int32]
  split
  · rename_i h
    rw [Except.ok.injEq]
    exact (and_iff_right h).symm
  · rename_i h
    simp [h]

@[simp] theorem int32_of_isInt32 {x : Int} (h : IsInt32 x) : int32 x = .ok x := if_pos h

/-- `a % b` of C: the remainder has the sign of `a`. -/
def tmod (a b : Int) : Except Fault Int :=
  if b = 0 then .error .divisionByZero else .ok (a.tmod b)

/-- On a dividend that is not negative the remainder of C is the mathematical one. -/
theorem tmod_of_nonneg {a b : Int} (ha : 0 ≤ a) (hb : b ≠ 0) : tmod a b = .ok (a % b) := by
  rw [tmod, if_neg hb, Int.tmod_eq_emod_of_nonneg ha]

/-! ## Loops -/

/-- A loop over a list that computes one value an element. -/
theorem mapM_ok {α β : Type u} {f : α → Except Fault β} {g : α → β} :
    ∀ {l : List α}, (∀ a ∈ l, f a = .ok (g a)) → l.mapM f = .ok (l.map g)
  | [], _ => rfl
  | a :: l, h => by
    rw [List.mapM_cons, h a (List.mem_cons_self ..), ok_bind,
      mapM_ok fun b hb ↦ h b (List.mem_cons_of_mem _ hb), ok_bind]
    rfl

/-- Two loops with the same body. -/
theorem mapM_congr {α β : Type u} {f g : α → Except Fault β} :
    ∀ {l : List α}, (∀ a ∈ l, f a = g a) → l.mapM f = l.mapM g
  | [], _ => rfl
  | a :: l, h => by
    rw [List.mapM_cons, List.mapM_cons, h a (List.mem_cons_self ..),
      mapM_congr fun b hb ↦ h b (List.mem_cons_of_mem _ hb)]

/-- A loop that computes one value an element, when only the values it does compute are known. -/
theorem mapM_ok_filterMap {α β : Type u} {f : α → Except Fault β} {g : α → Option β} :
    ∀ {l : List α}, (∀ a ∈ l, ∃ b, f a = .ok b ∧ g a = some b) → l.mapM f = .ok (l.filterMap g)
  | [], _ => rfl
  | a :: l, h => by
    obtain ⟨b, hf, hg⟩ := h a (List.mem_cons_self ..)
    rw [List.mapM_cons, hf, ok_bind, mapM_ok_filterMap fun c hc ↦ h c (List.mem_cons_of_mem _ hc),
      ok_bind, List.filterMap_cons_some hg]
    rfl

/-- Every value of a loop comes from an element. -/
theorem mem_of_mapM_ok {α β : Type u} {f : α → Except Fault β} :
    ∀ {l : List α} {r : List β}, l.mapM f = .ok r → ∀ b ∈ r, ∃ a ∈ l, f a = .ok b
  | [], r, h => by
    cases h
    exact fun b hb ↦ absurd hb List.not_mem_nil
  | a :: l, r, h => by
    rw [List.mapM_cons, bind_eq_ok] at h
    obtain ⟨x, hx, h⟩ := h
    rw [bind_eq_ok] at h
    obtain ⟨r', hr', h⟩ := h
    cases h
    intro b hb
    rcases List.mem_cons.1 hb with rfl | hb
    · exact ⟨a, List.mem_cons_self .., hx⟩
    · obtain ⟨a', ha', hf⟩ := mem_of_mapM_ok hr' b hb
      exact ⟨a', List.mem_cons_of_mem _ ha', hf⟩

/-- One value an element. -/
theorem length_of_mapM_ok {α β : Type u} {f : α → Except Fault β} :
    ∀ {l : List α} {r : List β}, l.mapM f = .ok r → r.length = l.length
  | [], r, h => by
    cases h
    rfl
  | a :: l, r, h => by
    rw [List.mapM_cons, bind_eq_ok] at h
    obtain ⟨x, -, h⟩ := h
    rw [bind_eq_ok] at h
    obtain ⟨r', hr', h⟩ := h
    cases h
    rw [List.length_cons, List.length_cons, length_of_mapM_ok hr']

/-- A loop ends exactly when no element stops it. -/
@[simp] theorem exists_mapM_ok_iff {α β : Type u} {f : α → Except Fault β} :
    ∀ {l : List α}, (∃ r, l.mapM f = .ok r) ↔ ∀ a ∈ l, ∃ b, f a = .ok b
  | [] => ⟨fun _ a ha ↦ absurd ha List.not_mem_nil, fun _ ↦ ⟨[], rfl⟩⟩
  | a :: l => by
    rw [List.forall_mem_cons, ← exists_mapM_ok_iff (l := l)]
    constructor
    · rintro ⟨r, h⟩
      rw [List.mapM_cons, bind_eq_ok] at h
      obtain ⟨x, hx, h⟩ := h
      rw [bind_eq_ok] at h
      obtain ⟨r', hr', -⟩ := h
      exact ⟨⟨x, hx⟩, r', hr'⟩
    · rintro ⟨⟨x, hx⟩, r', hr'⟩
      exact ⟨x :: r', by rw [List.mapM_cons, hx, ok_bind, hr', ok_bind]; rfl⟩

/-- Pair every element of the first list with the one at the same place of the second, which must
be there. -/
def zip {α β : Type u} : List α → List β → Except Fault (List (α × β))
  | [], _ => .ok []
  | _ :: _, [] => .error .outOfRange
  | a :: as, b :: bs => do
    let rest ← zip as bs
    .ok ((a, b) :: rest)

theorem zip_eq {α β : Type u} : ∀ {as : List α} {bs : List β}, as.length ≤ bs.length →
    zip as bs = .ok (as.zip bs)
  | [], _, _ => by rw [zip, List.zip_nil_left]
  | a :: as, b :: bs, h => by
    rw [zip, zip_eq (by simpa using h), ok_bind, List.zip_cons_cons]

theorem map_fst_of_zip {α β : Type u} : ∀ {as : List α} {bs : List β} {ps : List (α × β)},
    zip as bs = .ok ps → ps.map Prod.fst = as
  | [], bs, ps, h => by
    cases h
    rfl
  | a :: as, b :: bs, ps, h => by
    rw [zip, bind_eq_ok] at h
    obtain ⟨rest, hrest, h⟩ := h
    cases h
    rw [List.map_cons, map_fst_of_zip hrest]

/-- Overwrite the elements of `xs` from position `start` on. -/
def write {α : Type u} (xs : List α) (start : ℕ) (ys : List α) : List α :=
  xs.take start ++ ys ++ xs.drop (start + ys.length)

@[simp, grind =] theorem length_write {α : Type u} {xs ys : List α} {start : ℕ}
    (h : start + ys.length ≤ xs.length) : (write xs start ys).length = xs.length := by
  simp only [write, List.length_append, List.length_take, List.length_drop]
  omega

/-- Up to the end of what was written, the old beginning and the new part. -/
theorem take_write {α : Type u} (xs ys : List α) {start : ℕ} (h : start ≤ xs.length) :
    (write xs start ys).take (start + ys.length) = xs.take start ++ ys := by
  have hlen : (xs.take start ++ ys).length = start + ys.length := by
    rw [List.length_append, List.length_take, Nat.min_eq_left h]
  rw [write, ← hlen, List.take_left]

theorem mem_write {α : Type u} {xs ys : List α} {start : ℕ} {x : α} (h : x ∈ write xs start ys) :
    x ∈ xs ∨ x ∈ ys := by
  rw [write, List.mem_append, List.mem_append] at h
  rcases h with (h | h) | h
  · exact .inl (List.mem_of_mem_take h)
  · exact .inr h
  · exact .inl (List.mem_of_mem_drop h)

/-- Overwriting all. -/
theorem write_all {α : Type u} {xs ys : List α} (h : ys.length = xs.length) :
    write xs 0 ys = ys := by
  rw [write, List.take_zero, List.nil_append, Nat.zero_add, h, List.drop_length, List.append_nil]

@[simp, grind =]
theorem write_nil {α : Type u} (xs : List α) (start : ℕ) : write xs start [] = xs := by
  rw [write, List.append_nil, List.length_nil, Nat.add_zero, List.take_append_drop]

/-- Going on to write where one has stopped. -/
theorem write_write {α : Type u} {xs ys : List α} {start : ℕ} (h : start + ys.length ≤ xs.length)
    (zs : List α) :
    write (write xs start ys) (start + ys.length) zs = write xs start (ys ++ zs) := by
  have hdrop : (write xs start ys).drop (start + ys.length + zs.length)
      = xs.drop (start + ys.length + zs.length) := by
    have hlen : (xs.take start ++ ys).length = start + ys.length := by
      rw [List.length_append, List.length_take, Nat.min_eq_left (by omega)]
    rw [write, ← hlen, List.drop_length_add_append, List.drop_drop, hlen]
  rw [write, take_write xs ys (by omega), hdrop, write]
  simp only [List.length_append, List.append_assoc, Nat.add_assoc]

/-- Behind the first element. -/
@[simp, grind =] theorem write_cons {α : Type u} (x : α) (xs : List α) (start : ℕ) (ys : List α) :
    write (x :: xs) (start + 1) ys = x :: write xs start ys := by
  rw [write, write, List.take_succ_cons, Nat.add_right_comm, List.drop_succ_cons,
    List.cons_append, List.cons_append]

/-- Within the first of two lists. -/
theorem write_append_left {α : Type u} {xs ys : List α} {start : ℕ}
    (h : start + ys.length ≤ xs.length) (zs : List α) :
    write (xs ++ zs) start ys = write xs start ys ++ zs := by
  rw [write, write, List.take_append_of_le_length (by omega), List.drop_append_of_le_length h,
    List.append_assoc, List.append_assoc, List.append_assoc]

/-- Within the second of two lists. -/
@[simp] theorem write_append_right {α : Type u} (xs ys zs : List α) (start : ℕ) :
    write (xs ++ zs) (xs.length + start) ys = xs ++ write zs start ys := by
  rw [write, write, Nat.add_assoc, List.take_length_add_append, List.drop_length_add_append,
    List.append_assoc, List.append_assoc, List.append_assoc]

@[simp]
theorem map_write {α : Type u} {β : Type v} (f : α → β) (xs : List α) (start : ℕ) (ys : List α) :
    (write xs start ys).map f = write (xs.map f) start (ys.map f) := by
  rw [write, write, List.map_append, List.map_append, List.map_take, List.map_drop,
    List.length_map]

/-- A loop whose body does nothing does nothing. -/
theorem foldlM_eq_self {σ α : Type u} {f : σ → α → Except Fault σ} {x : σ} :
    ∀ {l : List α}, (∀ a ∈ l, f x a = .ok x) → l.foldlM f x = .ok x
  | [], _ => rfl
  | a :: l, h => by
    rw [List.foldlM_cons, h a (List.mem_cons_self ..), ok_bind]
    exact foldlM_eq_self fun b hb ↦ h b (List.mem_cons_of_mem _ hb)

/-- A loop that ends keeps what its body keeps. -/
theorem foldlM_keeps {σ α : Type u} {f : σ → α → Except Fault σ} {P : σ → Prop}
    (hf : ∀ x a y, P x → f x a = .ok y → P y) :
    ∀ {l : List α} {x y : σ}, P x → l.foldlM f x = .ok y → P y
  | [], _, _, hx, h => by
    cases h
    exact hx
  | a :: l, x, y, hx, h => by
    rw [List.foldlM_cons, bind_eq_ok] at h
    obtain ⟨z, hz, h⟩ := h
    exact foldlM_keeps hf (hf x a z hx hz) h

/-- A counting loop that ends keeps what its body keeps. -/
theorem foldlM_range_inv {σ : Type u} {f : σ → ℕ → Except Fault σ} {P : ℕ → σ → Prop} {x : σ}
    (h0 : P 0 x) :
    ∀ {n : ℕ}, (∀ i < n, ∀ y z, P i y → f y i = .ok z → P (i + 1) z) →
      ∀ {r : σ}, (List.range n).foldlM f x = .ok r → P n r
  | 0, _, r, h => by
    cases h
    exact h0
  | n + 1, hf, r, h => by
    rw [List.range_succ, List.foldlM_append, bind_eq_ok] at h
    obtain ⟨y, hy, h⟩ := h
    rw [List.foldlM_cons, bind_eq_ok] at h
    obtain ⟨z, hz, h⟩ := h
    cases h
    exact hf n (Nat.lt_succ_self n) y r
      (foldlM_range_inv h0 (fun i hi ↦ hf i (Nat.lt_succ_of_lt hi)) hy) hz

/-- A counting loop whose body never faults ends, and keeps what its body keeps. -/
theorem foldlM_range_ok {σ : Type u} {f : σ → ℕ → Except Fault σ} {P : ℕ → σ → Prop} {x : σ}
    (h0 : P 0 x) :
    ∀ {n : ℕ}, (∀ i < n, ∀ y, P i y → ∃ z, f y i = .ok z ∧ P (i + 1) z) →
      ∃ r, (List.range n).foldlM f x = .ok r ∧ P n r
  | 0, _ => ⟨x, rfl, h0⟩
  | n + 1, hf => by
    obtain ⟨y, hy, hP⟩ := foldlM_range_ok h0 fun i hi ↦ hf i (Nat.lt_succ_of_lt hi)
    obtain ⟨z, hz, hP'⟩ := hf n (Nat.lt_succ_self n) y hP
    refine ⟨z, ?_, hP'⟩
    rw [List.range_succ, List.foldlM_append, hy, ok_bind, List.foldlM_cons, hz, ok_bind]
    rfl

/-! ## Runs -/

variable {S : Type u} {I : Type u} {O : Type u}

/-- Feed the inputs to `step` one after the other.  The trace pairs every input with its output. -/
def run (step : S → I → Except Fault (S × O)) : S → List I → Except Fault (S × List (I × O))
  | s, [] => .ok (s, [])
  | s, i :: is => do
    let p ← step s i
    let q ← run step p.1 is
    .ok (q.1, (i, p.2) :: q.2)

theorem run_concat {step : S → I → Except Fault (S × O)} {is : List I} {i : I} :
    ∀ {s s' s'' : S} {tr : List (I × O)} {o : O}, run step s is = .ok (s', tr) →
      step s' i = .ok (s'', o) → run step s (is ++ [i]) = .ok (s'', tr ++ [(i, o)]) := by
  induction is with
  | nil =>
    intro s s' s'' tr o hr hs
    rw [run] at hr
    cases hr
    rw [List.nil_append, run, hs, ok_bind, run]
    rfl
  | cons j is ih =>
    intro s s' s'' tr o hr hs
    rw [run, bind_eq_ok] at hr
    obtain ⟨⟨t, p⟩, hj, hr⟩ := hr
    rw [bind_eq_ok] at hr
    obtain ⟨⟨t', tr'⟩, hrest, hr⟩ := hr
    cases hr
    rw [List.cons_append, run, hj, ok_bind, ih hrest hs, ok_bind, List.cons_append]

/-- A run ends with the step for its last input. -/
theorem run_concat_eq_ok {step : S → I → Except Fault (S × O)} {is : List I} {i : I} :
    ∀ {s s'' : S} {tr : List (I × O)}, run step s (is ++ [i]) = .ok (s'', tr) →
      ∃ s' tr' o, run step s is = .ok (s', tr') ∧ step s' i = .ok (s'', o) ∧
        tr = tr' ++ [(i, o)] := by
  induction is with
  | nil =>
    intro s s'' tr h
    rw [List.nil_append, run, bind_eq_ok] at h
    obtain ⟨⟨t, o⟩, hs, h⟩ := h
    cases h
    exact ⟨s, [], o, rfl, hs, rfl⟩
  | cons j is ih =>
    intro s s'' tr h
    rw [List.cons_append, run, bind_eq_ok] at h
    obtain ⟨⟨t, p⟩, hj, h⟩ := h
    rw [bind_eq_ok] at h
    obtain ⟨⟨t', tr'⟩, hrest, h⟩ := h
    cases h
    obtain ⟨s', tr₁, o, hrun, hs, rfl⟩ := ih hrest
    exact ⟨s', (j, p) :: tr₁, o, by rw [run, hj, ok_bind, hrun, ok_bind], hs, rfl⟩

/-- What every step keeps, a run that does not fault keeps. -/
theorem run_keeps {step : S → I → Except Fault (S × O)} {P : S → List (I × O) → Prop}
    (hstep : ∀ t tr i t' o, P t tr → step t i = .ok (t', o) → P t' (tr ++ [(i, o)])) {s : S}
    (h0 : P s []) {is : List I} : ∀ {t : S} {tr : List (I × O)},
      run step s is = .ok (t, tr) → P t tr := by
  induction is using List.reverseRecOn with
  | nil =>
    intro t tr h
    cases h
    exact h0
  | append_singleton is i ih =>
    intro t tr h
    obtain ⟨t', tr', o, hrun, hs, rfl⟩ := run_concat_eq_ok h
    exact hstep t' tr' i t o (ih hrun) hs

/-- The trace of a run lists its inputs. -/
theorem run_map_fst {step : S → I → Except Fault (S × O)} :
    ∀ {is : List I} {s t : S} {tr : List (I × O)}, run step s is = .ok (t, tr) →
      tr.map Prod.fst = is
  | [], _, _, _, h => by
    cases h
    rfl
  | i :: is, s, t, tr, h => by
    rw [run, bind_eq_ok] at h
    obtain ⟨p, -, h⟩ := h
    rw [bind_eq_ok] at h
    obtain ⟨q, hq, h⟩ := h
    cases h
    rw [List.map_cons, run_map_fst hq]

/-- **The induction rule for runs.**  If every admitted input finds a step that does not fault and
that preserves `Inv`, then no run over admitted inputs faults and `Inv` holds at its end. -/
theorem run_invariant {step : S → I → Except Fault (S × O)} {Inv : S → List (I × O) → Prop}
    (ok : I → Prop) {s : S} (h0 : Inv s [])
    (hstep : ∀ t tr i, ok i → Inv t tr → ∃ t' o, step t i = .ok (t', o) ∧ Inv t' (tr ++ [(i, o)])) :
    ∀ is : List I, (∀ i ∈ is, ok i) → ∃ t tr, run step s is = .ok (t, tr) ∧ Inv t tr := by
  intro is
  induction is using List.reverseRecOn with
  | nil => exact fun _ => ⟨s, [], rfl, h0⟩
  | append_singleton is i ih =>
    intro hok
    obtain ⟨t, tr, hr, hinv⟩ := ih fun j hj => hok j (List.mem_append_left _ hj)
    obtain ⟨t', o, hs, hinv'⟩ := hstep t tr i (hok i (by simp)) hinv
    exact ⟨t', tr ++ [(i, o)], run_concat hr hs, hinv'⟩

end Checked
