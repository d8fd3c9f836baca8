import Mathlib.Data.List.TakeWhile
import Mathlib.Data.Nat.Digits.Lemmas
import Rpscc.Lib.Checked

/-!
# Decimal numbers in buffers and strings

`Decimal.print` writes an integer the way `printf` does for `%d`, and `Decimal.scan` reads one the
way `scanf` does.  A scanner stops at the first byte that is no digit, and has to see that byte: in
a buffer that ends with a digit it goes on reading behind the end.

* `scan_print`: what was printed is what is scanned, whatever comes behind it, as long as it does
  not begin with a digit.
* `length_print_le`: how long a number in a given range gets.

A string knows where it ends, and `Decimal.stoi` reads an `int` at its beginning the way `std::stoi`
does; it throws where there is none.

* `stoi_toString`: what `std::to_string` has written is read again.
-/

set_option autoImplicit false

namespace Decimal

/-! ## Bytes -/

/-- `isdigit`. -/
def isDigit (c : UInt8) : Bool := 48 ≤ c.toNat ∧ c.toNat ≤ 57

/-- `isspace`. -/
def isSpace (c : UInt8) : Bool := c.toNat = 32 ∨ 9 ≤ c.toNat ∧ c.toNat ≤ 13

/-- The character of a digit. -/
def digit (d : ℕ) : UInt8 := .ofNat (48 + d)

theorem isDigit_digit : ∀ d < 10, isDigit (digit d) = true := by decide

theorem toNat_digit : ∀ d < 10, (digit d).toNat - 48 = d := by decide

/-- A digit is no white space and no sign. -/
theorem not_isSpace_of_isDigit {c : UInt8} (h : isDigit c) : ¬ isSpace c ∧ c ≠ 45 ∧ c ≠ 43 := by
  rw [isDigit, decide_eq_true_eq] at h
  refine ⟨?_, ?_, ?_⟩
  · rw [isSpace, decide_eq_true_eq]
    omega
  · rintro rfl
    exact absurd h.1 (by decide)
  · rintro rfl
    exact absurd h.1 (by decide)

/-! ## Writing -/

/-- The digits of a number, and one for zero. -/
def digits (n : ℕ) : List UInt8 :=
  if n = 0 then [48] else ((Nat.digits 10 n).reverse).map digit

/-- `%d`, for writing. -/
def print (n : Int) : List UInt8 :=
  if n < 0 then 45 :: digits n.natAbs else digits n.natAbs

theorem digits_ne_nil (n : ℕ) : digits n ≠ [] := by
  rw [digits]
  split
  · exact List.cons_ne_nil _ _
  · rename_i h
    simpa only [ne_eq, List.map_eq_nil_iff, List.reverse_eq_nil_iff] using
      Nat.digits_ne_nil_iff_ne_zero.2 h

theorem isDigit_of_mem_digits {n : ℕ} {c : UInt8} (h : c ∈ digits n) : isDigit c := by
  rw [digits] at h
  split at h
  · rw [List.mem_singleton.1 h]
    rfl
  · obtain ⟨d, hd, rfl⟩ := List.mem_map.1 h
    exact isDigit_digit d (Nat.digits_lt_base (by omega) (List.mem_reverse.1 hd))

theorem length_digits_le {n k : ℕ} (hk : 0 < k) (h : n < 10 ^ k) : (digits n).length ≤ k := by
  rw [digits]
  split
  · exact hk
  · rw [List.length_map, List.length_reverse]
    exact (Nat.digits_length_le_iff (by omega) n).2 h

/-- A number of `k` digits, and a sign. -/
theorem length_print_le {n : Int} {k : ℕ} (hk : 0 < k) (h : n.natAbs < 10 ^ k) :
    (print n).length ≤ k + 1 := by
  have hle := length_digits_le hk h
  rw [print]
  split
  · exact Nat.succ_le_succ hle
  · exact Nat.le_succ_of_le hle

theorem print_ne_nil (n : Int) : print n ≠ [] := by
  rw [print]
  split
  · exact List.cons_ne_nil _ _
  · exact digits_ne_nil _

/-- Only digits and the sign are printed. -/
theorem mem_print {n : Int} {c : UInt8} (h : c ∈ print n) : c = 45 ∨ isDigit c := by
  rw [print] at h
  split at h
  · rcases List.mem_cons.1 h with rfl | h
    · exact .inl rfl
    · exact .inr (isDigit_of_mem_digits h)
  · exact .inr (isDigit_of_mem_digits h)

/-! ## Reading -/

/-- The number that some digits are. -/
def value (cs : List UInt8) : ℕ := cs.foldl (fun n c ↦ 10 * n + (c.toNat - 48)) 0

/-- The digits at the beginning of what is left of a buffer, and the number they are.  Without
digits nothing is read. -/
def scanNat (cs : List UInt8) : Except Fault (Option ℕ) :=
  match cs.dropWhile isDigit with
  | [] => .error .outOfRange
  | _ :: _ => .ok (if cs.takeWhile isDigit = [] then none else some (value (cs.takeWhile isDigit)))

/-- `%d`, for reading: white space, a sign, digits. -/
def scan (cs : List UInt8) : Except Fault (Option Int) :=
  match cs.dropWhile isSpace with
  | [] => .error .outOfRange
  | c :: rest =>
    if c = 45 then do
      let n ← scanNat rest
      .ok (n.map fun k : ℕ ↦ -(k : Int))
    else if c = 43 then do
      let n ← scanNat rest
      .ok (n.map fun k : ℕ ↦ (k : Int))
    else do
      let n ← scanNat (c :: rest)
      .ok (n.map fun k : ℕ ↦ (k : Int))

/-- The last digit counts once, the others ten times as much as without it. -/
@[simp] theorem value_concat (cs : List UInt8) (c : UInt8) :
    value (cs ++ [c]) = 10 * value cs + (c.toNat - 48) := by
  rw [value, List.foldl_append]
  rfl

theorem value_map_digit : ∀ {l : List ℕ}, (∀ d ∈ l, d < 10) →
    value (l.reverse.map digit) = Nat.ofDigits 10 l
  | [], _ => rfl
  | d :: l, h => by
    rw [List.reverse_cons, List.map_append, List.map_singleton, value_concat,
      toNat_digit d (h d (List.mem_cons_self ..)),
      value_map_digit fun e he ↦ h e (List.mem_cons_of_mem _ he), Nat.ofDigits_cons]
    exact Nat.add_comm _ _

@[simp] theorem value_digits (n : ℕ) : value (digits n) = n := by
  rw [digits]
  split
  · rename_i h
    exact h.symm
  · rw [value_map_digit fun d hd ↦ Nat.digits_lt_base (by omega) hd, Nat.ofDigits_digits]

theorem scanNat_digits (n : ℕ) {c : UInt8} (hc : ¬ isDigit c) (rest : List UInt8) :
    scanNat (digits n ++ c :: rest) = .ok (some n) := by
  have hall : ∀ d ∈ digits n, isDigit d := fun d ↦ isDigit_of_mem_digits
  have htake : (digits n ++ c :: rest).takeWhile isDigit = digits n := by
    rw [List.takeWhile_append_of_pos hall, List.takeWhile_cons_of_neg hc, List.append_nil]
  have hdrop : (digits n ++ c :: rest).dropWhile isDigit = c :: rest := by
    rw [List.dropWhile_append_of_pos hall, List.dropWhile_cons_of_neg hc]
  rw [scanNat, hdrop, htake, if_neg (digits_ne_nil n), value_digits]

/-- **What was printed is what is scanned**, whatever comes behind it. -/
theorem scan_print (n : Int) {c : UInt8} (hc : ¬ isDigit c) (rest : List UInt8) :
    scan (print n ++ c :: rest) = .ok (some n) := by
  rw [print]
  split
  · rename_i hneg
    have hspace : ¬ isSpace 45 := by decide
    rw [scan, List.cons_append, List.dropWhile_cons_of_neg hspace]
    dsimp only
    rw [if_pos rfl, scanNat_digits _ hc, Checked.ok_bind, Option.map_some]
    congr 2
    omega
  · rename_i hpos
    obtain ⟨d, ds, hds⟩ := List.exists_cons_of_ne_nil (digits_ne_nil n.natAbs)
    have hd : isDigit d := isDigit_of_mem_digits (hds ▸ List.mem_cons_self ..)
    obtain ⟨hspace, hminus, hplus⟩ := not_isSpace_of_isDigit hd
    have hscan := scanNat_digits n.natAbs hc rest
    rw [hds, List.cons_append] at hscan
    rw [scan, hds, List.cons_append, List.dropWhile_cons_of_neg hspace]
    dsimp only
    rw [if_neg hminus, if_neg hplus, hscan, Checked.ok_bind, Option.map_some]
    congr 2
    omega

example : scan [32, 45, 49, 50, 44, 51] = .ok (some (-12)) := by decide

/-! ## In a string -/

/-- `isspace`, for a character. -/
def isBlank (c : Char) : Bool := c.toNat = 32 ∨ 9 ≤ c.toNat ∧ c.toNat ≤ 13

/-- The number that the digits at the beginning of a text are. -/
def readNat (cs : List Char) : Except Fault ℕ :=
  match cs.takeWhile Char.isDigit with
  | [] => .error .notANumber
  | d :: ds => .ok (Nat.ofDigitChars 10 (d :: ds) 0)

/-- White space, a sign, digits. -/
def readInt (cs : List Char) : Except Fault Int :=
  match cs.dropWhile isBlank with
  | [] => .error .notANumber
  | c :: rest =>
    if c = '-' then do
      let n ← readNat rest
      .ok (-(n : Int))
    else if c = '+' then do
      let n ← readNat rest
      .ok n
    else do
      let n ← readNat (c :: rest)
      .ok n

/-- `std::stoi`. -/
def stoi (cs : List Char) : Except Fault Int := do
  let n ← readInt cs
  if Checked.IsInt32 n then .ok n else .error .notANumber

@[simp] theorem readNat_toDigits (n : ℕ) : readNat (Nat.toDigits 10 n) = .ok n := by
  have hall : ∀ c ∈ Nat.toDigits 10 n, c.isDigit := fun c hc ↦
    Nat.isDigit_of_mem_toDigits (by omega) (le_refl _) hc
  have htake : (Nat.toDigits 10 n).takeWhile Char.isDigit = Nat.toDigits 10 n :=
    List.takeWhile_eq_self_iff.2 hall
  obtain ⟨d, ds, hds⟩ := List.exists_cons_of_ne_nil (Nat.toDigits_ne_nil (n := n) (b := 10))
  rw [readNat, htake, hds]
  dsimp only
  rw [← hds, Nat.ofDigitChars_ten_toDigits]

/-- A digit is no white space and no sign. -/
theorem not_isBlank_of_isDigit {c : Char} (h : c.isDigit) :
    ¬ isBlank c ∧ c ≠ '-' ∧ c ≠ '+' := by
  rw [Char.isDigit, Bool.and_eq_true, decide_eq_true_eq, decide_eq_true_eq] at h
  refine ⟨?_, ?_, ?_⟩
  · have hlow : 48 ≤ c.toNat := UInt32.le_iff_toNat_le.1 h.1
    rw [isBlank, decide_eq_true_eq]
    omega
  · rintro rfl
    exact absurd h.1 (by decide)
  · rintro rfl
    exact absurd h.1 (by decide)

theorem toList_toString_negSucc (n : ℕ) :
    (toString (Int.negSucc n)).toList = '-' :: Nat.toDigits 10 (n + 1) := by
  show ("-" ++ (n + 1).repr).toList = _
  rw [String.toList_append, Nat.toList_repr]
  rfl

/-- Only digits and the sign are written. -/
theorem mem_toString {n : Int} {c : Char} (h : c ∈ (toString n).toList) : c = '-' ∨ c.isDigit := by
  cases n with
  | ofNat n =>
    have htext : (toString (Int.ofNat n)).toList = Nat.toDigits 10 n := Nat.toList_repr
    rw [htext] at h
    exact .inr (Nat.isDigit_of_mem_toDigits (by omega) (le_refl _) h)
  | negSucc n =>
    rw [toList_toString_negSucc] at h
    exact (List.mem_cons.1 h).imp_right (Nat.isDigit_of_mem_toDigits (by omega) (le_refl _))

@[simp] theorem readInt_toString (n : Int) : readInt (toString n).toList = .ok n := by
  cases n with
  | ofNat n =>
    obtain ⟨d, ds, hds⟩ := List.exists_cons_of_ne_nil (Nat.toDigits_ne_nil (n := n) (b := 10))
    have hd : d.isDigit :=
      Nat.isDigit_of_mem_toDigits (by omega) (le_refl _) (hds ▸ List.mem_cons_self)
    obtain ⟨hblank, hminus, hplus⟩ := not_isBlank_of_isDigit hd
    have hread := readNat_toDigits n
    have htext : (toString (Int.ofNat n)).toList = Nat.toDigits 10 n := Nat.toList_repr
    rw [hds] at hread
    rw [htext, readInt, hds, List.dropWhile_cons_of_neg hblank]
    dsimp only
    rw [if_neg hminus, if_neg hplus, hread, Checked.ok_bind]
    rfl
  | negSucc n =>
    have hblank : ¬ isBlank '-' := by decide
    rw [toList_toString_negSucc, readInt, List.dropWhile_cons_of_neg hblank]
    dsimp only
    rw [if_pos rfl, readNat_toDigits, Checked.ok_bind]
    rfl

/-- **What was written is read again**, if it is an `int`. -/
@[simp]
theorem stoi_toString {n : Int} (h : Checked.IsInt32 n) : stoi (toString n).toList = .ok n := by
  rw [stoi, readInt_toString, Checked.ok_bind, if_pos h]

end Decimal
