import Rpscc.Lib.Checked

/-!
# Memory in words

Words of four bytes, the lowest byte first, and a piece of memory that is read and written from a
position on, as a file is.  What memory holds is a list of words (`Memory.words`), and a file that
stands at the beginning of a word (`File.At`) reads and writes words.  So do the loops over one word
after the other: writing needs room (`File.At.writeWords_ok`, `File.At.of_writeWords`), reading
needs words (`File.At.readWords_ok`, `File.At.of_readWords`), and skipping stops at the end
(`File.At.skipWords`).
-/

set_option autoImplicit false

universe u

namespace Words

/-- The bytes of a word. -/
def toBytes (w : BitVec 32) : List UInt8 :=
  [UInt8.ofNat w.toNat, UInt8.ofNat (w.toNat / 2 ^ 8), UInt8.ofNat (w.toNat / 2 ^ 16),
    UInt8.ofNat (w.toNat / 2 ^ 24)]

/-- The word with these bytes. -/
def ofBytes (a b c d : UInt8) : BitVec 32 :=
  BitVec.ofNat 32 (a.toNat + 2 ^ 8 * b.toNat + 2 ^ 16 * c.toNat + 2 ^ 24 * d.toNat)

/-- The bytes of some words. -/
def bytesOf (ws : List (BitVec 32)) : List UInt8 := ws.flatMap toBytes

/-- The words in some bytes. -/
def wordsOf : List UInt8 → List (BitVec 32)
  | a :: b :: c :: d :: rest => ofBytes a b c d :: wordsOf rest
  | _ => []

@[simp] theorem length_toBytes (w : BitVec 32) : (toBytes w).length = 4 := rfl

theorem ofBytes_toBytes (w : BitVec 32) : ofBytes (UInt8.ofNat w.toNat)
    (UInt8.ofNat (w.toNat / 2 ^ 8)) (UInt8.ofNat (w.toNat / 2 ^ 16))
    (UInt8.ofNat (w.toNat / 2 ^ 24)) = w := by
  refine BitVec.eq_of_toNat_eq ?_
  have hlt := w.isLt
  simp only [ofBytes, BitVec.toNat_ofNat, UInt8.toNat_ofNat']
  omega

@[simp] theorem toBytes_ofBytes (a b c d : UInt8) : toBytes (ofBytes a b c d) = [a, b, c, d] := by
  have ha := a.toNat_lt
  have hb := b.toNat_lt
  have hc := c.toNat_lt
  have hd := d.toNat_lt
  simp only [toBytes, ofBytes, BitVec.toNat_ofNat, List.cons.injEq, ← UInt8.toNat_inj,
    UInt8.toNat_ofNat', and_true]
  omega

@[simp] theorem bytesOf_cons (w : BitVec 32) (ws : List (BitVec 32)) :
    bytesOf (w :: ws) = toBytes w ++ bytesOf ws := rfl

@[simp] theorem wordsOf_bytesOf (ws : List (BitVec 32)) : wordsOf (bytesOf ws) = ws := by
  induction ws with
  | nil => rfl
  | cons w ws ih =>
    rw [bytesOf_cons, toBytes]
    simp only [List.cons_append, List.nil_append, wordsOf, ofBytes_toBytes, ih]

@[simp] theorem length_bytesOf (ws : List (BitVec 32)) : (bytesOf ws).length = 4 * ws.length := by
  induction ws with
  | nil => rfl
  | cons w ws ih =>
    rw [bytesOf_cons, List.length_append, ih, length_toBytes, List.length_cons]
    omega

@[simp, grind =] theorem bytesOf_append (ws vs : List (BitVec 32)) :
    bytesOf (ws ++ vs) = bytesOf ws ++ bytesOf vs :=
  List.flatMap_append

/-- Whole words of memory. -/
theorem bytesOf_wordsOf {n : ℕ} : ∀ {bs : List UInt8}, bs.length = 4 * n →
    bytesOf (wordsOf bs) = bs ∧ (wordsOf bs).length = n := by
  induction n with
  | zero =>
    intro bs h
    rw [List.length_eq_zero_iff.1 h]
    exact ⟨rfl, rfl⟩
  | succ n ih =>
    intro bs h
    match bs, h with
    | a :: b :: c :: d :: rest, h =>
      have hrest : rest.length = 4 * n := by
        simp only [List.length_cons] at h
        omega
      obtain ⟨hbytes, hlen⟩ := ih hrest
      rw [wordsOf, bytesOf_cons, toBytes_ofBytes, hbytes, List.length_cons, hlen]
      exact ⟨rfl, rfl⟩

theorem take_bytesOf (ws : List (BitVec 32)) (i : ℕ) :
    (bytesOf ws).take (4 * i) = bytesOf (ws.take i) := by
  induction ws generalizing i with
  | nil => simp [bytesOf]
  | cons w ws ih =>
    cases i with
    | zero => rfl
    | succ i =>
      rw [bytesOf_cons, List.take_succ_cons, bytesOf_cons, List.take_append,
        List.take_of_length_le (by rw [length_toBytes]; omega), length_toBytes,
        show 4 * (i + 1) - 4 = 4 * i by omega, ih]

theorem drop_bytesOf (ws : List (BitVec 32)) (i : ℕ) :
    (bytesOf ws).drop (4 * i) = bytesOf (ws.drop i) := by
  induction ws generalizing i with
  | nil => simp [bytesOf]
  | cons w ws ih =>
    cases i with
    | zero => rfl
    | succ i =>
      rw [bytesOf_cons, List.drop_succ_cons, List.drop_append,
        List.drop_of_length_le (by rw [length_toBytes]; omega), length_toBytes,
        show 4 * (i + 1) - 4 = 4 * i by omega, ih, List.nil_append]

/-- Writing the bytes of some words is writing the words. -/
theorem write_bytesOf (ws vs : List (BitVec 32)) (i : ℕ) :
    Checked.write (bytesOf ws) (4 * i) (bytesOf vs) = bytesOf (Checked.write ws i vs) := by
  rw [Checked.write, Checked.write, take_bytesOf, length_bytesOf, ← Nat.mul_add, drop_bytesOf,
    bytesOf_append, bytesOf_append]

/-! ## Memory -/

/-- `n` words of memory. -/
structure Memory (n : ℕ) where
  bytes : List UInt8
  length_bytes : bytes.length = 4 * n

namespace Memory

variable {n : ℕ}

@[ext] theorem ext {m m' : Memory n} (h : m.bytes = m'.bytes) : m = m' := by
  cases m
  cases m'
  cases h
  rfl

/-- The words it holds. -/
def words (m : Memory n) : List (BitVec 32) := wordsOf m.bytes

/-- The memory that holds some words. -/
def ofWords (ws : List (BitVec 32)) (h : ws.length = n) : Memory n :=
  ⟨bytesOf ws, by simp [h]⟩

/-- Overwrite bytes from an offset on. -/
def write (m : Memory n) (offset : ℕ) (bs : List UInt8) (h : offset + bs.length ≤ 4 * n) :
    Memory n :=
  ⟨Checked.write m.bytes offset bs,
    (Checked.length_write (by rwa [m.length_bytes])).trans m.length_bytes⟩

@[simp] theorem length_words (m : Memory n) : m.words.length = n :=
  (bytesOf_wordsOf m.length_bytes).2

@[simp] theorem bytesOf_words (m : Memory n) : bytesOf m.words = m.bytes :=
  (bytesOf_wordsOf m.length_bytes).1

@[simp] theorem words_ofWords (ws : List (BitVec 32)) (h : ws.length = n) :
    (ofWords ws h).words = ws :=
  wordsOf_bytesOf ws

/-- Overwriting whole words. -/
theorem words_write (m : Memory n) {i : ℕ} {vs : List (BitVec 32)}
    (h : 4 * i + (bytesOf vs).length ≤ 4 * n) :
    (m.write (4 * i) (bytesOf vs) h).words = Checked.write m.words i vs := by
  show wordsOf (Checked.write m.bytes (4 * i) (bytesOf vs)) = _
  rw [← bytesOf_words, write_bytesOf, wordsOf_bytesOf]

end Memory

/-! ## Memory with a position -/

/-- Memory that is read and written like a file. -/
structure File (n : ℕ) extends Memory n where
  pos : ℕ

namespace File

variable {n : ℕ} {β : Type u}

/-- Go to a position. -/
def seek (f : File n) (pos : ℕ) : Except Fault (File n) :=
  if pos ≤ 4 * n then .ok { f with pos := pos } else .error .outOfRange

/-- Up to `k` bytes, and the file behind them. -/
def read (f : File n) (k : ℕ) : List UInt8 × File n :=
  ((f.bytes.drop f.pos).take k, { f with pos := f.pos + ((f.bytes.drop f.pos).take k).length })

/-- Write some bytes, which have to fit. -/
def write (f : File n) (bs : List UInt8) : Except Fault (File n) :=
  if h : f.pos + bs.length ≤ 4 * n then
    .ok ⟨f.toMemory.write f.pos bs h, f.pos + bs.length⟩
  else
    .error .outOfRange

/-- Pack values and write them, one after the other. -/
def writeWords (pack : β → Except Fault (List UInt8)) (f : File n) (xs : List β) :
    Except Fault (File n) :=
  xs.foldlM (fun f x ↦ do f.write (← pack x)) f

/-- Read words and unpack them, one after the other. -/
def readWords (unpack : List UInt8 → Except Fault β) (f : File n) (k : ℕ) :
    Except Fault (List β × File n) :=
  (List.range k).foldlM (fun r _ ↦ do
    let x ← unpack (r.2.read 4).1
    .ok (r.1 ++ [x], (r.2.read 4).2)) ([], f)

/-- Read words and forget them. -/
def skipWords (f : File n) (k : ℕ) : File n :=
  (List.range k).foldl (fun f _ ↦ (f.read 4).2) f

/-- The file holds these words, and stands at the beginning of the one with the given index. -/
structure At (f : File n) (ws : List (BitVec 32)) (i : ℕ) : Prop where
  words : f.words = ws
  pos : f.pos = 4 * i
  le : i ≤ ws.length

variable {f f' : File n} {ws : List (BitVec 32)} {i : ℕ}

theorem At.bytes (h : f.At ws i) : f.bytes = bytesOf ws := by
  rw [← f.bytesOf_words, h.words]

theorem At.length (h : f.At ws i) : ws.length = n := by
  rw [← h.words, Memory.length_words]

theorem seek_ok (f : File n) {i : ℕ} (hi : i ≤ n) :
    ∃ f', f.seek (4 * i) = .ok f' ∧ f'.At f.words i :=
  ⟨_, if_pos (by omega), rfl, rfl, by rwa [Memory.length_words]⟩

/-! ### Writing -/

theorem At.write_ok (h : f.At ws i) {vs : List (BitVec 32)} (hle : i + vs.length ≤ ws.length) :
    ∃ f', f.write (bytesOf vs) = .ok f' ∧ f'.At (Checked.write ws i vs) (i + vs.length) := by
  have hlen := h.length
  have hroom : 4 * i + (bytesOf vs).length ≤ 4 * n := by
    rw [length_bytesOf]
    omega
  obtain ⟨memory, pos⟩ := f
  obtain ⟨rfl, rfl, -⟩ := h
  refine ⟨_, dif_pos hroom, memory.words_write hroom, ?_, ?_⟩
  · rw [length_bytesOf, ← Nat.mul_add]
  · rwa [Checked.length_write hle]

theorem At.of_write (h : f.At ws i) {vs : List (BitVec 32)}
    (hw : f.write (bytesOf vs) = .ok f') :
    i + vs.length ≤ ws.length ∧ f'.At (Checked.write ws i vs) (i + vs.length) := by
  have hlen := h.length
  have hle : i + vs.length ≤ ws.length := by
    rw [File.write] at hw
    split at hw
    · rename_i hroom
      rw [h.pos, length_bytesOf] at hroom
      omega
    · cases hw
  obtain ⟨f'', hf'', hat⟩ := h.write_ok hle
  rw [hw] at hf''
  cases hf''
  exact ⟨hle, hat⟩

variable {pack : β → Except Fault (List UInt8)} {code : β → BitVec 32} {ok : β → Prop}

/-- With room for all of the words, they are written. -/
theorem At.writeWords_ok (hpack : ∀ x, ok x → pack x = .ok (toBytes (code x))) {xs : List β}
    (hok : ∀ x ∈ xs, ok x) (h : f.At ws i) (hle : i + xs.length ≤ ws.length) :
    ∃ f', f.writeWords pack xs = .ok f' ∧
      f'.At (Checked.write ws i (xs.map code)) (i + xs.length) := by
  induction xs generalizing f ws i with
  | nil => exact ⟨f, rfl, by rwa [List.map_nil, Checked.write_nil]⟩
  | cons x xs ih =>
    rw [List.forall_mem_cons] at hok
    rw [List.length_cons] at hle
    have hone : i + [code x].length ≤ ws.length := by
      simp
      omega
    obtain ⟨f₁, hf₁, h₁⟩ := h.write_ok hone
    obtain ⟨f', hf', h'⟩ := ih hok.2 h₁ (by
      rw [Checked.length_write hone, List.length_singleton]
      omega)
    refine ⟨f', ?_, ?_⟩
    · rw [writeWords, List.foldlM_cons, hpack x hok.1, Checked.ok_bind,
        show f.write (toBytes (code x)) = .ok f₁ by rwa [bytesOf_cons] at hf₁, Checked.ok_bind]
      exact hf'
    · rw [Checked.write_write hone, List.length_singleton] at h'
      rwa [List.length_cons, List.map_cons, Nat.add_comm xs.length, ← Nat.add_assoc]

/-- They are written only if each can be packed and there is room. -/
theorem At.of_writeWords (hpack : ∀ x bs, pack x = .ok bs → ok x ∧ bs = toBytes (code x))
    {xs : List β} (h : f.At ws i) (hw : f.writeWords pack xs = .ok f') :
    (∀ x ∈ xs, ok x) ∧ i + xs.length ≤ ws.length := by
  induction xs generalizing f ws i with
  | nil => exact ⟨fun x hx ↦ absurd hx List.not_mem_nil, h.le⟩
  | cons x xs ih =>
    rw [writeWords, List.foldlM_cons, Checked.bind_eq_ok] at hw
    obtain ⟨f₁, hf₁, hw⟩ := hw
    rw [Checked.bind_eq_ok] at hf₁
    obtain ⟨bs, hbs, hf₁⟩ := hf₁
    obtain ⟨hx, rfl⟩ := hpack x bs hbs
    obtain ⟨hone, h₁⟩ := h.of_write (show f.write (bytesOf [code x]) = .ok f₁ from hf₁)
    obtain ⟨hxs, hroom⟩ := ih h₁ hw
    rw [Checked.length_write hone, List.length_singleton] at hroom
    exact ⟨List.forall_mem_cons.2 ⟨hx, hxs⟩, by simp; omega⟩

/-! ### Reading -/

/-- A read of four bytes is one of a word, and at the end it is empty. -/
theorem At.read_eq (h : f.At ws i) :
    (f.read 4).1 = bytesOf (ws[i]?).toList ∧ (f.read 4).2.At ws (min (i + 1) ws.length) := by
  have hread : (f.bytes.drop f.pos).take 4 = bytesOf (ws[i]?).toList := by
    rw [h.bytes, h.pos, drop_bytesOf, show (4 : ℕ) = 4 * 1 from rfl, take_bytesOf, List.take_one,
      List.head?_drop]
  refine ⟨hread, h.words, ?_, Nat.min_le_right _ _⟩
  show f.pos + ((f.bytes.drop f.pos).take 4).length = _
  rw [hread, length_bytesOf, h.pos, ← Nat.mul_add]
  rcases Nat.lt_or_eq_of_le h.le with hlt | heq
  · rw [List.getElem?_eq_getElem hlt, Nat.min_eq_left hlt]
    rfl
  · rw [List.getElem?_eq_none heq.ge, Nat.min_eq_right (by omega), heq]
    rfl

/-- Skipping stops at the end. -/
theorem At.skipWords (h : f.At ws i) (k : ℕ) :
    (f.skipWords k).At ws (min (i + k) ws.length) := by
  induction k with
  | zero =>
    rw [Nat.add_zero, Nat.min_eq_left h.le]
    exact h
  | succ k ih =>
    rw [File.skipWords, List.range_succ, List.foldl_append]
    have hread := ih.read_eq.2
    rwa [show min (min (i + k) ws.length + 1) ws.length = min (i + (k + 1)) ws.length by
      omega] at hread

variable {unpack : List UInt8 → Except Fault β} {decode : BitVec 32 → β}

/-- With so many words left, they are read. -/
theorem At.readWords_ok (hunpack : ∀ w, unpack (toBytes w) = .ok (decode w)) (h : f.At ws i)
    {k : ℕ} (hle : i + k ≤ ws.length) :
    ∃ f', f.readWords unpack k = .ok (((ws.drop i).take k).map decode, f') ∧ f'.At ws (i + k) := by
  induction k with
  | zero => exact ⟨f, rfl, h⟩
  | succ k ih =>
    obtain ⟨f₁, hf₁, h₁⟩ := ih (by omega)
    have hlt : i + k < ws.length := by omega
    obtain ⟨hword, hat⟩ := h₁.read_eq
    rw [List.getElem?_eq_getElem hlt] at hword
    rw [Nat.min_eq_left hlt] at hat
    refine ⟨(f₁.read 4).2, ?_, hat⟩
    rw [File.readWords] at hf₁ ⊢
    rw [List.range_succ, List.foldlM_append, hf₁, Checked.ok_bind, List.foldlM_cons, hword,
      Option.toList_some, bytesOf_cons, List.take_add_one, List.getElem?_drop,
      List.getElem?_eq_getElem hlt, Option.toList_some, List.map_append]
    rw [show toBytes ws[i + k] ++ bytesOf [] = toBytes ws[i + k] from List.append_nil _, hunpack]
    rfl

/-- They are read only if there are so many. -/
theorem At.of_readWords (hunpack : ∀ w, unpack (toBytes w) = .ok (decode w))
    (hempty : ∀ x, unpack [] ≠ .ok x) (h : f.At ws i) {k : ℕ} {r : List β × File n}
    (hr : f.readWords unpack k = .ok r) : i + k ≤ ws.length := by
  induction k generalizing r with
  | zero => exact h.le
  | succ k ih =>
    rw [File.readWords, List.range_succ, List.foldlM_append, Checked.bind_eq_ok] at hr
    obtain ⟨r₁, hr₁, hr⟩ := hr
    have hle := ih hr₁
    obtain ⟨f₁, hf₁, h₁⟩ := h.readWords_ok hunpack hle
    obtain rfl : r₁ = _ := Except.ok.inj (hr₁.symm.trans hf₁)
    rw [List.foldlM_cons, Checked.bind_eq_ok] at hr
    obtain ⟨r₂, hr₂, -⟩ := hr
    rw [Checked.bind_eq_ok] at hr₂
    obtain ⟨x, hx, -⟩ := hr₂
    rcases Nat.lt_or_eq_of_le hle with hlt | heq
    · exact hlt
    · rw [h₁.read_eq.1, List.getElem?_eq_none heq.ge] at hx
      exact absurd hx (hempty x)

end File

end Words
