import Rpscc.Cluster.Channel
import Rpscc.Lib.Words

/-!
# The bytes of shared memory

A worker and its agent share blocks of 804 bytes.  For the agent, a program in C++, such a block is
a `shmstruct`: a size, a hundred values and a hundred keys, of four bytes each.  The worker, a
program in Python, sees the bytes.  It goes to positions in them, packs numbers and writes them
(`transfer_to_agent`), or reads bytes and unpacks them (`read_from_agent`).

`Shmstruct.ofMemory` is what the agent sees.  The worker and the agent agree on the format: what the
worker writes is a block with these pairs (`LinearRegression.agent_sees_transferred`), and what it
reads is what the block holds (`LinearRegression.worker_reads_block`), also when the agent has
written it.  Neither function checks anything, but with more than a hundred pairs each of them runs
against the end of the memory.
-/

set_option autoImplicit false

namespace Rpscc

open Words (Memory File toBytes ofBytes bytesOf)

/-- The floats of C++, as the four bytes that they take. -/
class FloatBits (F : Type) where
  toBits : F → BitVec 32
  ofBits : BitVec 32 → F
  ofBits_toBits (x : F) : ofBits (toBits x) = x

/-- The floats of Python, which are doubles. -/
class Doubles (D : Type) (F : outParam Type) [FloatOps F] where
  zero : D
  /-- The nearest float, which is an infinity if the number is too large. -/
  round : D → F
  widen : F → D
  round_zero : round zero = FloatOps.zero

export FloatBits (toBits ofBits ofBits_toBits)

/-- The numbers of an `int32`. -/
def Int32Range (x : Int) : Prop := -2147483648 ≤ x ∧ x < 2147483648

instance (x : Int) : Decidable (Int32Range x) :=
  inferInstanceAs (Decidable (_ ∧ _))

@[simp] theorem toInt_ofInt {x : Int} (h : Int32Range x) : (BitVec.ofInt 32 x).toInt = x :=
  BitVec.toInt_ofInt_eq_self (by decide) h.1 h.2

theorem int32Range_toInt (w : BitVec 32) : Int32Range w.toInt :=
  ⟨w.le_toInt, w.toInt_lt⟩

variable {F D : Type}

/-! ## The agent -/

namespace Shmstruct

theorem ext {g g' : Shmstruct F} (hsize : g.size = g'.size) (hvalues : g.values = g'.values)
    (hkeys : g.keys = g'.keys) : g = g' := by
  cases g
  cases g'
  cases hsize
  cases hvalues
  cases hkeys
  rfl

/-- Its numbers are those of an `int32`. -/
structure Int32s (g : Shmstruct F) : Prop where
  size : Int32Range g.size
  keys : ∀ k ∈ g.keys, Int32Range k

variable [FloatBits F]

/-- `SharedMemory::Read`: the memory as a `shmstruct`. -/
def ofMemory (m : Memory 201) : Shmstruct F where
  size := (m.words.headD 0).toInt
  values := ((m.words.drop 1).take 100).map ofBits
  keys := (m.words.drop 101).map BitVec.toInt
  length_values := by simp
  length_keys := by simp

/-- `SharedMemory::Write`. -/
def writeMemory (g : Shmstruct F) (m : Memory 201) : Memory 201 :=
  let m := m.write (4 * 1) (bytesOf (g.values.map toBits)) (by simp [g.length_values])
  let m := m.write (4 * 101) (bytesOf (g.keys.map (BitVec.ofInt 32))) (by simp [g.length_keys])
  m.write (4 * 0) (bytesOf [BitVec.ofInt 32 g.size]) (by simp)

/-- The three parts of memory. -/
theorem exists_words (m : Memory 201) : ∃ (a : BitVec 32) (vs ks : List (BitVec 32)),
    m.words = a :: (vs ++ ks) ∧ vs.length = 100 ∧ ks.length = 100 := by
  have hlen := m.length_words
  cases hw : m.words with
  | nil =>
    rw [hw] at hlen
    cases hlen
  | cons a rest =>
    rw [hw, List.length_cons] at hlen
    refine ⟨a, rest.take 100, rest.drop 100, by rw [List.take_append_drop], ?_, ?_⟩
    · simp
      omega
    · simp
      omega

variable {m : Memory 201} {a : BitVec 32} {vs ks : List (BitVec 32)}

theorem write_values (a : BitVec 32) (ks : List (BitVec 32)) {xs : List (BitVec 32)}
    (hle : xs.length ≤ vs.length) :
    Checked.write (a :: (vs ++ ks)) 1 xs = a :: (Checked.write vs 0 xs ++ ks) := by
  rw [Checked.write_cons, Checked.write_append_left (by omega)]

theorem write_keys (a : BitVec 32) (ks xs : List (BitVec 32)) (hvs : vs.length = 100) :
    Checked.write (a :: (vs ++ ks)) 101 xs = a :: (vs ++ Checked.write ks 0 xs) := by
  have hright := Checked.write_append_right vs xs ks 0
  rw [hvs] at hright
  rw [Checked.write_cons, hright]

theorem size_ofMemory (hw : m.words = a :: (vs ++ ks)) :
    (ofMemory m : Shmstruct F).size = a.toInt := by
  show (m.words.headD 0).toInt = _
  rw [hw, List.headD_cons]

theorem values_ofMemory (hw : m.words = a :: (vs ++ ks)) (hvs : vs.length = 100) :
    (ofMemory m : Shmstruct F).values = vs.map ofBits := by
  show ((m.words.drop 1).take 100).map ofBits = _
  rw [hw, List.drop_succ_cons, List.drop_zero, List.take_left' hvs]

theorem keys_ofMemory (hw : m.words = a :: (vs ++ ks)) (hvs : vs.length = 100) :
    (ofMemory m : Shmstruct F).keys = ks.map BitVec.toInt := by
  show (m.words.drop 101).map BitVec.toInt = _
  rw [hw, List.drop_succ_cons, List.drop_left' hvs]

theorem int32s_ofMemory (m : Memory 201) : (ofMemory m : Shmstruct F).Int32s where
  size := int32Range_toInt _
  keys := by
    intro k hk
    obtain ⟨w, -, rfl⟩ := List.mem_map.1 hk
    exact int32Range_toInt w

/-- What the agent has written it reads. -/
theorem ofMemory_writeMemory {g : Shmstruct F} (hg : g.Int32s) (m : Memory 201) :
    ofMemory (g.writeMemory m) = g := by
  have hvs : (g.values.map toBits).length = 100 := by simp [g.length_values]
  have hks : (g.keys.map (BitVec.ofInt 32)).length = 100 := by simp [g.length_keys]
  have hwords : (g.writeMemory m).words
      = BitVec.ofInt 32 g.size :: (g.values.map toBits ++ g.keys.map (BitVec.ofInt 32)) := by
    obtain ⟨a, vs, ks, hw, hvs', hks'⟩ := exists_words m
    rw [writeMemory, Memory.words_write, Memory.words_write, Memory.words_write, hw,
      write_values a ks (by omega), Checked.write_all (hvs.trans hvs'.symm),
      write_keys a ks _ hvs, Checked.write_all (hks.trans hks'.symm)]
    rfl
  refine ext ?_ ?_ ?_
  · rw [size_ofMemory hwords, toInt_ofInt hg.size]
  · rw [values_ofMemory hwords hvs, List.map_map]
    exact List.map_id'' (fun x ↦ ofBits_toBits x) _
  · rw [keys_ofMemory hwords hvs, List.map_map]
    exact (List.map_congr_left fun k hk ↦ toInt_ofInt (hg.keys k hk)).trans (List.map_id' _)

end Shmstruct

/-! ## The worker -/

namespace LinearRegression

/-- `struct.pack('i', x)`. -/
def packInt (x : Int) : Except Fault (List UInt8) :=
  if Int32Range x then .ok (toBytes (BitVec.ofInt 32 x)) else .error .outOfRange

/-- `struct.unpack('i', c)[0]`. -/
def unpackInt : List UInt8 → Except Fault Int
  | [a, b, c, d] => .ok (ofBytes a b c d).toInt
  | _ => .error .outOfRange

@[simp] theorem packInt_ok {x : Int} (h : Int32Range x) :
    packInt x = .ok (toBytes (BitVec.ofInt 32 x)) :=
  if_pos h

theorem packInt_eq_ok {x : Int} {bs : List UInt8} (h : packInt x = .ok bs) :
    Int32Range x ∧ bs = toBytes (BitVec.ofInt 32 x) := by
  rw [packInt] at h
  split at h
  · cases h
    exact ⟨‹_›, rfl⟩
  · cases h

@[simp] theorem unpackInt_toBytes (w : BitVec 32) : unpackInt (toBytes w) = .ok w.toInt := by
  rw [toBytes, unpackInt, Words.ofBytes_toBytes]

theorem unpackInt_nil (x : Int) : unpackInt [] ≠ .ok x := by
  intro h
  cases h

variable [FloatOps F] [FloatBits F] [Doubles D F]

/-- `struct.pack('f', x)`, which rounds and does not fail. -/
def packFloat (x : D) : List UInt8 := toBytes (toBits (Doubles.round x))

/-- `struct.unpack('f', c)[0]`. -/
def unpackFloat : List UInt8 → Except Fault D
  | [a, b, c, d] => .ok (Doubles.widen (ofBits (ofBytes a b c d)))
  | _ => .error .outOfRange

/-- `transfer_to_agent(values, keys, w)`. -/
def transferToAgent (values : List D) (keys : List Int) (w : File 201) :
    Except Fault (File 201) := do
  let w ← w.seek 0
  let w ← w.write (← packInt keys.length)
  let w ← w.writeWords (fun x ↦ .ok (packFloat x)) values
  let w ← w.seek (4 * 101)
  w.writeWords packInt keys

/-- `read_from_agent(m)`. -/
def readFromAgent (m : File 201) : Except Fault (List D × List Int × File 201) := do
  let m ← m.seek 0
  let c := m.read 4
  let sz ← unpackInt c.1
  let coef ← c.2.readWords unpackFloat sz.toNat
  let m := coef.2.skipWords (100 - sz).toNat
  let keys ← m.readWords unpackInt sz.toNat
  .ok (coef.1, keys.1, keys.2)

/-! ### Writing -/

/-- What the worker writes is there for the agent. -/
theorem transferToAgent_ok (w : File 201) (values : List D) {keys : List Int}
    (hkeys : ∀ k ∈ keys, Int32Range k) (hvalues : values.length ≤ 100)
    (hlen : keys.length ≤ 100) :
    ∃ w', transferToAgent values keys w = .ok w' ∧
      (Shmstruct.ofMemory w.toMemory).transferToAgent (values.map Doubles.round) keys
        = .ok (Shmstruct.ofMemory w'.toMemory) := by
  obtain ⟨a, us, ks, hw, hus, hks⟩ := Shmstruct.exists_words w.toMemory
  have hsize : Int32Range keys.length := ⟨by omega, by omega⟩
  have hpack (x : D) (_ : True) :
      (.ok (packFloat x) : Except Fault (List UInt8)) = .ok (toBytes (toBits (Doubles.round x))) :=
    rfl
  obtain ⟨w₀, hw₀, h₀⟩ := w.seek_ok (i := 0) (by decide)
  rw [hw] at h₀
  obtain ⟨w₁, hw₁, h₁⟩ :=
    h₀.write_ok (show 0 + [BitVec.ofInt 32 keys.length].length ≤ _ by simp)
  obtain ⟨w₂, hw₂, h₂⟩ := h₁.writeWords_ok hpack (fun x (_ : x ∈ values) ↦ trivial) (by
    rw [h₁.length, List.length_singleton]
    omega)
  obtain ⟨w₃, hw₃, h₃⟩ := w₂.seek_ok (i := 101) (by decide)
  obtain ⟨w₄, hw₄, h₄⟩ := h₃.writeWords_ok (fun x ↦ packInt_ok) hkeys (by
    rw [h₃.length]
    omega)
  have hroom : ((values.map Doubles.round).map toBits).length ≤ us.length := by
    simp
    omega
  have hus' : (Checked.write us 0 ((values.map Doubles.round).map toBits)).length = 100 := by
    rw [Checked.length_write (by omega), hus]
  have hwords : w₄.words = BitVec.ofInt 32 keys.length ::
      (Checked.write us 0 ((values.map Doubles.round).map toBits)
        ++ Checked.write ks 0 (keys.map (BitVec.ofInt 32))) := by
    rw [h₄.words, h₂.words, show values.map (fun x ↦ toBits (Doubles.round x))
      = (values.map Doubles.round).map toBits from (List.map_map ..).symm]
    show Checked.write (Checked.write (BitVec.ofInt 32 keys.length :: (us ++ ks)) 1 _) 101 _ = _
    rw [Shmstruct.write_values _ ks hroom, Shmstruct.write_keys _ ks _ hus']
  refine ⟨w₄, ?_, ?_⟩
  · rw [transferToAgent, show w.seek 0 = .ok w₀ from hw₀, Checked.ok_bind, packInt_ok hsize,
      Checked.ok_bind, show w₀.write (toBytes _) = .ok w₁ from hw₁, Checked.ok_bind, hw₂,
      Checked.ok_bind, hw₃, Checked.ok_bind, hw₄]
  · rw [Shmstruct.transferToAgent, dif_pos ⟨by rwa [List.length_map], hlen⟩]
    refine congrArg Except.ok (Shmstruct.ext ?_ ?_ ?_)
    · rw [Shmstruct.size_ofMemory hwords, toInt_ofInt hsize]
    · rw [Shmstruct.values_ofMemory hwords hus', Checked.map_write, List.map_map]
      dsimp only
      rw [Shmstruct.values_ofMemory hw hus]
      exact congrArg _ (List.map_id'' (fun x ↦ ofBits_toBits x) _).symm
    · rw [Shmstruct.keys_ofMemory hwords hus', Checked.map_write, List.map_map]
      dsimp only
      rw [Shmstruct.keys_ofMemory hw hus]
      exact congrArg _ ((List.map_congr_left fun k hk ↦ toInt_ofInt (hkeys k hk)).trans
        (List.map_id' _)).symm

/-- It is there only if there is room for it. -/
theorem transferToAgent_eq_ok {w w' : File 201} {values : List D} {keys : List Int}
    (h : transferToAgent values keys w = .ok w') :
    keys.length ≤ 100 ∧ ∀ k ∈ keys, Int32Range k := by
  rw [transferToAgent, Checked.bind_eq_ok] at h
  obtain ⟨w₀, -, h⟩ := h
  rw [Checked.bind_eq_ok] at h
  obtain ⟨bs, -, h⟩ := h
  rw [Checked.bind_eq_ok] at h
  obtain ⟨w₁, -, h⟩ := h
  rw [Checked.bind_eq_ok] at h
  obtain ⟨w₂, -, h⟩ := h
  obtain ⟨w₃, hw₃, h₃⟩ := w₂.seek_ok (i := 101) (by decide)
  rw [hw₃, Checked.ok_bind] at h
  obtain ⟨hkeys, hroom⟩ := h₃.of_writeWords (fun _ _ ↦ packInt_eq_ok) h
  rw [h₃.length] at hroom
  exact ⟨by omega, hkeys⟩

/-- So the agent sees what has been written. -/
theorem transferToAgent_refines {w w' : File 201} {values : List D} {keys : List Int}
    (hlen : values.length = keys.length) (h : transferToAgent values keys w = .ok w') :
    (Shmstruct.ofMemory w.toMemory).transferToAgent (values.map Doubles.round) keys
      = .ok (Shmstruct.ofMemory w'.toMemory) := by
  obtain ⟨hle, hkeys⟩ := transferToAgent_eq_ok h
  obtain ⟨w'', hw'', hblock⟩ := transferToAgent_ok w values hkeys (hlen ▸ hle) hle
  obtain rfl : w' = w'' := Except.ok.inj (h.symm.trans hw'')
  exact hblock

/-- **What the worker writes.**  `transfer_to_agent` of some pairs succeeds exactly when there are
at most a hundred of them, and the keys are those of an `int32`.  The agent then sees the block with
these pairs, the values rounded, and with what was there before behind them. -/
theorem agent_sees_transferred (ps : List (Int × D)) (w : File 201) :
    ((∃ w', transferToAgent (ps.map Prod.snd) (ps.map Prod.fst) w = .ok w') ↔
      ps.length ≤ 100 ∧ ∀ p ∈ ps, Int32Range p.1) ∧
    ∀ w', transferToAgent (ps.map Prod.snd) (ps.map Prod.fst) w = .ok w' →
      (Shmstruct.ofMemory w.toMemory).transferToAgent ((ps.map Prod.snd).map Doubles.round)
          (ps.map Prod.fst) = .ok (Shmstruct.ofMemory w'.toMemory : Shmstruct F) ∧
        (Shmstruct.ofMemory w'.toMemory : Shmstruct F).pairs
          = ps.map fun p ↦ (p.1, Doubles.round p.2) := by
  have hlen : (ps.map Prod.snd).length = (ps.map Prod.fst).length := by simp
  refine ⟨⟨fun ⟨w', hw'⟩ ↦ ?_, fun ⟨hle, hps⟩ ↦ ?_⟩, fun w' hw' ↦ ?_⟩
  · obtain ⟨hle, hkeys⟩ := transferToAgent_eq_ok hw'
    exact ⟨by simpa using hle, List.forall_mem_map.1 hkeys⟩
  · obtain ⟨w', hw', -⟩ := transferToAgent_ok w (ps.map Prod.snd)
      (List.forall_mem_map.2 hps) (by simpa using hle) (by simpa using hle)
    exact ⟨w', hw'⟩
  · have hblock := transferToAgent_refines hlen hw'
    have hzip : (ps.map Prod.fst).zip ((ps.map Prod.snd).map Doubles.round)
        = ps.map fun p ↦ (p.1, Doubles.round p.2) := by
      rw [List.map_map, List.zip_map']
      rfl
    exact ⟨hblock, hzip ▸ Channel.pairs_transferToAgent (by simp) hblock⟩

/-! ### Reading -/

@[simp] theorem unpackFloat_toBytes (w : BitVec 32) :
    unpackFloat (D := D) (toBytes w) = .ok (Doubles.widen (ofBits w)) := by
  rw [toBytes, unpackFloat, Words.ofBytes_toBytes]

theorem unpackFloat_nil (x : D) : unpackFloat [] ≠ .ok x := by
  intro h
  cases h

/-- The size comes first. -/
theorem readFromAgent_eq (m : File 201) {a : BitVec 32} {ws : List (BitVec 32)}
    (hw : m.words = a :: ws) : ∃ m₁ : File 201, m₁.At (a :: ws) 1 ∧ readFromAgent (D := D) m = (do
      let coef ← m₁.readWords unpackFloat a.toInt.toNat
      let keys ← (coef.2.skipWords (100 - a.toInt).toNat).readWords unpackInt a.toInt.toNat
      .ok (coef.1, keys.1, keys.2)) := by
  obtain ⟨m₀, hm₀, h₀⟩ := m.seek_ok (i := 0) (by decide)
  rw [hw] at h₀
  obtain ⟨hsize, h₁⟩ := h₀.read_eq
  rw [Nat.min_eq_left (by rw [h₀.length]; decide)] at h₁
  have hunpack : unpackInt (m₀.read 4).1 = .ok a.toInt := by
    rw [hsize]
    exact unpackInt_toBytes a
  refine ⟨_, h₁, ?_⟩
  rw [readFromAgent, show m.seek 0 = .ok m₀ from hm₀, Checked.ok_bind]
  dsimp only
  rw [hunpack, Checked.ok_bind]

/-- What the worker reads is in the block. -/
theorem readFromAgent_ok {m : File 201}
    (h : (Shmstruct.ofMemory m.toMemory : Shmstruct F).size ≤ 100) :
    ∃ m', readFromAgent (D := D) m = .ok (
      ((Shmstruct.ofMemory m.toMemory : Shmstruct F).values.take
        (Shmstruct.ofMemory m.toMemory : Shmstruct F).size.toNat).map Doubles.widen,
      (Shmstruct.ofMemory m.toMemory : Shmstruct F).usedKeys, m') ∧ m'.words = m.words := by
  obtain ⟨a, us, ks, hw, hus, hks⟩ := Shmstruct.exists_words m.toMemory
  rw [Shmstruct.size_ofMemory hw] at h
  rw [Shmstruct.usedKeys, Shmstruct.size_ofMemory hw, Shmstruct.values_ofMemory hw hus,
    Shmstruct.keys_ofMemory hw hus]
  obtain ⟨m₁, h₁, hread⟩ := readFromAgent_eq (D := D) m hw
  have hlen := h₁.length
  obtain ⟨m₂, hm₂, h₂⟩ := h₁.readWords_ok (unpackFloat_toBytes (D := D)) (k := a.toInt.toNat) (by
    rw [hlen]
    omega)
  have h₃ := h₂.skipWords (100 - a.toInt).toNat
  -- behind the values, or at the end if the size is negative
  obtain ⟨p, hp, hroom, hkeys⟩ : ∃ p, min (1 + a.toInt.toNat + (100 - a.toInt).toNat) 201 = p ∧
      p + a.toInt.toNat ≤ 201 ∧
      ((a :: (us ++ ks)).drop p).take a.toInt.toNat = ks.take a.toInt.toNat := by
    rcases lt_or_ge a.toInt 0 with hneg | hnonneg
    · refine ⟨_, rfl, by omega, ?_⟩
      rw [Int.toNat_of_nonpos hneg.le, List.take_zero, List.take_zero]
    · refine ⟨101, by omega, by omega, ?_⟩
      rw [List.drop_succ_cons, List.drop_left' hus]
  rw [hlen, hp] at h₃
  obtain ⟨m₄, hm₄, h₄⟩ := h₃.readWords_ok unpackInt_toBytes (k := a.toInt.toNat) (by rwa [hlen])
  refine ⟨m₄, ?_, by rw [h₄.words, hw]⟩
  rw [hread, hm₂, Checked.ok_bind, hm₄, Checked.ok_bind, hkeys, List.drop_succ_cons,
    List.drop_zero, List.take_append_of_le_length (by omega), ← List.map_take, ← List.map_take,
    List.map_map]
  rfl

/-- It reads no more than there is. -/
theorem readFromAgent_eq_ok {m : File 201} {r : List D × List Int × File 201}
    (h : readFromAgent m = .ok r) :
    (Shmstruct.ofMemory m.toMemory : Shmstruct F).size ≤ 100 := by
  obtain ⟨a, us, ks, hw, hus, hks⟩ := Shmstruct.exists_words m.toMemory
  rw [Shmstruct.size_ofMemory hw]
  obtain ⟨m₁, h₁, hread⟩ := readFromAgent_eq (D := D) m hw
  have hlen := h₁.length
  rw [hread, Checked.bind_eq_ok] at h
  obtain ⟨coef, hcoef, h⟩ := h
  have hvalues := h₁.of_readWords (unpackFloat_toBytes (D := D)) unpackFloat_nil hcoef
  obtain ⟨m₂, hm₂, h₂⟩ := h₁.readWords_ok (unpackFloat_toBytes (D := D)) hvalues
  obtain rfl : coef = _ := Except.ok.inj (hcoef.symm.trans hm₂)
  rw [Checked.bind_eq_ok] at h
  obtain ⟨keys, hkeys, -⟩ := h
  have hroom := (h₂.skipWords (100 - a.toInt).toNat).of_readWords unpackInt_toBytes unpackInt_nil
    hkeys
  omega

/-- **What the worker reads.**  Whatever the memory holds, `read_from_agent` succeeds exactly when
the size is at most a hundred, and then it reads the values and the keys of the block in use.  If
the agent has written the block, then it is the one it has written. -/
theorem worker_reads_block (m : File 201) :
    ((∃ r, readFromAgent (D := D) m = .ok r) ↔
      (Shmstruct.ofMemory m.toMemory : Shmstruct F).size ≤ 100) ∧
    (∀ (coef : List D) keys m', readFromAgent m = .ok (coef, keys, m') →
      coef = ((Shmstruct.ofMemory m.toMemory : Shmstruct F).values.take
        (Shmstruct.ofMemory m.toMemory : Shmstruct F).size.toNat).map Doubles.widen ∧
      keys = (Shmstruct.ofMemory m.toMemory : Shmstruct F).usedKeys ∧ m'.bytes = m.bytes) ∧
    ∀ g : Shmstruct F, g.Int32s → Shmstruct.ofMemory (g.writeMemory m.toMemory) = g := by
  refine ⟨⟨fun ⟨r, hr⟩ ↦ readFromAgent_eq_ok hr, fun h ↦ ?_⟩, fun coef keys m' hr ↦ ?_,
    fun g hg ↦ Shmstruct.ofMemory_writeMemory hg _⟩
  · obtain ⟨m', hm', -⟩ := readFromAgent_ok (D := D) h
    exact ⟨_, hm'⟩
  · obtain ⟨m'', hm'', hwords⟩ := readFromAgent_ok (D := D) (readFromAgent_eq_ok hr)
    rw [hr] at hm''
    cases hm''
    exact ⟨rfl, rfl, by rw [← m'.bytesOf_words, hwords, m.bytesOf_words]⟩

end LinearRegression

end Rpscc
