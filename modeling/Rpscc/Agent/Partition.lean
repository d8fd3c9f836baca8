import Rpscc.Lib.Checked
import Rpscc.Lib.Sorted

/-!
# The partition of the key space

`Partition` is the class of the same name: it tells an agent which server owns a key, and cuts a
sorted list of keys into blocks with one owner each.  Server `i` owns the keys from boundary `i` to
boundary `i + 1`, and the last one owns what is left over at both ends of the key space.

The two ends are the delicate part, so the proofs count boundaries instead of searching them.
`Partition.slot key` is the number of boundaries up to `key`.  It goes up with the key, it is `0`
below the first boundary, and it decides the owner (`getServerByKey_eq`).  Two slots belong to the
last server, and a block never spans both (`nextEnding_eq`).
-/

set_option autoImplicit false

namespace Rpscc

/-- `class Partition`.  Both searches read the first boundary, so there is one. -/
structure Partition where
  keyRange : Int
  serverNum : Int
  partVec : List Int
  length_eq : (partVec.length : Int) = serverNum
  ne_nil : partVec ≠ []

namespace Partition

/-- `Partition::Initialize`, which reads `server_num` boundaries. -/
def initializePartition (keyRange serverNum : Int) (partVec : List Int) :
    Except Fault Partition :=
  if h : 0 < serverNum ∧ serverNum.toNat ≤ partVec.length then
    .ok {
      keyRange := keyRange
      serverNum := serverNum
      partVec := partVec.take serverNum.toNat
      length_eq := by
        rw [List.length_take, Nat.min_eq_left h.2]
        omega
      ne_nil := by
        rw [← List.length_pos_iff, List.length_take, Nat.min_eq_left h.2]
        omega }
  else
    .error .outOfRange

theorem initializePartition_ok (keyRange : Int) {serverNum : Int} {partVec : List Int}
    (hpos : 0 < serverNum) (hlen : (partVec.length : Int) = serverNum) :
    ∃ p, initializePartition keyRange serverNum partVec = .ok p ∧ p.keyRange = keyRange ∧
      p.serverNum = serverNum ∧ p.partVec = partVec := by
  refine ⟨_, dif_pos ⟨hpos, by omega⟩, rfl, rfl, ?_⟩
  exact List.take_of_length_le (by omega)

/-- `part_vec_[0]`. -/
def first (p : Partition) : Int := p.partVec.head p.ne_nil

/-- `Partition::GetServerByKey`. -/
def getServerByKey (p : Partition) (key : Int) : Int :=
  if key < 0 ∨ p.keyRange ≤ key then -1
  else if key < p.first then p.serverNum - 1
  else (Sorted.upperBound p.partVec key : Int) - 1

/-- `Partition::NextEnding`: the end of the block that begins at `start`, and its server. -/
def nextEnding (p : Partition) (keys : List Int) (start : ℕ) : Except Fault (ℕ × Int) := do
  let key ← Checked.get keys start
  let serverId := p.getServerByKey key
  if key < p.first then
    .ok (start + Sorted.lowerBound (keys.drop start) p.first, serverId)
  else if serverId = p.serverNum - 1 then
    .ok (keys.length, serverId)
  else
    let boundary ← Checked.get p.partVec (serverId + 1)
    .ok (start + Sorted.lowerBound (keys.drop start) boundary, serverId)

/-! ## Slots -/

/-- The number of boundaries up to `key`. -/
def slot (p : Partition) (key : Int) : ℕ := p.partVec.countP fun b ↦ decide (b ≤ key)

/-- The server that owns the keys of slot `s`. -/
def serverOf (p : Partition) (s : ℕ) : Int := if s = 0 then p.serverNum - 1 else s - 1

/-- The boundaries are in order. -/
def Ordered (p : Partition) : Prop := p.partVec.Pairwise (· ≤ ·)

/-- A key of the key space. -/
def InRange (p : Partition) (key : Int) : Prop := 0 ≤ key ∧ key < p.keyRange

theorem slot_le (p : Partition) (key : Int) : p.slot key ≤ p.partVec.length :=
  List.countP_le_length

theorem slot_mono (p : Partition) {a b : Int} (h : a ≤ b) : p.slot a ≤ p.slot b :=
  List.countP_mono_left fun _ _ hx ↦ decide_eq_true (le_trans (of_decide_eq_true hx) h)

theorem length_pos (p : Partition) : 0 < p.partVec.length := List.length_pos_iff.2 p.ne_nil

theorem first_eq (p : Partition) (h : 0 < p.partVec.length) : p.first = p.partVec[0] := by
  rw [first, List.head_eq_getElem]

variable {p : Partition}

theorem slot_le_iff (hp : p.Ordered) (key : Int) {s : ℕ} (hs : s < p.partVec.length) :
    p.slot key ≤ s ↔ key < p.partVec[s] :=
  Sorted.countP_le_iff hp key hs

theorem slot_eq_zero_iff (hp : p.Ordered) (key : Int) : p.slot key = 0 ↔ key < p.first := by
  rw [p.first_eq p.length_pos, ← slot_le_iff hp key p.length_pos, Nat.le_zero]

/-- **The owner of a key is the server of its slot.** -/
theorem getServerByKey_eq (hp : p.Ordered) {key : Int} (hk : p.InRange key) :
    p.getServerByKey key = p.serverOf (p.slot key) := by
  have hin : ¬ (key < 0 ∨ p.keyRange ≤ key) := by
    have h := hk
    rw [InRange] at h
    omega
  rw [getServerByKey, serverOf, if_neg hin]
  simp only [slot_eq_zero_iff hp]
  rw [Sorted.upperBound_eq_countP hp]
  rfl

/-- The owner is one of the servers. -/
theorem serverOf_bounds (p : Partition) {s : ℕ} (hs : s ≤ p.partVec.length) :
    0 ≤ p.serverOf s ∧ p.serverOf s < p.serverNum := by
  have hlen := p.length_eq
  have hpos := p.length_pos
  rw [serverOf]
  split <;> omega

/-- Above the first boundary every server has one slot. -/
theorem serverOf_eq_iff (p : Partition) {s i : ℕ} (hs : 0 < s) : p.serverOf s = i ↔ s = i + 1 := by
  rw [serverOf, if_neg (by omega)]
  omega

/-! ## Blocks -/

variable {keys : List Int}

theorem pairwise_slot (p : Partition) (hk : keys.Pairwise (· ≤ ·)) :
    keys.Pairwise fun a b ↦ p.slot a ≤ p.slot b :=
  hk.imp fun h ↦ p.slot_mono h

/-- Searching on from where slot `s` begins for the boundary behind it. -/
theorem add_lowerBound_eq (hk : keys.Pairwise (· ≤ ·)) {s : ℕ} {boundary : Int}
    (hb : ∀ k, k < boundary ↔ p.slot k < s + 1) :
    (keys.countP fun k ↦ decide (p.slot k < s))
        + Sorted.lowerBound (keys.drop (keys.countP fun k ↦ decide (p.slot k < s))) boundary
      = keys.countP fun k ↦ decide (p.slot k < s + 1) := by
  have hinit := Sorted.initial_lt (p.pairwise_slot hk) s
  rw [Sorted.lowerBound_eq_countP (hk.sublist (List.drop_sublist _ _)), hinit.drop_countP,
    Sorted.countP_lt_succ]
  simp only [hb]

/-- Where a block ends that begins at a key of the key space: at the boundary behind the slot of the
key, or at the end of the keys when there is none. -/
theorem nextEnding_cases (hp : p.Ordered) {start : ℕ} {key : Int} (hget : keys[start]? = some key)
    (hin : p.InRange key) :
    (∃ boundary, (∀ k, k < boundary ↔ p.slot k < p.slot key + 1) ∧
      p.nextEnding keys start
        = .ok (start + Sorted.lowerBound (keys.drop start) boundary, p.serverOf (p.slot key))) ∨
    p.slot key = p.partVec.length ∧
      p.nextEnding keys start = .ok (keys.length, p.serverOf (p.slot key)) := by
  have hlen := p.length_eq
  rw [nextEnding, Checked.get_natCast hget, Checked.ok_bind, getServerByKey_eq hp hin]
  simp only
  split
  · rename_i hlt
    rw [← slot_eq_zero_iff hp] at hlt
    refine .inl ⟨p.first, fun k ↦ ?_, rfl⟩
    rw [← slot_eq_zero_iff hp, hlt, Nat.lt_one_iff]
  · rename_i hge
    rw [← slot_eq_zero_iff hp] at hge
    have hslot := p.slot_le key
    split
    · -- the last server takes everything that is left
      rename_i hlast
      rw [serverOf, if_neg hge] at hlast
      exact .inr ⟨by omega, rfl⟩
    · rename_i hlast
      rw [serverOf, if_neg hge] at hlast
      have hlt : p.slot key < p.partVec.length := by omega
      have hboundary : Checked.get p.partVec (p.serverOf (p.slot key) + 1)
          = .ok (p.partVec[p.slot key]) := by
        rw [serverOf, if_neg hge, Int.sub_add_cancel]
        exact Checked.get_natCast (List.getElem?_eq_getElem hlt)
      refine .inl ⟨p.partVec[p.slot key], fun k ↦ ?_, by rw [hboundary, Checked.ok_bind]⟩
      rw [← slot_le_iff hp k hlt, Nat.lt_succ_iff]

/-- **A block is all the keys of one slot.**  If the block begins where the keys of slot `s`
begin, `NextEnding` finds where they end. -/
theorem nextEnding_eq (hp : p.Ordered) (hk : keys.Pairwise (· ≤ ·))
    (hin : ∀ k ∈ keys, p.InRange k) {s : ℕ} (hex : ∃ k ∈ keys, p.slot k = s) :
    p.nextEnding keys (keys.countP fun k ↦ decide (p.slot k < s))
      = .ok (keys.countP fun k ↦ decide (p.slot k < s + 1), p.serverOf s) := by
  obtain ⟨key, rest, hdrop, rfl⟩ := Sorted.drop_countP_eq_cons (p.pairwise_slot hk) hex
  have hget : keys[keys.countP fun k ↦ decide (p.slot k < p.slot key)]? = some key := by
    rw [← List.head?_drop, hdrop, List.head?_cons]
  have hmem : key ∈ keys := List.mem_of_mem_drop (hdrop ▸ List.mem_cons_self)
  obtain ⟨boundary, hb, hnext⟩ | ⟨hlast, hnext⟩ := nextEnding_cases hp hget (hin key hmem)
  · rw [hnext, add_lowerBound_eq hk hb]
  · have hall : (keys.countP fun k ↦ decide (p.slot k < p.slot key + 1)) = keys.length := by
      refine List.countP_eq_length.2 fun k _ ↦ decide_eq_true ?_
      have hle := p.slot_le k
      omega
    rw [hnext, hall]

/-- From a key of the key space on there is progress. -/
theorem nextEnding_progress (hp : p.Ordered) {start : ℕ} {key : Int}
    (hget : keys[start]? = some key) (hin : p.InRange key) :
    ∃ stop, p.nextEnding keys start = .ok (stop, p.serverOf (p.slot key)) ∧ start < stop := by
  obtain ⟨hlt, hkey⟩ := List.getElem?_eq_some_iff.1 hget
  obtain ⟨boundary, hb, hnext⟩ | ⟨-, hnext⟩ := nextEnding_cases hp hget hin
  · refine ⟨_, hnext, ?_⟩
    have hpos : 0 < Sorted.lowerBound (keys.drop start) boundary := by
      rw [List.drop_eq_getElem_cons hlt, hkey]
      exact Sorted.lowerBound_cons_pos ((hb key).2 (Nat.lt_succ_self _))
    omega
  · exact ⟨_, hnext, hlt⟩

end Partition

end Rpscc
