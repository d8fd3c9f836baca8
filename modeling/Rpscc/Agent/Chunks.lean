import Mathlib.Order.Bounds.Basic
import Rpscc.Agent.Agent

/-!
# The chunks of a list of keys

`NextEnding` is called in a loop: `start` goes to the end of the chunk that begins there, until the
keys are used up.  `Partition.chunks` is this loop, with what `NextEnding` says about every chunk;
`splitKeys` is the same loop with the index of the server looked up among the server ids
(`splitKeys_eq_of_chunks`).

Wherever a chunk begins, it holds keys of one slot only (`nextEnding_chunk`).  So the chunks follow
one another from the first key to the last, none of them is empty, and the server of a chunk owns
all its keys (`chunks_single_owner`).
-/

set_option autoImplicit false

namespace Rpscc

namespace Partition

/-- The keys from `start` to `stop`, and the index of the server `NextEnding` reports for them. -/
structure Chunk where
  start : ℕ
  stop : ℕ
  serverId : Int
deriving DecidableEq, Repr

/-- The loop `start = NextEnding(keys, start, server_id)`, up to the end of the keys. -/
def chunks (p : Partition) (keys : List Int) : ℕ → ℕ → Except Fault (List Chunk)
  | 0, start => if start < keys.length then .error .outOfFuel else .ok []
  | fuel + 1, start =>
    if start < keys.length then do
      let r ← p.nextEnding keys start
      let rest ← chunks p keys fuel r.1
      .ok (⟨start, r.1, r.2⟩ :: rest)
    else
      .ok []

variable {p : Partition} {keys : List Int}

/-- `Push` and `Pull` run the same loop, and look the server of every chunk up. -/
theorem splitKeys_eq_of_chunks {serverIds : List Int} {f : Int → Int} :
    ∀ {fuel start : ℕ} {cs : List Chunk}, p.chunks keys fuel start = .ok cs →
      (∀ c ∈ cs, Checked.get serverIds c.serverId = .ok (f c.serverId)) →
      splitKeys p serverIds keys fuel start
        = .ok (cs.map fun c ↦ ⟨f c.serverId, c.start, c.stop⟩)
  | 0, start, cs, h, _ => by
    rw [chunks] at h
    rw [splitKeys]
    split at h
    · simp at h
    · rename_i hge
      cases h
      rw [if_neg hge]
      rfl
  | fuel + 1, start, cs, h, hids => by
    rw [chunks] at h
    rw [splitKeys]
    split at h
    · rename_i hlt
      rw [Checked.bind_eq_ok] at h
      obtain ⟨r, hr, h⟩ := h
      rw [Checked.bind_eq_ok] at h
      obtain ⟨rest, hrest, h⟩ := h
      cases h
      rw [List.forall_mem_cons] at hids
      rw [if_pos hlt, hr, Checked.ok_bind, hids.1, Checked.ok_bind,
        splitKeys_eq_of_chunks hrest hids.2, Checked.ok_bind, List.map_cons]
    · rename_i hge
      cases h
      rw [if_neg hge]
      rfl

/-! ## One chunk -/

/-- Server `j` owns the key: it has the last boundary up to the key, or it is the last server and
the key is below the first boundary. -/
def Owns (p : Partition) (j key : Int) : Prop :=
  (key < p.first ∧ j = p.serverNum - 1) ∨
    (p.first ≤ key ∧ IsGreatest {i | ∃ b, Checked.get p.partVec i = .ok b ∧ b ≤ key} j)

/-- **`GetServerByKey` finds the owner.** -/
theorem owns_getServerByKey (hp : p.Ordered) {key : Int} (hin : p.InRange key) :
    p.Owns (p.getServerByKey key) key := by
  rw [getServerByKey_eq hp hin, serverOf]
  split
  · rename_i hzero
    exact .inl ⟨(slot_eq_zero_iff hp key).1 hzero, rfl⟩
  · rename_i hne
    have hle := p.slot_le key
    have hlt : p.slot key - 1 < p.partVec.length := by omega
    have hlast : (p.slot key : Int) - 1 = (p.slot key - 1 : ℕ) := by omega
    refine .inr ⟨not_lt.1 (mt (slot_eq_zero_iff hp key).2 hne), ?_, ?_⟩
    · refine ⟨p.partVec[p.slot key - 1], ?_, ?_⟩
      · rw [hlast]
        exact Checked.get_natCast (List.getElem?_eq_getElem hlt)
      · rw [← not_lt, ← slot_le_iff hp key hlt]
        omega
    · rintro i ⟨b, hget, hb⟩
      obtain ⟨hi, hib⟩ := Checked.get_eq_ok_iff.1 hget
      obtain ⟨hi', rfl⟩ := List.getElem?_eq_some_iff.1 hib
      have hslot : ¬ p.slot key ≤ i.toNat := by
        rw [slot_le_iff hp key hi']
        exact not_lt.2 hb
      omega

/-- Wherever it begins, a chunk is not empty, stays inside the list, and holds the keys of one
slot. -/
theorem nextEnding_chunk (hp : p.Ordered) (hk : keys.Pairwise (· ≤ ·)) {start : ℕ} {key : Int}
    (hget : keys[start]? = some key) (hin : p.InRange key) :
    ∃ stop, p.nextEnding keys start = .ok (stop, p.getServerByKey key) ∧ start < stop ∧
      stop ≤ keys.length ∧ ∀ k ∈ Sorted.slice keys start stop, p.slot k = p.slot key := by
  obtain ⟨hlt, hkey⟩ := List.getElem?_eq_some_iff.1 hget
  have hdrop : keys.drop start = key :: keys.drop (start + 1) := by
    rw [List.drop_eq_getElem_cons hlt, hkey]
  -- the keys behind the first one are not smaller
  have hmono : ∀ k ∈ keys.drop start, p.slot key ≤ p.slot k := by
    have hsorted := hk.sublist (List.drop_sublist start keys)
    rw [hdrop, List.pairwise_cons] at hsorted
    rw [hdrop, List.forall_mem_cons]
    exact ⟨le_refl _, fun k hmem ↦ p.slot_mono (hsorted.1 k hmem)⟩
  rw [getServerByKey_eq hp hin]
  obtain ⟨boundary, hb, hnext⟩ | ⟨hlast, hnext⟩ := nextEnding_cases hp hget hin
  · have hpos : 0 < Sorted.lowerBound (keys.drop start) boundary := by
      rw [hdrop]
      exact Sorted.lowerBound_cons_pos ((hb key).2 (Nat.lt_succ_self _))
    have hle := Sorted.lowerBound_le (keys.drop start) boundary
    rw [List.length_drop] at hle
    refine ⟨_, hnext, by omega, by omega, fun k hmem ↦ ?_⟩
    rw [Sorted.slice, Nat.add_sub_cancel_left] at hmem
    have hlt := (hb k).1 (Sorted.lt_of_mem_take_lowerBound hmem)
    exact le_antisymm (Nat.lt_succ_iff.1 hlt) (hmono k (List.mem_of_mem_take hmem))
  · refine ⟨_, hnext, hlt, le_refl _, fun k hmem ↦ ?_⟩
    exact le_antisymm (hlast ▸ p.slot_le k) (hmono k (List.mem_of_mem_take hmem))

/-! ## All the chunks -/

/-- The chunks follow one another from `start` to `stop`, and none is empty. -/
def Tiles (stop : ℕ) : ℕ → List Chunk → Prop
  | start, [] => start = stop
  | start, c :: cs => c.start = start ∧ c.start < c.stop ∧ Tiles stop c.stop cs

/-- The chunk has one server, which owns all its keys. -/
structure Chunk.SingleOwner (p : Partition) (keys : List Int) (c : Chunk) : Prop where
  nonneg : 0 ≤ c.serverId
  lt : c.serverId < p.serverNum
  getServerByKey : ∀ k ∈ Sorted.slice keys c.start c.stop, p.getServerByKey k = c.serverId
  owns : ∀ k ∈ Sorted.slice keys c.start c.stop, p.Owns c.serverId k

/-- The loop from `start` on. -/
theorem chunks_from (hp : p.Ordered) (hk : keys.Pairwise (· ≤ ·)) (hin : ∀ k ∈ keys, p.InRange k) :
    ∀ (fuel start : ℕ), start ≤ keys.length → keys.length ≤ start + fuel →
      ∃ cs, p.chunks keys fuel start = .ok cs ∧ Tiles keys.length start cs ∧
        ∀ c ∈ cs, c.SingleOwner p keys := by
  intro fuel
  induction fuel with
  | zero =>
    intro start hle hfuel
    refine ⟨[], if_neg (by omega), by rw [Tiles]; omega, by simp⟩
  | succ fuel ih =>
    intro start hle hfuel
    rw [chunks]
    split
    · rename_i hlt
      have hget := List.getElem?_eq_getElem hlt
      have hkey := hin _ (List.getElem_mem hlt)
      obtain ⟨stop, hnext, hstop, hstop_le, hslot⟩ := nextEnding_chunk hp hk hget hkey
      obtain ⟨cs, hcs, htiles, howner⟩ := ih stop hstop_le (by omega)
      rw [hnext, Checked.ok_bind, hcs, Checked.ok_bind]
      have hserver : ∀ k ∈ Sorted.slice keys start stop,
          p.InRange k ∧ p.getServerByKey k = p.getServerByKey keys[start] := by
        intro k hmem
        have hk_in := hin k (List.mem_of_mem_drop (List.mem_of_mem_take hmem))
        refine ⟨hk_in, ?_⟩
        rw [getServerByKey_eq hp hk_in, getServerByKey_eq hp hkey, hslot k hmem]
      have hbounds := p.serverOf_bounds (p.slot_le keys[start])
      rw [← getServerByKey_eq hp hkey] at hbounds
      refine ⟨_, rfl, ⟨rfl, hstop, htiles⟩, List.forall_mem_cons.2 ⟨⟨hbounds.1, hbounds.2,
        fun k hmem ↦ (hserver k hmem).2, fun k hmem ↦ ?_⟩, howner⟩⟩
      rw [← (hserver k hmem).2]
      exact owns_getServerByKey hp (hserver k hmem).1
    · rename_i hge
      exact ⟨[], rfl, by rw [Tiles]; omega, by simp⟩

/-- **The keys are cut into consecutive, non-empty chunks with one owner each**, for any boundaries
in order, repeated or not, and any sorted keys of the key space. -/
theorem chunks_single_owner (hp : p.Ordered) (hk : keys.Pairwise (· ≤ ·))
    (hin : ∀ k ∈ keys, p.InRange k) :
    ∃ cs, p.chunks keys keys.length 0 = .ok cs ∧ Tiles keys.length 0 cs ∧
      ∀ c ∈ cs, c.SingleOwner p keys :=
  chunks_from hp hk hin keys.length 0 (Nat.zero_le _) (by omega)

/-- Three servers, the first of which has an empty range, and keys at both ends. -/
theorem chunks_single_owner_three :
    ∃ p : Partition, p.partVec = [2, 2, 7] ∧
      p.chunks [0, 1, 3, 8] 4 0 = .ok [⟨0, 2, 2⟩, ⟨2, 3, 1⟩, ⟨3, 4, 2⟩] ∧
      ∀ c ∈ [(⟨0, 2, 2⟩ : Chunk), ⟨2, 3, 1⟩, ⟨3, 4, 2⟩], c.SingleOwner p [0, 1, 3, 8] := by
  have hp : (⟨10, 3, [2, 2, 7], rfl, by decide⟩ : Partition).Ordered := by
    rw [Ordered]
    decide
  have hk : [(0 : Int), 1, 3, 8].Pairwise (· ≤ ·) := by decide
  obtain ⟨cs, hcs, -, howner⟩ := chunks_single_owner hp hk (by simp [InRange])
  cases hcs
  exact ⟨_, rfl, rfl, howner⟩

end Partition

end Rpscc
