import Rpscc.Agent.Sorting

/-!
# What an agent sends

The loop of `Push` and `Pull` in closed form.  For sorted keys of the key space and boundaries in
order, `splitKeys` makes one block for every slot that has a key, in the order of the slots
(`splitKeys_eq`), so the fuel is enough, and the block holds all the keys of its slot.

Every server but the last has one slot.  The last has two, at the two ends of the key space; when
the keys are at one end only (`Partition.OneEnd`), it has one block as well
(`OneEnd.slot_unique`).  `Agent.push_eq` and `Agent.sendPull_eq` say what a push and a pull send.
-/

set_option autoImplicit false

namespace Rpscc

/-! ## The block of shared memory -/

namespace Shmstruct

variable {F : Type} {g : Shmstruct F}

/-- The block holds at most a hundred pairs, with distinct keys. -/
structure Distinct (g : Shmstruct F) : Prop where
  nonneg : 0 ≤ g.size
  le : g.size ≤ 100
  nodup : g.usedKeys.Nodup

theorem map_fst_pairs (g : Shmstruct F) : g.pairs.map Prod.fst = g.usedKeys := by
  rw [pairs, List.map_take, List.map_fst_zip (by rw [g.length_keys, g.length_values]), usedKeys]

theorem length_pairs (g : Shmstruct F) (h : g.size ≤ 100) : g.pairs.length = g.size.toNat := by
  rw [pairs, List.length_take, List.length_zip, g.length_keys, g.length_values]
  omega

/-- Writing pairs from `start` on keeps those before. -/
theorem writePairs_ok (g : Shmstruct F) (start : ℕ) (ps : List (Int × F))
    (h : start + ps.length ≤ 100) :
    ∃ g', g.writePairs start ps = .ok g' ∧ g'.size = g.size ∧
      (g'.keys.zip g'.values).take (start + ps.length)
        = (g.keys.zip g.values).take start ++ ps := by
  obtain ⟨g', hwrite, hsize, hkeys', hvalues'⟩ := g.writePairs_eq h
  refine ⟨g', hwrite, hsize, ?_⟩
  rw [hkeys', hvalues']
  have hkeys := g.length_keys
  have hvalues := g.length_values
  have h1 := Checked.take_write g.keys (ps.map Prod.fst) (show start ≤ g.keys.length by omega)
  have h2 := Checked.take_write g.values (ps.map Prod.snd)
    (show start ≤ g.values.length by omega)
  rw [List.length_map] at h1 h2
  have hlen : (g.keys.take start).length = (g.values.take start).length := by
    rw [List.length_take, List.length_take, hkeys, hvalues]
  rw [List.zip, List.take_zipWith, h1, h2, List.zipWith_append hlen, List.take_zipWith,
    ← List.unzip_fst, ← List.unzip_snd]
  exact congrArg _ (List.zip_unzip ps)

/-- The pairs in the order of their keys, as `SortKeyValue` reads them out of its map. -/
def sortedPairs (g : Shmstruct F) : List (Int × F) :=
  (SortedMap.ofList g.usedKeys.zipIdx).entries.filterMap fun item ↦
    ((g.values.take g.size.toNat)[item.2]?).map fun x ↦ (item.1, x)

theorem sortedPairs_eq (g : Shmstruct F) :
    g.sortedPairs = Agent.firstPairs g.usedKeys (g.values.take g.size.toNat) := rfl

theorem pairs_eq (g : Shmstruct F) : g.pairs = g.usedKeys.zip (g.values.take g.size.toNat) := by
  rw [pairs, List.zip, List.take_zipWith]
  rfl

theorem length_usedKeys_le (g : Shmstruct F) :
    g.usedKeys.length ≤ (g.values.take g.size.toNat).length := by
  rw [usedKeys, List.length_take, List.length_take, g.length_keys, g.length_values]

theorem sortedPairs_perm (h : g.Distinct) : g.sortedPairs.Perm g.pairs := by
  rw [sortedPairs_eq, pairs_eq]
  exact Agent.firstPairs_perm h.nodup

theorem sortedPairs_pairwise (g : Shmstruct F) :
    (g.sortedPairs.map Prod.fst).Pairwise (· < ·) :=
  Agent.pairwise_firstPairs g.length_usedKeys_le

/-- **`SortKeyValue` sorts.**  With distinct keys it keeps every pair. -/
theorem sortKeyValue_ok (h : g.Distinct) :
    ∃ g', g.sortKeyValue = .ok g' ∧ g'.size = g.size ∧ g'.pairs = g.sortedPairs := by
  have hnonneg := h.nonneg
  have hle := h.le
  have hkeys := g.length_keys
  have hvalues := g.length_values
  obtain ⟨g', hsort, hsize, harrays⟩ := g.sortKeyValue_arrays hnonneg hle
  obtain ⟨keys', values', harrays', -, hpairs⟩ := Agent.sortKeyValue_ok
    (show g.size.toNat ≤ g.keys.length by omega) (show g.size.toNat ≤ g.values.length by omega)
  rw [Int.toNat_of_nonneg hnonneg, harrays] at harrays'
  cases harrays'
  refine ⟨g', hsort, hsize, ?_⟩
  -- the map has an entry for every pair, so nothing is left behind them
  have hall := (sortedPairs_perm h).length_eq
  rw [pairs_eq, sortedPairs_eq] at hall
  rw [pairs, hsize, hpairs, Agent.rewritten, sortedPairs_eq]
  refine (congrArg _ (List.drop_eq_nil_of_le hall.ge)).trans (List.append_nil _)

/-- Whether or not keys repeat, `SortKeyValue` returns, and there are no new keys. -/
theorem sortKeyValue_keys (hnonneg : 0 ≤ g.size) (hle : g.size ≤ 100) :
    ∃ g', g.sortKeyValue = .ok g' ∧ g'.size = g.size ∧ ∀ k ∈ g'.usedKeys, k ∈ g.usedKeys := by
  have hkeys := g.length_keys
  have hvalues := g.length_values
  obtain ⟨g', hsort, hsize, harrays⟩ := g.sortKeyValue_arrays hnonneg hle
  obtain ⟨keys', values', harrays', hkeys', -⟩ := Agent.sortKeyValue_ok
    (show g.size.toNat ≤ g.keys.length by omega) (show g.size.toNat ≤ g.values.length by omega)
  rw [Int.toNat_of_nonneg hnonneg, harrays] at harrays'
  cases harrays'
  refine ⟨g', hsort, hsize, fun k hk ↦ ?_⟩
  rw [usedKeys, hsize, hkeys', ← usedKeys, Agent.map_fst_rewritten g.length_usedKeys_le,
    List.mem_append] at hk
  rcases hk with hk | hk
  · exact (Agent.mem_firstPairs g.length_usedKeys_le).1 hk
  · exact List.mem_of_mem_drop hk

/-- `std::sort` sorts the keys in use. -/
theorem sortKeys_ok (hnonneg : 0 ≤ g.size) (hle : g.size ≤ 100) :
    ∃ g', g.sortKeys = .ok g' ∧ g'.size = g.size ∧
      g'.usedKeys = g.usedKeys.insertionSort (· ≤ ·) := by
  refine ⟨_, dif_pos ⟨hnonneg, hle⟩, rfl, ?_⟩
  have hlen : (g.usedKeys.insertionSort (· ≤ ·)).length = g.size.toNat := by
    rw [List.length_insertionSort, ← map_fst_pairs, List.length_map, length_pairs g hle]
  have h := Checked.take_write g.keys (g.usedKeys.insertionSort (· ≤ ·)) (Nat.zero_le _)
  rw [hlen, Nat.zero_add, List.take_zero, List.nil_append] at h
  exact h

end Shmstruct

/-! ## Cutting the keys -/

namespace Partition

/-- The slots that have a key. -/
def slotsOf (p : Partition) (keys : List Int) : List ℕ :=
  (List.range (p.partVec.length + 1)).filter fun s ↦ decide (∃ k ∈ keys, p.slot k = s)

/-- The id of the server that owns slot `s`. -/
def ownerId (p : Partition) (serverIds : List Int) (s : ℕ) : Int :=
  (serverIds[(p.serverOf s).toNat]?).getD 0

/-- The block of slot `s`. -/
def blockOf (p : Partition) (serverIds keys : List Int) (s : ℕ) : Block where
  serverId := p.ownerId serverIds s
  start := keys.countP fun k ↦ decide (p.slot k < s)
  stop := keys.countP fun k ↦ decide (p.slot k < s + 1)

variable {p : Partition} {serverIds keys : List Int}

theorem slotsOf_perm (p : Partition) {keys keys' : List Int} (h : keys.Perm keys') :
    p.slotsOf keys = p.slotsOf keys' := by
  refine List.filter_congr fun s _ ↦ ?_
  simp only [h.mem_iff]

theorem get_ownerId (hids : serverIds.length = p.partVec.length) {s : ℕ}
    (hs : s ≤ p.partVec.length) :
    Checked.get serverIds (p.serverOf s) = .ok (p.ownerId serverIds s) := by
  obtain ⟨hnonneg, hlt⟩ := p.serverOf_bounds hs
  have hlen := p.length_eq
  have hlt' : (p.serverOf s).toNat < serverIds.length := by omega
  rw [ownerId, List.getElem?_eq_getElem hlt', Option.getD_some]
  have hget := Checked.get_natCast (List.getElem?_eq_getElem hlt')
  rwa [Int.toNat_of_nonneg hnonneg] at hget

/-- The loop from the beginning of slot `s` on, with `m` slots to go. -/
theorem splitKeys_from (hp : p.Ordered) (hids : serverIds.length = p.partVec.length)
    (hk : keys.Pairwise (· ≤ ·)) (hin : ∀ k ∈ keys, p.InRange k) :
    ∀ (m s fuel : ℕ), s + m = p.partVec.length + 1 →
      keys.length ≤ (keys.countP fun k ↦ decide (p.slot k < s)) + fuel →
      splitKeys p serverIds keys fuel (keys.countP fun k ↦ decide (p.slot k < s))
        = .ok (((List.range' s m).filter fun s ↦ decide (∃ k ∈ keys, p.slot k = s)).map
            (p.blockOf serverIds keys)) := by
  intro m
  induction m with
  | zero =>
    intro s fuel hs hfuel
    -- behind the last slot there is no key left
    have hall : (keys.countP fun k ↦ decide (p.slot k < s)) = keys.length := by
      refine List.countP_eq_length.2 fun k _ ↦ decide_eq_true ?_
      have hle := p.slot_le k
      omega
    rw [hall]
    cases fuel <;> simp [splitKeys]
  | succ m ih =>
    intro s fuel hs hfuel
    have hle : (keys.countP fun k ↦ decide (p.slot k < s)) ≤ keys.length := List.countP_le_length
    rw [List.range'_succ]
    by_cases hex : ∃ k ∈ keys, p.slot k = s
    · rw [List.filter_cons, if_pos (decide_eq_true hex), List.map_cons]
      obtain ⟨key, rest, hdrop, -⟩ := Sorted.drop_countP_eq_cons (p.pairwise_slot hk) hex
      have hlt : (keys.countP fun k ↦ decide (p.slot k < s)) < keys.length := by
        rw [← List.drop_eq_nil_iff.not.trans not_le, hdrop]
        exact List.cons_ne_nil _ _
      obtain ⟨fuel, rfl⟩ : ∃ f, fuel = f + 1 := ⟨fuel - 1, by omega⟩
      have hstop := Sorted.countP_lt_countP_succ hex
      rw [splitKeys, if_pos hlt, nextEnding_eq hp hk hin hex, Checked.ok_bind,
        get_ownerId hids (by omega), Checked.ok_bind, ih (s + 1) fuel (by omega) (by omega),
        Checked.ok_bind]
      rfl
    · have hsame : (keys.countP fun k ↦ decide (p.slot k < s))
          = keys.countP fun k ↦ decide (p.slot k < s + 1) := by
        refine List.countP_congr fun k hkm ↦ ?_
        have hne : p.slot k ≠ s := fun h ↦ hex ⟨k, hkm, h⟩
        simp only [decide_eq_true_eq]
        omega
      rw [List.filter_cons, if_neg (by simpa using hex), hsame]
      rw [hsame] at hfuel
      exact ih (s + 1) fuel (by omega) hfuel

/-- **The loop ends, with one block for every slot that has a key.** -/
theorem splitKeys_eq (hp : p.Ordered) (hids : serverIds.length = p.partVec.length)
    (hk : keys.Pairwise (· ≤ ·)) (hin : ∀ k ∈ keys, p.InRange k) :
    splitKeys p serverIds keys keys.length 0
      = .ok ((p.slotsOf keys).map (p.blockOf serverIds keys)) := by
  have hzero : (keys.countP fun k ↦ decide (p.slot k < 0)) = 0 :=
    List.countP_eq_zero.2 fun k _ ↦ by simp
  have h := splitKeys_from hp hids hk hin (p.partVec.length + 1) 0 keys.length (by omega)
    (by omega)
  rwa [hzero, ← List.range_eq_range'] at h

/-- In whatever order keys of the key space are, the loop ends. -/
theorem splitKeys_ok (hp : p.Ordered) (hids : serverIds.length = p.partVec.length)
    (hin : ∀ k ∈ keys, p.InRange k) : ∀ {fuel start : ℕ}, keys.length ≤ start + fuel →
      ∃ blocks, splitKeys p serverIds keys fuel start = .ok blocks
  | 0, start, h => ⟨[], by rw [splitKeys, if_neg (by omega)]⟩
  | fuel + 1, start, h => by
    by_cases hlt : start < keys.length
    · have hget := List.getElem?_eq_getElem hlt
      obtain ⟨stop, hnext, hstop⟩ := nextEnding_progress hp hget (hin _ (List.getElem_mem hlt))
      obtain ⟨rest, hrest⟩ := splitKeys_ok hp hids hin (show keys.length ≤ stop + fuel by omega)
      rw [splitKeys, if_pos hlt, hnext, Checked.ok_bind, get_ownerId hids (p.slot_le _),
        Checked.ok_bind, hrest, Checked.ok_bind]
      exact ⟨_, rfl⟩
    · exact ⟨[], by rw [splitKeys, if_neg hlt]⟩

/-! ## The slots of one server -/

/-- The last boundary. -/
def last (p : Partition) : Int := p.partVec.getLast p.ne_nil

/-- The last server does not own keys at both ends of the key space. -/
def OneEnd (p : Partition) (keys : List Int) : Prop :=
  ¬ ((∃ k ∈ keys, k < p.first) ∧ ∃ k ∈ keys, p.last ≤ k)

theorem slot_eq_length_iff (hp : p.Ordered) (key : Int) :
    p.slot key = p.partVec.length ↔ p.last ≤ key := by
  have hpos := p.length_pos
  have hle := p.slot_le key
  have hlast : p.last = p.partVec[p.partVec.length - 1] := by
    rw [last, List.getLast_eq_getElem]
  have h := slot_le_iff hp key (show p.partVec.length - 1 < p.partVec.length by omega)
  rw [hlast, ← not_lt, ← h]
  omega

@[simp, grind =] theorem mem_slotsOf {s : ℕ} : s ∈ p.slotsOf keys ↔ ∃ k ∈ keys, p.slot k = s := by
  rw [slotsOf, List.mem_filter, List.mem_range, decide_eq_true_iff, and_iff_right_iff_imp]
  rintro ⟨k, -, rfl⟩
  exact Nat.lt_succ_of_le (p.slot_le k)

theorem le_of_mem_slotsOf {s : ℕ} (hs : s ∈ p.slotsOf keys) : s ≤ p.partVec.length := by
  obtain ⟨k, -, rfl⟩ := mem_slotsOf.1 hs
  exact p.slot_le k

theorem nodup_slotsOf (p : Partition) (keys : List Int) : (p.slotsOf keys).Nodup :=
  List.nodup_range.filter _

theorem ownerId_eq_iff (hids : serverIds.length = p.partVec.length) (hnd : serverIds.Nodup)
    {s i : ℕ} (hs : s ≤ p.partVec.length) (hi : i < serverIds.length) :
    p.ownerId serverIds s = serverIds[i] ↔ p.serverOf s = i := by
  obtain ⟨hnonneg, hlt⟩ := p.serverOf_bounds hs
  have hlen := p.length_eq
  have hlt' : (p.serverOf s).toNat < serverIds.length := by omega
  rw [ownerId, List.getElem?_eq_getElem hlt', Option.getD_some, hnd.getElem_inj_iff]
  omega

theorem serverOf_eq_of_ownerId_eq (hids : serverIds.length = p.partVec.length)
    (hnd : serverIds.Nodup) {s u : ℕ} (hs : s ≤ p.partVec.length) (hu : u ≤ p.partVec.length)
    (h : p.ownerId serverIds s = p.ownerId serverIds u) : p.serverOf s = p.serverOf u := by
  obtain ⟨hnonneg, hlt⟩ := p.serverOf_bounds hu
  have hlen := p.length_eq
  have hlt' : (p.serverOf u).toNat < serverIds.length := by omega
  have hu' : p.ownerId serverIds u = serverIds[(p.serverOf u).toNat] := by
    rw [ownerId, List.getElem?_eq_getElem hlt', Option.getD_some]
  have hiff := ownerId_eq_iff hids hnd hs hlt'
  rw [h, hu'] at hiff
  rw [hiff.1 rfl]
  omega

/-- Only the first and the last slot have the same owner. -/
theorem serverOf_inj (p : Partition) {s t : ℕ} (h : p.serverOf s = p.serverOf t) :
    s = t ∨ s = 0 ∧ t = p.partVec.length ∨ s = p.partVec.length ∧ t = 0 := by
  have hlen := p.length_eq
  rw [serverOf, serverOf] at h
  split at h <;> split at h <;> omega

theorem oneEnd_iff (hp : p.Ordered) :
    p.OneEnd keys ↔ ¬ (0 ∈ p.slotsOf keys ∧ p.partVec.length ∈ p.slotsOf keys) := by
  simp only [OneEnd, mem_slotsOf, slot_eq_zero_iff hp, slot_eq_length_iff hp]

/-- When the last server does not own keys at both ends, a server owns one slot. -/
theorem OneEnd.slot_unique (hp : p.Ordered) (h : p.OneEnd keys) {s t : ℕ}
    (hs : s ∈ p.slotsOf keys) (ht : t ∈ p.slotsOf keys) (hst : p.serverOf s = p.serverOf t) :
    s = t := by
  rcases p.serverOf_inj hst with heq | ⟨h', h''⟩ | ⟨h', h''⟩
  · exact heq
  · exact absurd ⟨h' ▸ hs, h'' ▸ ht⟩ ((oneEnd_iff hp).1 h)
  · exact absurd ⟨h'' ▸ ht, h' ▸ hs⟩ ((oneEnd_iff hp).1 h)

end Partition

/-! ## Pushing -/

namespace Agent

variable {F : Type}

/-- The agent can route: its boundaries are in order, and there is one server id for each. -/
structure CanRoute (ag : Agent F) : Prop where
  ordered : ag.partition.Ordered
  length_ids : ag.serverIds.length = ag.partition.partVec.length
  nodup_ids : ag.serverIds.Nodup

/-- The pairs of slot `s`. -/
def part (p : Partition) (ps : List (Int × F)) (s : ℕ) : List (Int × F) :=
  ps.filter fun e ↦ decide (p.slot e.1 = s)

/-- The push request with the pairs of slot `s`. -/
def pushPart (ag : Agent F) (ps : List (Int × F)) (s : ℕ) : Sent F :=
  let id := ag.partition.ownerId ag.serverIds s
  ⟨id, { sendId := ag.localId, recvId := id, messageType := .request,
         requestMsg := some ⟨.keyValue, (part ag.partition ps s).map Prod.fst,
           (part ag.partition ps s).map Prod.snd⟩ }⟩

/-- A block of sorted keys holds the pairs of its slot. -/
theorem slice_blockOf (p : Partition) (serverIds : List Int) {g : Shmstruct F}
    (hsize : g.size ≤ 100) (hk : g.usedKeys.Pairwise (· ≤ ·)) (s : ℕ) :
    Sorted.slice g.keys (p.blockOf serverIds g.usedKeys s).start
        (p.blockOf serverIds g.usedKeys s).stop = (part p g.pairs s).map Prod.fst ∧
      Sorted.slice g.values (p.blockOf serverIds g.usedKeys s).start
        (p.blockOf serverIds g.usedKeys s).stop = (part p g.pairs s).map Prod.snd := by
  have hcount : ∀ t : ℕ, (g.usedKeys.countP fun k ↦ decide (p.slot k < t))
      = g.pairs.countP fun e ↦ decide (p.slot e.1 < t) := by
    intro t
    rw [← g.map_fst_pairs, List.countP_map]
    rfl
  have hsorted : g.pairs.Pairwise fun a b ↦ p.slot a.1 ≤ p.slot b.1 := by
    rw [← g.map_fst_pairs] at hk
    exact (List.pairwise_map.1 hk).imp fun h ↦ p.slot_mono h
  have hstop : (g.pairs.countP fun e ↦ decide (p.slot e.1 < s + 1)) ≤ g.size.toNat :=
    (g.length_pairs hsize) ▸ List.countP_le_length
  have hpart : Sorted.slice (g.keys.zip g.values) (p.blockOf serverIds g.usedKeys s).start
      (p.blockOf serverIds g.usedKeys s).stop = part p g.pairs s := by
    rw [Partition.blockOf, hcount, hcount, ← Sorted.slice_take _ hstop]
    exact Sorted.slice_countP hsorted s
  have hkeys : (g.keys.zip g.values).map Prod.fst = g.keys :=
    List.map_fst_zip (by rw [g.length_keys, g.length_values])
  have hvalues : (g.keys.zip g.values).map Prod.snd = g.values :=
    List.map_snd_zip (by rw [g.length_keys, g.length_values])
  rw [← hpart, ← Sorted.slice_map, ← Sorted.slice_map, hkeys, hvalues]
  exact ⟨rfl, rfl⟩

theorem pushMessage_blockOf {ag : Agent F} {g : Shmstruct F} (hsize : g.size ≤ 100)
    (hk : g.usedKeys.Pairwise (· ≤ ·)) (s : ℕ) :
    ag.pushMessage g (ag.partition.blockOf ag.serverIds g.usedKeys s) = ag.pushPart g.pairs s := by
  obtain ⟨hkeys, hvalues⟩ := slice_blockOf ag.partition ag.serverIds hsize hk s
  rw [pushMessage, pushPart, hkeys, hvalues]
  rfl

/-- **What a push sends**: to the owner of every slot that has a key the pairs of that slot, in the
order of their keys. -/
theorem push_eq {ag : Agent F} (hr : ag.CanRoute) (hg : ag.gradients.Distinct)
    (hin : ∀ k ∈ ag.gradients.usedKeys, ag.partition.InRange k) :
    ∃ g : Shmstruct F, ag.push = .ok ({ ag with gradients := g },
        (ag.partition.slotsOf ag.gradients.usedKeys).map
          (ag.pushPart ag.gradients.sortedPairs)) := by
  obtain ⟨g, hsort, hsize, hpairs⟩ := Shmstruct.sortKeyValue_ok hg
  have hkeys : g.usedKeys.Perm ag.gradients.usedKeys := by
    rw [← g.map_fst_pairs, ← ag.gradients.map_fst_pairs, hpairs]
    exact (Shmstruct.sortedPairs_perm hg).map Prod.fst
  have hlen : g.usedKeys.length = g.size.toNat := by
    rw [← g.map_fst_pairs, List.length_map, g.length_pairs (hsize ▸ hg.le)]
  have hle : g.usedKeys.Pairwise (· ≤ ·) := by
    rw [← g.map_fst_pairs, hpairs]
    exact ag.gradients.sortedPairs_pairwise.imp le_of_lt
  have hsplit := Partition.splitKeys_eq hr.ordered hr.length_ids hle fun k hk ↦
    hin k (hkeys.mem_iff.1 hk)
  have hslots := ag.partition.slotsOf_perm hkeys
  refine ⟨g, ?_⟩
  rw [push, hsort, Checked.ok_bind, ← hlen, hsplit, Checked.ok_bind, hslots, List.map_map, ← hpairs]
  refine congrArg (fun l ↦ Except.ok (_, l)) (List.map_congr_left fun s _ ↦ ?_)
  exact pushMessage_blockOf (hsize ▸ hg.le) hle s

/-- A push returns whenever its keys are of the key space. -/
theorem push_ok {ag : Agent F} (hr : ag.CanRoute) (hnonneg : 0 ≤ ag.gradients.size)
    (hle : ag.gradients.size ≤ 100)
    (hin : ∀ k ∈ ag.gradients.usedKeys, ag.partition.InRange k) :
    ∃ (g : Shmstruct F) (sent : List (Sent F)),
      ag.push = .ok ({ ag with gradients := g }, sent) := by
  obtain ⟨g, hsort, hsize, hkeys⟩ := Shmstruct.sortKeyValue_keys hnonneg hle
  have hlen : g.usedKeys.length ≤ 0 + g.size.toNat := by
    rw [Nat.zero_add]
    exact List.length_take_le _ _
  obtain ⟨blocks, hblocks⟩ := Partition.splitKeys_ok hr.ordered hr.length_ids
    (fun k hk ↦ hin k (hkeys k hk)) hlen
  rw [push, hsort, Checked.ok_bind, hblocks, Checked.ok_bind]
  exact ⟨g, _, rfl⟩

/-! ## Pulling -/

/-- The pull request with the keys of slot `s`. -/
def pullPart (ag : Agent F) (keys : List Int) (s : ℕ) : Sent F :=
  let id := ag.partition.ownerId ag.serverIds s
  ⟨id, { sendId := ag.localId, recvId := id, messageType := .request,
         requestMsg := some ⟨.key, keys.filter fun k ↦ decide (ag.partition.slot k = s), []⟩ }⟩

theorem pullMessage_blockOf {ag : Agent F} {g : Shmstruct F} (hsize : g.size ≤ 100)
    (hk : g.usedKeys.Pairwise (· ≤ ·)) (s : ℕ) :
    ag.pullMessage g (ag.partition.blockOf ag.serverIds g.usedKeys s)
      = ag.pullPart g.usedKeys s := by
  have hkeys := (slice_blockOf ag.partition ag.serverIds hsize hk s).1
  have hpart : (part ag.partition g.pairs s).map Prod.fst
      = g.usedKeys.filter fun k ↦ decide (ag.partition.slot k = s) := by
    rw [part, ← g.map_fst_pairs, List.filter_map]
    rfl
  rw [pullMessage, pullPart, hkeys, hpart]
  rfl

/-- The servers a pull waits for. -/
def pullSet (ag : Agent F) (keys : List Int) : List Int :=
  ((ag.partition.slotsOf keys).map (ag.partition.ownerId ag.serverIds)).foldl
    (fun set id ↦ set.insert id) []

@[simp, grind =] theorem mem_pullSet {ag : Agent F} {keys : List Int} {id : Int} :
    id ∈ ag.pullSet keys ↔
      ∃ k ∈ keys, ag.partition.ownerId ag.serverIds (ag.partition.slot k) = id := by
  rw [pullSet, Lists.mem_foldl_insert, List.mem_map]
  simp only [List.not_mem_nil, false_or, Partition.mem_slotsOf]
  constructor
  · rintro ⟨s, ⟨k, hk, rfl⟩, h⟩
    exact ⟨k, hk, h⟩
  · rintro ⟨k, hk, h⟩
    exact ⟨_, ⟨k, hk, rfl⟩, h⟩

theorem nodup_pullSet (ag : Agent F) (keys : List Int) : (ag.pullSet keys).Nodup :=
  Lists.nodup_foldl_insert _ _ List.nodup_nil

/-- **What a pull sends**: to the owner of every slot that has a key the keys of that slot. -/
theorem sendPull_eq {ag : Agent F} (hr : ag.CanRoute) (hnonneg : 0 ≤ ag.parameters.size)
    (hle : ag.parameters.size ≤ 100)
    (hin : ∀ k ∈ ag.parameters.usedKeys, ag.partition.InRange k) :
    ∃ g : Shmstruct F, ag.sendPull = .ok (⟨{ ag with parameters := { g with size := 0 } },
        ag.pullSet ag.parameters.usedKeys, 0⟩,
        (ag.partition.slotsOf ag.parameters.usedKeys).map (ag.pullPart g.usedKeys)) ∧
      g.usedKeys.Perm ag.parameters.usedKeys := by
  obtain ⟨g, hsort, hsize, hused⟩ := Shmstruct.sortKeys_ok hnonneg hle
  have hkeys : g.usedKeys.Perm ag.parameters.usedKeys := by
    rw [hused]
    exact List.perm_insertionSort _ _
  have hsorted : g.usedKeys.Pairwise (· ≤ ·) := by
    rw [hused]
    exact List.pairwise_insertionSort _ _
  have hlen : g.usedKeys.length = g.size.toNat := by
    rw [← g.map_fst_pairs, List.length_map, g.length_pairs (hsize ▸ hle)]
  have hsplit := Partition.splitKeys_eq hr.ordered hr.length_ids hsorted fun k hk ↦
    hin k (hkeys.mem_iff.1 hk)
  refine ⟨g, ?_, hkeys⟩
  rw [sendPull, hsort, Checked.ok_bind, ← hlen, hsplit, Checked.ok_bind,
    ag.partition.slotsOf_perm hkeys, List.map_map, List.foldl_map, pullSet, List.foldl_map]
  refine congrArg (fun l ↦ Except.ok (_, l)) (List.map_congr_left fun s _ ↦ ?_)
  exact pullMessage_blockOf (hsize ▸ hle) hsorted s

end Agent

end Rpscc
