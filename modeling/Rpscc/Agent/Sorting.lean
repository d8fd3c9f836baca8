import Rpscc.Agent.Agent
import Rpscc.Lib.Lists

/-!
# Sorting by key

`Agent::SortKeyValue` sorts an array of keys, and an array of values with it, by way of a map from
every key to its first position.  The map has one entry for a key, so when keys repeat it has fewer
entries than there are pairs.  The entries are written over the beginning of the arrays, and what
was behind them stays.

Nobody tells the caller how many entries there were: `Push` goes on with as many pairs as before.
`sortKeyValue_keeps_iff` says for which keys that is right.  A key may repeat only if it is the
largest one and only at the end.
-/

set_option autoImplicit false

namespace Rpscc

variable {F : Type}

namespace Agent

/-- `Agent::SortKeyValue`. -/
def sortKeyValue (keys : List Int) (values : List F) (size : Int) :
    Except Fault (List Int × List F) :=
  if size < 0 then .error .lengthError
  else if (keys.length : Int) < size ∨ (values.length : Int) < size then .error .outOfRange
  else do
    let keyMap := SortedMap.ofList (keys.take size.toNat).zipIdx
    let tmpValues := values.take size.toNat
    let items ← keyMap.entries.mapM fun item ↦ do
      let value ← Checked.get tmpValues item.2
      .ok (item.1, value)
    .ok (Checked.write keys 0 (items.map Prod.fst), Checked.write values 0 (items.map Prod.snd))

/-! ## What the map holds -/

/-- Every key once, in order, with the value at its first position. -/
def firstPairs (keys : List Int) (values : List F) : List (Int × F) :=
  (SortedMap.ofList keys.zipIdx).entries.filterMap fun item ↦
    (values[item.2]?).map fun x ↦ (item.1, x)

section

variable {keys : List Int} {values : List F}

/-- Looking values up by position. -/
theorem filterMap_zipIdx (keys : List Int) (values : List F) :
    ∀ i : ℕ, ((keys.zipIdx i).filterMap fun item ↦ (values[item.2]?).map fun x ↦ (item.1, x))
      = keys.zip (values.drop i) := by
  induction keys with
  | nil => simp
  | cons k keys ih =>
    intro i
    rw [List.zipIdx_cons, List.filterMap_cons, ih (i + 1)]
    rcases Nat.lt_or_ge i values.length with hi | hi
    · rw [List.getElem?_eq_getElem hi, List.drop_eq_getElem_cons hi, List.zip_cons_cons]
      rfl
    · rw [List.getElem?_eq_none hi, List.drop_eq_nil_of_le hi, List.drop_eq_nil_of_le (by omega)]
      simp

/-- Every position the map holds is one of the arrays. -/
theorem exists_value (h : keys.length ≤ values.length) {item : Int × ℕ}
    (hitem : item ∈ (SortedMap.ofList keys.zipIdx).entries) :
    ∃ x : F, values[item.2]? = some x := by
  have hmem := List.mem_zipIdx (SortedMap.mem_of_mem_ofList hitem)
  have hlt : item.2 < values.length := by omega
  exact ⟨_, List.getElem?_eq_getElem hlt⟩

theorem map_fst_firstPairs (h : keys.length ≤ values.length) :
    (firstPairs keys values).map Prod.fst
      = (SortedMap.ofList keys.zipIdx).entries.map Prod.fst := by
  rw [firstPairs, List.map_filterMap, ← List.filterMap_eq_map]
  refine List.filterMap_congr fun item hitem ↦ ?_
  obtain ⟨x, hx⟩ := exists_value h hitem
  rw [hx]
  rfl

theorem pairwise_firstPairs (h : keys.length ≤ values.length) :
    ((firstPairs keys values).map Prod.fst).Pairwise (· < ·) := by
  rw [map_fst_firstPairs h]
  exact (SortedMap.ofList keys.zipIdx).sorted

theorem mem_firstPairs (h : keys.length ≤ values.length) {k : Int} :
    k ∈ (firstPairs keys values).map Prod.fst ↔ k ∈ keys := by
  rw [map_fst_firstPairs h, SortedMap.mem_keys_ofList, List.zipIdx_map_fst]

theorem nodup_firstPairs (h : keys.length ≤ values.length) :
    ((firstPairs keys values).map Prod.fst).Nodup :=
  (pairwise_firstPairs h).imp LT.lt.ne

theorem length_firstPairs_le (h : keys.length ≤ values.length) :
    (firstPairs keys values).length ≤ keys.length := by
  have hsub := List.subperm_of_subset (nodup_firstPairs h) fun k hk ↦ (mem_firstPairs h).1 hk
  simpa using hsub.length_le

/-- With distinct keys all the pairs are there. -/
theorem firstPairs_perm (hnd : keys.Nodup) : (firstPairs keys values).Perm (keys.zip values) := by
  have hzip := filterMap_zipIdx keys values 0
  have hperm : (SortedMap.ofList keys.zipIdx).entries.Perm keys.zipIdx :=
    SortedMap.ofList_perm (by rw [List.zipIdx_map_fst]; exact hnd)
  rw [List.drop_zero] at hzip
  rw [← hzip]
  exact hperm.filterMap _

/-- Pairs whose keys have been there before are left out. -/
theorem firstPairs_append {rest : List Int} (h : ∀ k ∈ rest, k ∈ keys) :
    firstPairs (keys ++ rest) values = firstPairs keys values := by
  have hmap : SortedMap.ofList (keys ++ rest).zipIdx = SortedMap.ofList keys.zipIdx := by
    rw [List.zipIdx_append]
    refine SortedMap.ofList_append fun e he ↦ ?_
    rw [List.zipIdx_map_fst]
    exact h e.1 (List.fst_mem_of_mem_zipIdx he)
  rw [firstPairs, hmap, firstPairs]

/-- What `SortKeyValue` reads out of its map. -/
theorem mapM_entries (h : keys.length ≤ values.length) :
    ((SortedMap.ofList keys.zipIdx).entries.mapM fun item ↦ do
      let value ← Checked.get values item.2
      Except.ok (item.1, value)) = .ok (firstPairs keys values) := by
  refine Checked.mapM_ok_filterMap fun item hitem ↦ ?_
  obtain ⟨x, hx⟩ := exists_value h hitem
  exact ⟨(item.1, x), by rw [Checked.get_natCast hx, Checked.ok_bind], by rw [hx]; rfl⟩

end

/-! ## What `SortKeyValue` keeps -/

/-- The pairs afterwards: the entries of the map, and behind them what was there before. -/
def rewritten (keys : List Int) (values : List F) : List (Int × F) :=
  firstPairs keys values ++ (keys.zip values).drop (firstPairs keys values).length

/-- The keys are distinct, but for a tail that repeats the largest of them. -/
def RepeatsLargest (keys : List Int) : Prop :=
  ∃ m, (keys.take m).Nodup ∧ ∀ k ∈ keys.drop m, k ∈ keys.take m ∧ ∀ x ∈ keys, x ≤ k

section

variable {keys : List Int} {values : List F}

theorem map_fst_rewritten (h : keys.length ≤ values.length) :
    (rewritten keys values).map Prod.fst
      = (firstPairs keys values).map Prod.fst ++ keys.drop (firstPairs keys values).length := by
  rw [rewritten, List.map_append, List.map_drop, List.map_fst_zip h]

/-- When all the pairs are there, the different keys are those at the beginning of the array.  A key
behind them is one of these, and is not less than any, since it comes last. -/
theorem repeatsLargest_of_perm (h : keys.length ≤ values.length)
    (hsorted : ((rewritten keys values).map Prod.fst).Pairwise (· ≤ ·))
    (hperm : (rewritten keys values).Perm (keys.zip values)) : RepeatsLargest keys := by
  rw [map_fst_rewritten h, List.pairwise_append] at hsorted
  have hkeys : ((firstPairs keys values).map Prod.fst).Perm
      (keys.take (firstPairs keys values).length) := by
    have hmap := hperm.map Prod.fst
    rw [map_fst_rewritten h, List.map_fst_zip h] at hmap
    refine (List.perm_append_right_iff (keys.drop (firstPairs keys values).length)).1 ?_
    rwa [List.take_append_drop]
  have hmem : ∀ x ∈ keys, x ∈ (firstPairs keys values).map Prod.fst := fun x hx ↦
    (mem_firstPairs h).2 hx
  refine ⟨_, hkeys.nodup (nodup_firstPairs h), fun k hk ↦ ⟨?_, fun x hx ↦ ?_⟩⟩
  · exact hkeys.mem_iff.1 (hmem k (List.mem_of_mem_drop hk))
  · exact hsorted.2.2 x (hmem x hx) k hk

/-- When only the largest key repeats, and at the end, the map holds the pairs before that. -/
theorem RepeatsLargest.firstPairs_perm (h : keys.length ≤ values.length)
    (hr : RepeatsLargest keys) :
    (firstPairs keys values).Perm
        ((keys.zip values).take (firstPairs keys values).length) ∧
      ∀ k ∈ keys.drop (firstPairs keys values).length, ∀ x ∈ keys, x ≤ k := by
  obtain ⟨m, hnd, hrest⟩ := hr
  have hzip : (keys.zip values).length = keys.length := by
    rw [List.length_zip]
    omega
  have hperm : (firstPairs keys values).Perm ((keys.zip values).take m) := by
    have happ : firstPairs (keys.take m ++ keys.drop m) values = firstPairs (keys.take m) values :=
      firstPairs_append fun k hk ↦ (hrest k hk).1
    rw [List.take_append_drop] at happ
    rw [happ, ← Lists.zip_take]
    exact Agent.firstPairs_perm hnd
  have hlen : (firstPairs keys values).length = min m keys.length := by
    rw [hperm.length_eq, List.length_take, hzip]
  have htake : (keys.zip values).take (min m keys.length) = (keys.zip values).take m := by
    rw [List.take_eq_take_iff, hzip]
    omega
  have hdrop : keys.drop (min m keys.length) = keys.drop m := by
    rw [List.drop_eq_drop_iff]
    omega
  rw [hlen, htake, hdrop]
  exact ⟨hperm, fun k hk ↦ (hrest k hk).2⟩

theorem RepeatsLargest.sorted_perm (h : keys.length ≤ values.length) (hr : RepeatsLargest keys) :
    ((rewritten keys values).map Prod.fst).Pairwise (· ≤ ·) ∧
      (rewritten keys values).Perm (keys.zip values) := by
  obtain ⟨hperm, hlargest⟩ := hr.firstPairs_perm h
  constructor
  · rw [map_fst_rewritten h, List.pairwise_append]
    refine ⟨(pairwise_firstPairs h).imp le_of_lt, ?_, fun x hx k hk ↦ ?_⟩
    · refine List.Pairwise.imp_of_mem (R := fun _ _ ↦ True) (fun hx hk _ ↦ ?_)
        (List.pairwise_of_forall fun _ _ ↦ trivial)
      exact hlargest _ hk _ (List.mem_of_mem_drop hx)
    · exact hlargest k hk x ((mem_firstPairs h).1 hx)
  · have happ := hperm.append_right ((keys.zip values).drop (firstPairs keys values).length)
    rwa [List.take_append_drop] at happ

variable {n : ℕ}

/-- There is a value for each of the first keys. -/
theorem length_take_le (keys : List Int) (hv : n ≤ values.length) :
    (keys.take n).length ≤ (values.take n).length := by
  rw [List.length_take, List.length_take]
  omega

theorem take_write_zero {α : Type} (xs : List α) {ys : List α} (h : ys.length ≤ n) :
    (Checked.write xs 0 ys).take n = ys ++ (xs.take n).drop ys.length := by
  rw [Checked.write, List.take_zero, List.nil_append, Nat.zero_add, List.take_append,
    List.take_of_length_le h, List.drop_take]

/-- The first entries of the arrays are written over, as many as there are different keys. -/
theorem sortKeyValue_eq (hk : n ≤ keys.length) (hv : n ≤ values.length) :
    sortKeyValue keys values n = .ok
      (Checked.write keys 0 ((firstPairs (keys.take n) (values.take n)).map Prod.fst),
        Checked.write values 0 ((firstPairs (keys.take n) (values.take n)).map Prod.snd)) := by
  have hlen := length_take_le keys hv
  rw [sortKeyValue, if_neg (by omega), if_neg (by omega), Int.toNat_natCast]
  simp only [mapM_entries hlen, Checked.ok_bind]

theorem sortKeyValue_ok (hk : n ≤ keys.length) (hv : n ≤ values.length) :
    ∃ keys' values', sortKeyValue keys values n = .ok (keys', values') ∧
      keys'.take n = (rewritten (keys.take n) (values.take n)).map Prod.fst ∧
      (keys'.zip values').take n = rewritten (keys.take n) (values.take n) := by
  have hlen := length_take_le keys hv
  have hle : (firstPairs (keys.take n) (values.take n)).length ≤ n :=
    (length_firstPairs_le hlen).trans (List.length_take_le _ _)
  refine ⟨_, _, sortKeyValue_eq hk hv, ?_, ?_⟩
  · rw [take_write_zero _ (by rwa [List.length_map]), map_fst_rewritten hlen, List.length_map]
  · rw [List.zip, List.take_zipWith, take_write_zero _ (by rwa [List.length_map]),
      take_write_zero _ (by rwa [List.length_map]), List.length_map, List.length_map, ← List.zip,
      List.zip_append (by rw [List.length_map, List.length_map]), ← List.unzip_fst,
      ← List.unzip_snd, List.zip_unzip, rewritten]
    exact congrArg _ (List.drop_zipWith ..).symm

/-- **`SortKeyValue` sorts the pairs and keeps all of them if and only if the keys are distinct, but
for a tail that repeats the largest of them.** -/
theorem sortKeyValue_keeps_iff (hk : n ≤ keys.length) (hv : n ≤ values.length) :
    ∃ keys' values', sortKeyValue keys values n = .ok (keys', values') ∧
      ((keys'.take n).Pairwise (· ≤ ·) ∧
        ((keys'.zip values').take n).Perm ((keys.zip values).take n) ↔
          RepeatsLargest (keys.take n)) := by
  have hlen := length_take_le keys hv
  obtain ⟨keys', values', hsort, hkeys, hpairs⟩ := sortKeyValue_ok hk hv
  refine ⟨keys', values', hsort, ?_⟩
  rw [hkeys, hpairs, List.zip, List.take_zipWith]
  exact ⟨fun h ↦ repeatsLargest_of_perm hlen h.1 h.2, fun hr ↦ hr.sorted_perm hlen⟩

end

/-- Of four pairs two have the largest key.  The last one stays where it is. -/
theorem sortKeyValue_keeps_iff_four : ∃ keys' values',
    sortKeyValue [3, 1, 5, 5] [30, 10, 50, 51] 4 = .ok (keys', values') ∧
      (keys'.take 4).Pairwise (· ≤ ·) ∧
      ((keys'.zip values').take 4).Perm [(3, 30), (1, 10), (5, 50), (5, (51 : Int))] := by
  have hrepeats : RepeatsLargest [3, 1, 5, 5] := ⟨3, by decide, by simp⟩
  obtain ⟨keys', values', hsort, hiff⟩ := sortKeyValue_keeps_iff (n := 4)
    (show 4 ≤ [(3 : Int), 1, 5, 5].length by decide)
    (show 4 ≤ [(30 : Int), 10, 50, 51].length by decide)
  exact ⟨keys', values', hsort, hiff.2 hrepeats⟩

/-- **Pairs are lost, and keys are out of order.**  Of two pairs with the key `1` the second is
overwritten, and the pair that was last is there twice.  When it is the key `2` that repeats, the
last key stays where it is, behind a larger one. -/
theorem repeated_keys_lost :
    sortKeyValue [1, 1, 2] [10, 11, (20 : Int)] 3 = .ok ([1, 2, 2], [10, 20, 20]) ∧
    ¬ [((1 : Int), (10 : Int)), (2, 20), (2, 20)].Perm [(1, 10), (1, 11), (2, 20)] ∧
    sortKeyValue [2, 2, 1] [20, 21, (10 : Int)] 3 = .ok ([1, 2, 1], [10, 20, 10]) ∧
    ¬ [(1 : Int), 2, 1].Pairwise (· ≤ ·) :=
  ⟨rfl, by decide, rfl, by decide⟩

end Agent

/-! ## The block of shared memory -/

namespace Shmstruct

theorem writePairs_eq (g : Shmstruct F) {start : ℕ} {ps : List (Int × F)}
    (h : start + ps.length ≤ 100) :
    ∃ g', g.writePairs start ps = .ok g' ∧ g'.size = g.size ∧
      g'.keys = Checked.write g.keys start (ps.map Prod.fst) ∧
      g'.values = Checked.write g.values start (ps.map Prod.snd) :=
  ⟨_, dif_pos h, rfl, rfl, rfl⟩

/-- A block is sorted as its two arrays are. -/
theorem sortKeyValue_arrays (g : Shmstruct F) (hnonneg : 0 ≤ g.size) (hle : g.size ≤ 100) :
    ∃ g', g.sortKeyValue = .ok g' ∧ g'.size = g.size ∧
      Agent.sortKeyValue g.keys g.values g.size = .ok (g'.keys, g'.values) := by
  have hkeys := g.length_keys
  have hvalues := g.length_values
  have hv : g.size.toNat ≤ g.values.length := by omega
  have hlen := Agent.length_take_le g.keys hv
  have harrays := Agent.sortKeyValue_eq (show g.size.toNat ≤ g.keys.length by omega) hv
  have hfirst := Agent.length_firstPairs_le hlen
  rw [List.length_take] at hfirst
  obtain ⟨g', hwrite, hsize, hkeys', hvalues'⟩ := g.writePairs_eq (show
    0 + (Agent.firstPairs (g.keys.take g.size.toNat) (g.values.take g.size.toNat)).length ≤ 100
    by omega)
  refine ⟨g', ?_, hsize, ?_⟩
  · rw [sortKeyValue, if_neg (by omega), if_neg (by omega)]
    simp only [usedKeys, Agent.mapM_entries hlen, Checked.ok_bind, hwrite]
  · rw [Int.toNat_of_nonneg hnonneg] at harrays
    rw [harrays, hkeys', hvalues']

end Shmstruct

end Rpscc
