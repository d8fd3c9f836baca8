import Mathlib.Data.List.Nodup
import Mathlib.Data.List.Sort
import Mathlib.Order.Lattice
import Mathlib.Tactic.Common

/-!
# Ordered maps

`SortedMap κ υ` is `std::map`: its entries in the order of their keys, which are pairwise distinct.
`insertNew` is `insert`, which leaves an entry that is already there alone, and `ofList` inserts
the pairs of a list one after the other.  Going through the entries of a map sorts the pairs that
were inserted; none is lost as long as their keys differ (`ofList_perm`).
-/

set_option autoImplicit false

universe u v

/-- A finite map, as its entries in ascending order of the keys. -/
structure SortedMap (κ : Type u) (υ : Type v) [LinearOrder κ] where
  entries : List (κ × υ)
  sorted : (entries.map Prod.fst).Pairwise (· < ·)

namespace SortedMap

variable {κ : Type u} {υ : Type v} [LinearOrder κ]

/-- Put an entry where it belongs, unless its key is there already. -/
def insertEntry (k : κ) (x : υ) : List (κ × υ) → List (κ × υ)
  | [] => [(k, x)]
  | e :: es =>
    if k < e.1 then (k, x) :: e :: es else if k = e.1 then e :: es else e :: insertEntry k x es

@[simp, grind =] theorem mem_keys_insertEntry {k : κ} {x : υ} {es : List (κ × υ)} {j : κ} :
    j ∈ (insertEntry k x es).map Prod.fst ↔ j = k ∨ j ∈ es.map Prod.fst := by
  induction es with
  | nil => simp [insertEntry]
  | cons e es ih =>
    rw [insertEntry]
    split
    · rw [List.map_cons, List.mem_cons]
    · split
      · rename_i heq
        rw [List.map_cons, List.mem_cons, ← heq]
        tauto
      · rw [List.map_cons, List.mem_cons, ih, List.map_cons, List.mem_cons]
        tauto

theorem pairwise_insertEntry {k : κ} {x : υ} {es : List (κ × υ)}
    (h : (es.map Prod.fst).Pairwise (· < ·)) :
    ((insertEntry k x es).map Prod.fst).Pairwise (· < ·) := by
  induction es with
  | nil => simp [insertEntry]
  | cons e es ih =>
    rw [List.map_cons, List.pairwise_cons] at h
    rw [insertEntry]
    split
    · rename_i hlt
      rw [List.map_cons, List.pairwise_cons, List.map_cons, List.pairwise_cons]
      refine ⟨fun j hj ↦ ?_, h⟩
      rcases List.mem_cons.1 hj with rfl | hj
      · exact hlt
      · exact lt_trans hlt (h.1 j hj)
    · split
      · rwa [List.map_cons, List.pairwise_cons]
      · rename_i hnlt hne
        rw [List.map_cons, List.pairwise_cons]
        refine ⟨fun j hj ↦ ?_, ih h.2⟩
        rcases mem_keys_insertEntry.1 hj with rfl | hj
        · exact lt_of_le_of_ne (not_lt.1 hnlt) fun h ↦ hne h.symm
        · exact h.1 j hj

theorem mem_insertEntry {k : κ} {x : υ} {es : List (κ × υ)} {e : κ × υ}
    (h : e ∈ insertEntry k x es) : e = (k, x) ∨ e ∈ es := by
  induction es with
  | nil => exact .inl (List.mem_singleton.1 h)
  | cons a es ih =>
    rw [insertEntry] at h
    split at h
    · exact List.mem_cons.1 h
    · split at h
      · exact .inr h
      · rcases List.mem_cons.1 h with rfl | h
        · exact .inr List.mem_cons_self
        · exact (ih h).imp_right (List.mem_cons_of_mem _)

theorem insertEntry_of_mem {k : κ} (x : υ) {es : List (κ × υ)}
    (hes : (es.map Prod.fst).Pairwise (· < ·)) (hk : k ∈ es.map Prod.fst) :
    insertEntry k x es = es := by
  induction es with
  | nil => exact absurd hk List.not_mem_nil
  | cons e es ih =>
    rw [List.map_cons, List.pairwise_cons] at hes
    rw [List.map_cons, List.mem_cons] at hk
    rw [insertEntry]
    rcases hk with rfl | hk
    · rw [if_neg (lt_irrefl _), if_pos rfl]
    · have hlt := hes.1 k hk
      rw [if_neg hlt.asymm, if_neg hlt.ne', ih hes.2 hk]

theorem insertEntry_perm {k : κ} {x : υ} {es : List (κ × υ)} (hk : k ∉ es.map Prod.fst) :
    (insertEntry k x es).Perm ((k, x) :: es) := by
  induction es with
  | nil => rfl
  | cons e es ih =>
    rw [List.map_cons, List.mem_cons, not_or] at hk
    rw [insertEntry]
    split
    · rfl
    · rw [if_neg hk.1]
      exact ((ih hk.2).cons e).trans (List.Perm.swap _ _ _)

/-- The map without entries. -/
def empty : SortedMap κ υ := ⟨[], List.Pairwise.nil⟩

/-- `insert` of `std::map`. -/
def insertNew (m : SortedMap κ υ) (e : κ × υ) : SortedMap κ υ :=
  ⟨insertEntry e.1 e.2 m.entries, pairwise_insertEntry m.sorted⟩

/-- Insert the pairs of a list, the first one first. -/
def ofList (es : List (κ × υ)) : SortedMap κ υ := es.foldl insertNew empty

theorem insertNew_of_mem {m : SortedMap κ υ} {e : κ × υ} (h : e.1 ∈ m.entries.map Prod.fst) :
    m.insertNew e = m := by
  cases m with
  | mk es hes => simp only [insertNew, insertEntry_of_mem e.2 hes h]

theorem mem_foldl_insertNew {e : κ × υ} : ∀ {es : List (κ × υ)} {m : SortedMap κ υ},
    e ∈ (es.foldl insertNew m).entries → e ∈ m.entries ∨ e ∈ es
  | [], _, h => .inl h
  | a :: es, m, h => by
    rw [List.foldl_cons] at h
    rcases mem_foldl_insertNew h with h | h
    · rcases mem_insertEntry h with rfl | h
      · exact .inr List.mem_cons_self
      · exact .inl h
    · exact .inr (List.mem_cons_of_mem _ h)

/-- Every entry has been inserted. -/
theorem mem_of_mem_ofList {es : List (κ × υ)} {e : κ × υ} (h : e ∈ (ofList es).entries) : e ∈ es :=
  (mem_foldl_insertNew h).resolve_left List.not_mem_nil

@[simp] theorem mem_keys_foldl_insertNew {j : κ} : ∀ {es : List (κ × υ)} {m : SortedMap κ υ},
    j ∈ (es.foldl insertNew m).entries.map Prod.fst ↔
      j ∈ m.entries.map Prod.fst ∨ j ∈ es.map Prod.fst
  | [], _ => by simp
  | a :: es, m => by
    rw [List.foldl_cons, mem_keys_foldl_insertNew, insertNew, mem_keys_insertEntry, List.map_cons,
      List.mem_cons]
    tauto

/-- Every key that has been inserted is there. -/
@[simp, grind =] theorem mem_keys_ofList {es : List (κ × υ)} {j : κ} :
    j ∈ (ofList es).entries.map Prod.fst ↔ j ∈ es.map Prod.fst := by
  rw [ofList, mem_keys_foldl_insertNew]
  exact or_iff_right List.not_mem_nil

theorem foldl_insertNew_of_mem : ∀ {es : List (κ × υ)} {m : SortedMap κ υ},
    (∀ e ∈ es, e.1 ∈ m.entries.map Prod.fst) → es.foldl insertNew m = m
  | [], _, _ => rfl
  | a :: es, m, h => by
    rw [List.forall_mem_cons] at h
    rw [List.foldl_cons, insertNew_of_mem h.1, foldl_insertNew_of_mem h.2]

/-- Pairs whose keys have been there before are not inserted. -/
theorem ofList_append {es rest : List (κ × υ)} (h : ∀ e ∈ rest, e.1 ∈ es.map Prod.fst) :
    ofList (es ++ rest) = ofList es := by
  rw [ofList, List.foldl_append]
  exact foldl_insertNew_of_mem fun e he ↦ mem_keys_ofList.2 (h e he)

theorem foldl_insertNew_perm (es : List (κ × υ)) :
    ∀ m : SortedMap κ υ, ((m.entries ++ es).map Prod.fst).Nodup →
      (es.foldl insertNew m).entries.Perm (m.entries ++ es) := by
  induction es with
  | nil =>
    intro m _
    rw [List.foldl_nil, List.append_nil]
  | cons e es ih =>
    intro m hnd
    have hmid : (m.entries ++ e :: es).Perm (e :: m.entries ++ es) := List.perm_middle
    have hnd' : ((e :: m.entries ++ es).map Prod.fst).Nodup := (hmid.map Prod.fst).nodup hnd
    have hk : e.1 ∉ m.entries.map Prod.fst := by
      rw [List.cons_append, List.map_cons, List.nodup_cons, List.map_append] at hnd'
      exact fun h ↦ hnd'.1 (List.mem_append_left _ h)
    have hins : ((m.insertNew e).entries ++ es).Perm (e :: m.entries ++ es) :=
      (insertEntry_perm hk).append_right es
    rw [List.foldl_cons]
    exact (ih _ ((hins.map Prod.fst).nodup_iff.2 hnd')).trans (hins.trans hmid.symm)

/-- Pairs with distinct keys are all inserted. -/
theorem ofList_perm {es : List (κ × υ)} (h : (es.map Prod.fst).Nodup) :
    (ofList es).entries.Perm es :=
  foldl_insertNew_perm es empty h

end SortedMap
