import Mathlib.Data.List.Nodup
import Mathlib.Data.List.Perm.Subperm
import Mathlib.Logic.Function.Basic
import Mathlib.Tactic.Common

/-!
# Lists as vectors, deques, sets and maps

A container that holds one element for each of a list of names is the list of names mapped, and a
deque that is described by a formula is a range mapped.  The lemmas here say what writing one
element, or shifting the deque, does to the function that is mapped.  A set that is filled element
by element is a list into which each is inserted unless it is there.  A list of entries with
distinct keys is a map.  A list that is sorted into bins still has all its elements.
-/

set_option autoImplicit false

universe u v

namespace Lists

/-! ## Lists indexed by a list of names -/

theorem map_set_idxOf {α : Type u} {β : Type v} [DecidableEq α] {ids : List α} (hnd : ids.Nodup)
    (a : α)
    (f : α → β) (v : β) :
    (ids.map f).set (ids.idxOf a) v = ids.map (Function.update f a v) := by
  refine List.ext_getElem (by simp) fun i h1 h2 ↦ ?_
  simp only [List.length_set, List.length_map] at h1
  rw [List.getElem_set, List.getElem_map, List.getElem_map]
  by_cases hi : ids.idxOf a = i
  · subst hi
    rw [if_pos rfl, List.getElem_idxOf, Function.update_self]
  · rw [if_neg hi, Function.update_of_ne]
    intro heq
    rw [← heq, hnd.idxOf_getElem i h1] at hi
    exact hi rfl

theorem getElem?_map_idxOf {α : Type u} {β : Type v} [DecidableEq α] {ids : List α} {a : α}
    (ha : a ∈ ids)
    (f : α → β) : (ids.map f)[ids.idxOf a]? = some (f a) := by
  rw [List.getElem?_map, List.getElem?_eq_getElem (List.idxOf_lt_length_of_mem ha),
    List.getElem_idxOf, Option.map_some]

/-- Writing one entry of a tabulated deque. -/
theorem map_range_set {β : Type v} (f : ℕ → β) {n j : ℕ} (hj : j < n) (v : β) :
    ((List.range n).map f).set j v = (List.range n).map (Function.update f j v) := by
  have hidx : (List.range n).idxOf j = j := by
    have h := (List.nodup_range (n := n)).idxOf_getElem j (by simpa using hj)
    rwa [List.getElem_range] at h
  have h := map_set_idxOf (List.nodup_range (n := n)) j f v
  rwa [hidx] at h

/-- `pop_front` and `push_back` on a tabulated deque. -/
theorem tail_append_map_range {β : Type v} (f g : ℕ → β) {n : ℕ} (hn : 0 < n)
    (hf : ∀ j, j + 1 < n → g j = f (j + 1)) :
    ((List.range n).map f).tail ++ [g (n - 1)] = (List.range n).map g := by
  obtain ⟨m, rfl⟩ : ∃ m, n = m + 1 := ⟨n - 1, by omega⟩
  have h1 : ((List.range (m + 1)).map f).tail = (List.range m).map g := by
    rw [List.range_succ_eq_map, List.map_cons, List.tail_cons, List.map_map]
    refine List.map_congr_left fun j hj ↦ ?_
    exact (hf j (by have := List.mem_range.1 hj; omega)).symm
  rw [h1, List.range_succ, List.map_append]
  rfl

/-- Reading a vector from its beginning to its end. -/
@[simp] theorem filterMap_range_getElem? {α : Type u} (l : List α) :
    ((List.range l.length).filterMap fun i ↦ l[i]?) = l := by
  induction l with
  | nil => rfl
  | cons a l ih =>
    rw [List.length_cons, List.range_succ_eq_map, List.filterMap_cons, List.filterMap_map]
    exact congrArg (a :: ·) ih

theorem zip_take {α : Type u} {β : Type v} : ∀ (as : List α) (bs : List β) (m : ℕ),
    (as.take m).zip bs = (as.zip bs).take m
  | [], bs, m => by simp
  | a :: as, [], m => by simp
  | a :: as, b :: bs, 0 => by simp
  | a :: as, b :: bs, m + 1 => by simp [zip_take as bs m]

/-- Two vectors that run in step, and lose the same element. -/
theorem zip_eraseIdx {α : Type u} {β : Type v} : ∀ (as : List α) (bs : List β) (i : ℕ),
    (as.eraseIdx i).zip (bs.eraseIdx i) = (as.zip bs).eraseIdx i
  | [], bs, i => by simp
  | a :: as, [], i => by simp
  | a :: as, b :: bs, 0 => by simp
  | a :: as, b :: bs, i + 1 => by simp [zip_eraseIdx as bs i]

/-- The map that gives everyone on a list its place there. -/
def placesOf {α : Type u} [DecidableEq α] (ids : List α) (a : α) : Option Int :=
  if a ∈ ids then some (ids.idxOf a : Int) else none

@[simp] theorem placesOf_eq_some {α : Type u} [DecidableEq α] {ids : List α} {a : α} {k : Int} :
    placesOf ids a = some k ↔ a ∈ ids ∧ k = ids.idxOf a := by
  rw [placesOf]
  split
  · rename_i ha
    rw [Option.some.injEq, and_iff_right ha]
    exact eq_comm
  · rename_i ha
    simp [ha]

theorem placesOf_concat {α : Type u} [DecidableEq α] {ids : List α} {id : α} (h : id ∉ ids) :
    placesOf (ids ++ [id]) = Function.update (placesOf ids) id (some (ids.length : Int)) := by
  funext a
  by_cases ha : a = id
  · subst ha
    rw [Function.update_self, placesOf,
      if_pos (List.mem_append_right _ (List.mem_singleton_self a)),
      List.idxOf_append_of_notMem h, List.idxOf_cons_self, Nat.add_zero]
  · rw [Function.update_of_ne ha, placesOf, placesOf]
    by_cases hmem : a ∈ ids
    · rw [if_pos hmem, if_pos (List.mem_append_left _ hmem), List.idxOf_append_of_mem hmem]
    · rw [if_neg hmem, if_neg]
      simp [hmem, ha]

/-- In a list without repetitions, nobody is before its place. -/
theorem getElem_notMem_take {α : Type u} {ids : List α} (hnd : ids.Nodup) {i : ℕ}
    (hi : i < ids.length) : ids[i] ∉ ids.take i := by
  intro htake
  have hdrop : ids[i] ∈ ids.drop i := by
    rw [List.drop_eq_getElem_cons hi]
    exact List.mem_cons_self ..
  exact List.disjoint_take_drop hnd (Nat.le_refl i) htake hdrop

/-- If everyone on a list has a place of its own below its length, no place is free. -/
theorem exists_mem_eq {α : Type u} {l : List α} (hnd : l.Nodup) {f : α → ℕ}
    (hlt : ∀ a ∈ l, f a < l.length) (hinj : ∀ a ∈ l, ∀ b ∈ l, f a = f b → a = b) {k : ℕ}
    (hk : k < l.length) : ∃ a ∈ l, f a = k := by
  have hmap : (l.map f).Nodup := hnd.map_on hinj
  have hsub : l.map f ⊆ List.range l.length := by
    intro n hn
    obtain ⟨a, ha, rfl⟩ := List.mem_map.1 hn
    exact List.mem_range.2 (hlt a ha)
  have hperm := (List.subperm_of_subset hmap hsub).perm_of_length_le (by simp)
  exact List.mem_map.1 (hperm.mem_iff.2 (List.mem_range.2 hk))

/-! ## Lists as sets -/

@[simp, grind =] theorem mem_foldl_insert {α : Type u} [DecidableEq α] (l : List α) :
    ∀ (set : List α) (a : α), a ∈ l.foldl (fun set b ↦ set.insert b) set ↔ a ∈ set ∨ a ∈ l := by
  induction l with
  | nil => simp
  | cons b l ih =>
    intro set a
    rw [List.foldl_cons, ih, List.mem_insert_iff, List.mem_cons]
    tauto

theorem nodup_foldl_insert {α : Type u} [DecidableEq α] (l : List α) :
    ∀ set : List α, set.Nodup → (l.foldl (fun set b ↦ set.insert b) set).Nodup := by
  induction l with
  | nil => exact fun set h ↦ h
  | cons b l ih => exact fun set h ↦ ih _ (h.insert)

/-! ## Lists as maps -/

/-- A list with distinct keys has at most one entry for a key, so its order does not matter to what
it holds for that key. -/
theorem filter_eq_of_perm {α : Type u} {β : Type v} [DecidableEq β] {f : α → β} {l l' : List α}
    (h : l.Perm l') (hnd : (l'.map f).Nodup) (b : β) :
    (l.filter fun a ↦ f a = b) = l'.filter fun a ↦ f a = b := by
  have hperm := h.filter fun a ↦ f a = b
  have hle : (l'.filter fun a ↦ f a = b).length ≤ 1 := by
    have hcount := List.nodup_iff_count_le_one.1 hnd b
    rw [List.count_eq_countP, List.countP_map, List.countP_eq_length_filter] at hcount
    simpa only [Function.comp_def, beq_eq_decide] using hcount
  generalize (l'.filter fun a ↦ f a = b) = r at hperm hle
  match r, hle with
  | [], _ => exact List.perm_nil.1 hperm
  | [a], _ => exact List.perm_singleton.1 hperm

/-- `m[k] = x`. -/
def assign {κ : Type u} {υ : Type v} [DecidableEq κ] (m : List (κ × υ)) (k : κ) (x : υ) :
    List (κ × υ) :=
  if k ∈ m.map Prod.fst then m.map fun e ↦ if e.1 = k then (k, x) else e else m ++ [(k, x)]

@[simp, grind =]
theorem mem_assign {κ : Type u} {υ : Type v} [DecidableEq κ] {m : List (κ × υ)} {k : κ} {x : υ}
    {e : κ × υ} : e ∈ assign m k x ↔ e = (k, x) ∨ e.1 ≠ k ∧ e ∈ m := by
  rw [assign]
  split
  · rename_i hk
    obtain ⟨d, hd, rfl⟩ := List.mem_map.1 hk
    rw [List.mem_map]
    constructor
    · rintro ⟨c, hc, rfl⟩
      split
      · exact .inl rfl
      · rename_i hne
        exact .inr ⟨hne, hc⟩
    · rintro (rfl | ⟨hne, he⟩)
      · exact ⟨d, hd, if_pos rfl⟩
      · exact ⟨e, he, if_neg hne⟩
  · rename_i hk
    rw [List.mem_append, List.mem_singleton]
    constructor
    · rintro (he | rfl)
      · exact .inr ⟨fun heq ↦ hk (heq ▸ List.mem_map_of_mem he), he⟩
      · exact .inl rfl
    · rintro (rfl | ⟨-, he⟩)
      · exact .inr rfl
      · exact .inl he

theorem assign_ne_nil {κ : Type u} {υ : Type v} [DecidableEq κ] {m : List (κ × υ)} {k : κ} {x : υ} :
    assign m k x ≠ [] :=
  List.ne_nil_of_mem (mem_assign.2 (.inl rfl))

/-- A new key goes to the end. -/
theorem assign_of_not_mem {κ : Type u} {υ : Type v} [DecidableEq κ] {m : List (κ × υ)} {k : κ}
    (h : k ∉ m.map Prod.fst) (x : υ) : assign m k x = m ++ [(k, x)] := by
  rw [assign, if_neg h]

/-- An assignment keeps the keys distinct. -/
theorem nodup_keys_assign {κ : Type u} {υ : Type v} [DecidableEq κ] {m : List (κ × υ)} {k : κ}
    (h : (m.map Prod.fst).Nodup) (x : υ) : ((assign m k x).map Prod.fst).Nodup := by
  rw [assign]
  split
  · have hmap : ((m.map fun e ↦ if e.1 = k then (k, x) else e).map Prod.fst) = m.map Prod.fst := by
      rw [List.map_map]
      refine List.map_congr_left fun e _ ↦ ?_
      rw [Function.comp_apply]
      split
      · rename_i heq
        exact heq.symm
      · rfl
    rw [hmap]
    exact h
  · rename_i hk
    rw [List.map_append, List.map_singleton, ← List.concat_eq_append]
    exact h.concat hk

/-- What is left of a list with distinct keys is told by the keys that are left. -/
theorem eq_filter_of_sublist {α : Type u} {β : Type v} [DecidableEq β] {f : α → β} {l' l : List α}
    (h : l'.Sublist l) (hnd : (l.map f).Nodup) :
    l' = l.filter fun a ↦ decide (f a ∈ l'.map f) := by
  induction h with
  | slnil => rfl
  | @cons l₁ l₂ a hsub ih =>
    rw [List.map_cons, List.nodup_cons] at hnd
    have ha : f a ∉ l₁.map f := fun hmem ↦ hnd.1 ((hsub.map f).subset hmem)
    rw [List.filter_cons_of_neg (by simpa using ha)]
    exact ih hnd.2
  | @cons_cons l₁ l₂ a hsub ih =>
    rw [List.map_cons, List.nodup_cons] at hnd
    rw [List.filter_cons_of_pos (by simp)]
    refine congrArg (a :: ·) ((ih hnd.2).trans (List.filter_congr fun b hb ↦ ?_))
    have hne : f b ≠ f a := fun heq ↦ hnd.1 (heq ▸ List.mem_map_of_mem hb)
    simp [hne]

/-! ## Bins -/

/-- What is in one of the bins, read bin by bin. -/
theorem flatMap_filter_perm_filter {α : Type u} {β : Type v} [DecidableEq β] (f : α → β)
    (l : List α) : ∀ {bins : List β}, bins.Nodup →
      (bins.flatMap fun b ↦ l.filter fun a ↦ decide (f a = b)).Perm
        (l.filter fun a ↦ decide (f a ∈ bins))
  | [], _ => by simp
  | b :: bins, hnd => by
    rw [List.nodup_cons] at hnd
    have hhead : ((l.filter fun a ↦ decide (f a ∈ b :: bins)).filter fun a ↦ decide (f a = b))
        = l.filter fun a ↦ decide (f a = b) := by
      rw [List.filter_filter]
      refine List.filter_congr fun a _ ↦ ?_
      simp only [List.mem_cons, ← Bool.decide_and]
      exact decide_eq_decide.2 (by tauto)
    have htail : ((l.filter fun a ↦ decide (f a ∈ b :: bins)).filter fun a ↦ !decide (f a = b))
        = l.filter fun a ↦ decide (f a ∈ bins) := by
      rw [List.filter_filter]
      refine List.filter_congr fun a _ ↦ ?_
      have hne : f a ∈ bins → f a ≠ b := fun hmem heq ↦ hnd.1 (heq ▸ hmem)
      simp only [List.mem_cons, ← decide_not, ← Bool.decide_and]
      exact decide_eq_decide.2 (by tauto)
    have hsplit := List.filter_append_perm (fun a ↦ decide (f a = b))
      (l.filter fun a ↦ decide (f a ∈ b :: bins))
    rw [hhead, htail] at hsplit
    rw [List.flatMap_cons]
    exact ((flatMap_filter_perm_filter f l hnd.2).append_left _).trans hsplit

/-- Sorted into bins, every element is in one bin. -/
theorem flatMap_filter_perm {α : Type u} {β : Type v} [DecidableEq β] {f : α → β} {l : List α}
    {bins : List β} (hnd : bins.Nodup) (h : ∀ a ∈ l, f a ∈ bins) :
    (bins.flatMap fun b ↦ l.filter fun a ↦ decide (f a = b)).Perm l := by
  have hall := flatMap_filter_perm_filter f l hnd
  rwa [List.filter_eq_self.2 fun a ha ↦ decide_eq_true (h a ha)] at hall

/-- Two lists that go through a third have the same element of it at each place. -/
theorem exists_getElem?_of_isPrefix {α : Type u} {β γ : Type v} {l : List α} {f : α → β} {g : α → γ}
    {us : List β} {vs : List γ} (hus : us <+: l.map f) (hvs : vs <+: l.map g) {r : ℕ}
    (hr : r < us.length) (hr' : r < vs.length) :
    ∃ x ∈ l, us[r]? = some (f x) ∧ vs[r]? = some (g x) := by
  have hle := hus.length_le
  rw [List.length_map] at hle
  have hlen : r < l.length := Nat.lt_of_lt_of_le hr hle
  refine ⟨l[r], List.getElem_mem hlen, ?_, ?_⟩
  · rw [List.getElem?_eq_getElem hr, hus.getElem hr, List.getElem_map]
  · rw [List.getElem?_eq_getElem hr', hvs.getElem hr', List.getElem_map]

/-- Among distinct keys, a pair is what its key is looked up to. -/
theorem lookup_of_mem {κ : Type u} {υ : Type v} [DecidableEq κ] {ps : List (κ × υ)}
    (hnd : (ps.map Prod.fst).Nodup) {e : κ × υ} (he : e ∈ ps) : ps.lookup e.1 = some e.2 := by
  obtain ⟨before, after, rfl⟩ := List.append_of_mem he
  refine List.lookup_eq_some_iff.2 ⟨before, after, rfl, fun e' he' ↦ bne_iff_ne.2 fun heq ↦ ?_⟩
  rw [List.map_append, List.map_cons, List.nodup_append] at hnd
  exact hnd.2.2 _ (List.mem_map_of_mem he') _ (List.mem_cons_self ..) heq.symm

end Lists
