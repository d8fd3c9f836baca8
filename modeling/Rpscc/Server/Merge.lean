import Rpscc.Server.Serve

/-!
# What one round does to the parameters

`UpdateParameter` runs two loops over vectors.  When every key of the round lies inside the range
of the server neither loop can fault, and the result is a pure function of the parameters and of
the updates in the order of the agents' indices: `mergeRound`.  No law of the float operations is
used to say so, so the order in which the agents' updates are added is part of the result.
-/

set_option autoImplicit false

namespace Rpscc

variable {F : Type}

/-- Every key of the update lies in the range of the server. -/
def Server.Owns (s : Server F) (keys : List Int) : Prop :=
  ∀ k ∈ keys, s.startKey ≤ k ∧ k < s.startKey + s.parameterLength

namespace Server

/-- The values of the parameters a list of keys names. -/
def valuesAt [FloatOps F] (s : Server F) (keys : List Int) : List F :=
  keys.map fun k ↦ (s.parameters[(k - s.startKey).toNat]?).getD FloatOps.zero

variable [FloatOps F]

/-- `update[key - start_key_] += value`. -/
def addPair (startKey : Int) (update : List F) (p : Int × F) : List F :=
  update.modify (p.1 - startKey).toNat fun x ↦ FloatOps.add x p.2

/-- `update` with all the pairs of one agent's update added in. -/
def addAll (startKey : Int) (update : List F) (u : KeyValueList F) : List F :=
  u.foldl (addPair startKey) update

/-- The parameters after one round: the updates are added up in the given order, and their mean is
added to the parameters. -/
def mergeRound (s : Server F) (parameters : List F) (updates : List (KeyValueList F)) : List F :=
  List.zipWith (fun x y ↦ FloatOps.add x (FloatOps.div y (FloatOps.ofInt s.agentNum))) parameters
    (updates.foldl (addAll s.startKey) (List.replicate s.parameterLength.toNat FloatOps.zero))

@[simp] theorem length_addAll (startKey : Int) (u : KeyValueList F) :
    ∀ update : List F, (addAll startKey update u).length = update.length := by
  induction u with
  | nil => intro update; rfl
  | cons p u ih =>
    intro update
    rw [addAll, List.foldl_cons]
    exact (ih _).trans (List.length_modify ..)

@[simp, grind =] theorem length_foldl_addAll (startKey : Int) (us : List (KeyValueList F)) :
    ∀ update : List F, (us.foldl (addAll startKey) update).length = update.length := by
  induction us with
  | nil => intro update; rfl
  | cons u us ih =>
    intro update
    rw [List.foldl_cons, ih, length_addAll]

theorem length_mergeRound (s : Server F) {parameters : List F} (us : List (KeyValueList F))
    (h : parameters.length = s.parameterLength.toNat) :
    (s.mergeRound parameters us).length = s.parameterLength.toNat := by
  rw [mergeRound, List.length_zipWith, length_foldl_addAll, List.length_replicate, h, min_self]

theorem addPairs_eq {startKey : Int} {u : KeyValueList F} :
    ∀ {update : List F}, (∀ p ∈ u, startKey ≤ p.1 ∧ p.1 - startKey < update.length) →
      addPairs startKey u update = .ok (addAll startKey update u) := by
  induction u with
  | nil => intro update _; rfl
  | cons p u ih =>
    intro update h
    obtain ⟨hlo, hhi⟩ := h p (List.mem_cons_self ..)
    have hlt : (p.1 - startKey).toNat < update.length := by omega
    have hget : Checked.get update (p.1 - startKey) = .ok update[(p.1 - startKey).toNat] :=
      Checked.get_eq_ok_iff.2 ⟨by omega, List.getElem?_eq_getElem hlt⟩
    have hset : update.set (p.1 - startKey).toNat
        (FloatOps.add update[(p.1 - startKey).toNat] p.2) = addPair startKey update p := by
      rw [addPair, List.modify_eq_set_getElem?, List.getElem?_eq_getElem hlt]
      rfl
    rw [addPairs, hget, Checked.ok_bind, hset, ih]
    · rfl
    · intro q hq
      rw [addPair, List.length_modify]
      exact h q (List.mem_cons_of_mem _ hq)

/-- The first loop of `UpdateParameter`, when every agent has an update to take and every key is
in range: the queues lose their fronts, and the fronts are added up. -/
theorem takeFronts_eq {startKey : Int} {α : Type} {f : α → List (KeyValueList F)} {ids : List α} :
    ∀ update : List F, (∀ a ∈ ids, f a ≠ []) →
      (∀ a ∈ ids, ∀ u ∈ f a, ∀ p ∈ u, startKey ≤ p.1 ∧ p.1 - startKey < update.length) →
      takeFronts startKey ids.length (ids.map f) update
        = .ok (ids.map fun a ↦ (f a).tail,
            (ids.filterMap fun a ↦ (f a).head?).foldl (addAll startKey) update) := by
  induction ids with
  | nil => intro update _ _; rfl
  | cons a ids ih =>
    intro update hne hin
    obtain ⟨u, q, hq⟩ := List.exists_cons_of_ne_nil (hne a (List.mem_cons_self ..))
    have hu : addPairs startKey u update = .ok (addAll startKey update u) :=
      addPairs_eq (hin a (List.mem_cons_self ..) u (by rw [hq]; exact List.mem_cons_self ..))
    have hrest := ih (addAll startKey update u)
      (fun b hb ↦ hne b (List.mem_cons_of_mem _ hb))
      (fun b hb ↦ by rw [length_addAll]; exact hin b (List.mem_cons_of_mem _ hb))
    rw [List.map_cons, hq, List.length_cons, takeFronts, hu, Checked.ok_bind, hrest,
      Checked.ok_bind, List.map_cons, List.filterMap_cons, hq]
    rfl

theorem addUpdate_eq (agentNum : Int) : ∀ {parameters update : List F},
    parameters.length = update.length → addUpdate agentNum parameters update
      = .ok (List.zipWith (fun x y ↦ FloatOps.add x (FloatOps.div y (FloatOps.ofInt agentNum)))
          parameters update)
  | [], [], _ => rfl
  | x :: parameters, y :: update, h => by
    rw [addUpdate, addUpdate_eq agentNum (by simpa using h), Checked.ok_bind]
    rfl

/-- **`UpdateParameter` merges a complete round.** -/
theorem updateParameter_eq {s : Server F} (ids : List Int) (f : Int → List (KeyValueList F))
    (hbuf : s.versionBuffer = ids.map f) (hnum : s.agentNum = ids.length)
    (hlen : s.parameters.length = s.parameterLength.toNat) (hne : ∀ a ∈ ids, f a ≠ [])
    (hin : ∀ a ∈ ids, ∀ u ∈ f a, s.Owns (u.map Prod.fst)) :
    s.updateParameter = .ok { s with
      versionBuffer := ids.map fun a ↦ (f a).tail
      parameters := s.mergeRound s.parameters (ids.filterMap fun a ↦ (f a).head?)
      bottomVersion := s.bottomVersion + 1 } := by
  have hrange : ∀ a ∈ ids, ∀ u ∈ f a, ∀ p ∈ u, s.startKey ≤ p.1 ∧ p.1 - s.startKey
      < (List.replicate s.parameterLength.toNat (FloatOps.zero : F)).length := by
    intro a ha u hu p hp
    have hp' := hin a ha u hu p.1 (List.mem_map_of_mem hp)
    rw [List.length_replicate]
    omega
  rw [updateParameter, hbuf, hnum, Int.toNat_natCast, takeFronts_eq _ hne hrange, Checked.ok_bind,
    addUpdate_eq, Checked.ok_bind, mergeRound, hnum]
  rw [length_foldl_addAll, List.length_replicate, hlen]

/-! ## One parameter

What a round does to the parameter of one key depends on nothing but what the updates hold for that
key.  So servers with different ranges agree on the keys they share. -/

omit [FloatOps F] in
/-- The values an update holds for one key, in order. -/
def valuesFor (key : Int) (u : KeyValueList F) : List F :=
  (u.filter fun e ↦ e.1 = key).map Prod.snd

theorem getElem?_addAll {startKey key : Int} (hkey : startKey ≤ key) {u : KeyValueList F} :
    ∀ {update : List F}, (∀ e ∈ u, startKey ≤ e.1) →
      (addAll startKey update u)[(key - startKey).toNat]?
        = (update[(key - startKey).toNat]?).map fun x ↦ (valuesFor key u).foldl FloatOps.add x := by
  induction u with
  | nil => intro update _; simp [addAll, valuesFor]
  | cons e u ih =>
    intro update h
    have hlo := h e (List.mem_cons_self ..)
    rw [addAll, List.foldl_cons]
    refine (ih fun d hd ↦ h d (List.mem_cons_of_mem _ hd)).trans ?_
    rw [addPair, List.getElem?_modify, valuesFor, valuesFor, List.filter_cons]
    by_cases hek : e.1 = key
    · rw [hek]
      simp [Function.comp_def]
    · have hne : (e.1 - startKey).toNat ≠ (key - startKey).toNat := by omega
      simp [hek, hne]

theorem getElem?_foldl_addAll {startKey key : Int} (hkey : startKey ≤ key)
    {us : List (KeyValueList F)} :
    ∀ {update : List F}, (∀ u ∈ us, ∀ e ∈ u, startKey ≤ e.1) →
      (us.foldl (addAll startKey) update)[(key - startKey).toNat]?
        = (update[(key - startKey).toNat]?).map fun x ↦
            (us.flatMap (valuesFor key)).foldl FloatOps.add x := by
  induction us with
  | nil => intro update _; simp
  | cons u us ih =>
    intro update h
    rw [List.foldl_cons, ih fun v hv ↦ h v (List.mem_cons_of_mem _ hv),
      getElem?_addAll hkey (h u (List.mem_cons_self ..)), Option.map_map, List.flatMap_cons]
    simp only [Function.comp_def, List.foldl_append]

/-- **What a round does to one parameter.** -/
theorem getElem?_mergeRound {s : Server F} {key : Int} (hkey : s.Owns [key])
    {us : List (KeyValueList F)} (hus : ∀ u ∈ us, s.Owns (u.map Prod.fst)) (parameters : List F) :
    (s.mergeRound parameters us)[(key - s.startKey).toNat]?
      = (parameters[(key - s.startKey).toNat]?).map fun x ↦ FloatOps.add x (FloatOps.div
          ((us.flatMap (valuesFor key)).foldl FloatOps.add FloatOps.zero)
          (FloatOps.ofInt s.agentNum)) := by
  obtain ⟨hlo, hhi⟩ := hkey key (List.mem_singleton_self key)
  have hlt : (key - s.startKey).toNat < s.parameterLength.toNat := by omega
  have hus' : ∀ u ∈ us, ∀ e ∈ u, s.startKey ≤ e.1 := fun u hu e he ↦
    (hus u hu e.1 (List.mem_map_of_mem he)).1
  rw [mergeRound, List.getElem?_zipWith, getElem?_foldl_addAll hlo hus',
    List.getElem?_replicate_of_lt hlt]
  cases parameters[(key - s.startKey).toNat]? <;> rfl

/-! ## Reading values -/

theorem get_parameters {s : Server F} (hlen : s.parameters.length = s.parameterLength.toNat)
    {k : Int} (hk : s.startKey ≤ k ∧ k < s.startKey + s.parameterLength) :
    Checked.get s.parameters (k - s.startKey)
      = .ok ((s.parameters[(k - s.startKey).toNat]?).getD FloatOps.zero) := by
  have hlt : (k - s.startKey).toNat < s.parameters.length := by omega
  rw [Checked.get_eq_ok_iff, List.getElem?_eq_getElem hlt]
  exact ⟨by omega, rfl⟩

/-- The values read for a blocked pull and for a pull answered at once are the same. -/
theorem blockedValues_eq {s : Server F} (hlen : s.parameters.length = s.parameterLength.toNat)
    {keys : List Int} (hk : s.Owns keys) : s.blockedValues keys = .ok (s.valuesAt keys) :=
  Checked.mapM_ok fun k hk' ↦ get_parameters hlen (hk k hk')

theorem pullValues_eq {s : Server F} (hlen : s.parameters.length = s.parameterLength.toNat)
    {keys : List Int} (hk : s.Owns keys) : s.pullValues keys = .ok (s.valuesAt keys) := by
  refine Checked.mapM_ok fun k hk' ↦ ?_
  have hk := hk k hk'
  show Checked.get s.parameters (if k - s.startKey < 0 then _ else _) = _
  rw [if_neg (by omega)]
  exact get_parameters hlen hk

end Server

end Rpscc
