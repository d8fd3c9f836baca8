import Rpscc.Cluster.Training

/-!
# Bounded staleness

Every step of training keeps its invariant (`TrainNet.Inv.step`), so that every state a run can
reach has it.  Two results come out of that.

* The values on the servers are those of an iteration with bounded staleness: an update of epoch `r`
  has been computed from weights that miss none of the first `r - bound + 1` rounds
  (`TrainNet.training_bounded`).
* With the bound `1` they are the values of the synchronous iteration, in which every worker waits
  for all the others in every round (`TrainNet.training_synchronous`).

Neither depends on the order in which the agents and servers take their steps, nor on how the
features are spread over the servers.
-/

set_option autoImplicit false

namespace Rpscc

variable {F : Type}

/-- A worker that does not mind the order contributes the same whatever the order. -/
theorem Plugin.Fits.contrib_congr [FloatOps F] {pl : Plugin F} {p : Partition} (h : pl.Fits p)
    (hfree : pl.IgnoresOrder) (a : Int) (r : ℕ) (f : Int → F) (ks : List Int)
    (hks : ks.Perm pl.features) (k : Int) (hk : k ∈ pl.features) :
    pl.contrib a r (ks.map fun l ↦ (l, f l)) k
      = pl.contrib a r (pl.features.map fun l ↦ (l, f l)) k := by
  have hfst : ∀ ls : List Int, (ls.map fun l ↦ (l, f l)).map Prod.fst = ls := by
    intro ls
    rw [List.map_map]
    exact List.map_id' ls
  have hkeys := h.keys a r (ks.map fun l ↦ (l, f l)) ((hfst ks).symm ▸ hks)
  have hperm := hfree a r (ks.map fun l ↦ (l, f l)) (pl.features.map fun l ↦ (l, f l))
    ((hfst ks).symm ▸ hks.nodup_iff.2 h.nodup) (hks.map _)
  have hnodup := hkeys.nodup_iff.2 h.nodup
  obtain ⟨e, he, rfl⟩ := List.mem_map.1 (hkeys.mem_iff.2 hk)
  rw [contrib, contrib, Lists.lookup_of_mem hnodup he,
    Lists.lookup_of_mem ((hperm.map _).nodup_iff.1 hnodup) (hperm.mem_iff.1 he)]

namespace TrainNet

open Server (Call waiting)
open ShardNet (share)

variable [FloatOps F]

section

variable {config : ConfigMessage} {p : Partition} {pl : Plugin F} {s₀ : ℕ → Server F}
  {n n' : TrainNet F} {i : ℕ} {id a : Int}

/-! ## The weights an agent holds -/

omit [FloatOps F] in
theorem length_received {w : Agent.Pulling F} (hcur : w.cur ≤ 100) :
    (received w).length = w.cur := by
  rw [received, List.length_take, List.length_zip, w.agent.parameters.length_keys,
    w.agent.parameters.length_values]
  omega

theorem wanted_eq (h : Shards config p s₀) (hpl : pl.Fits p) (hid : config.serverId[i]? = some id) :
    wanted p pl i
      = pl.features.filter fun k ↦ decide (p.ownerId config.serverId (p.slot k) = id) :=
  List.filter_congr fun k hk ↦ decide_eq_decide.2 (ownerId_eq_iff h hid (hpl.first_le k hk)).symm

theorem ownerId_mem (h : Shards config p s₀) (k : Int) :
    p.ownerId config.serverId (p.slot k) ∈ config.serverId := by
  obtain ⟨hnonneg, hlt⟩ := p.serverOf_bounds (p.slot_le k)
  have hnum := serverNum_eq h.servers h.same
  rw [Partition.ownerId, List.getElem?_eq_getElem (by omega)]
  exact List.getElem_mem _

/-- An agent inside `Pull` takes the answer of a server that it waits for. -/
theorem AtStation.receive (h : Shards config p s₀) (hpl : pl.Fits p) {w : Agent.Pulling F}
    (hat : AtStation config p pl n a (.pulling w)) (hid : config.serverId[i]? = some id)
    (hmem : id ∈ w.serverSet) {ks : List Int} (hks : ks.Perm (wanted p pl i)) {x : Int → F}
    (hseen : ∀ k ∈ ks, SeenAt config p n (n.issued a).length k (x k)) :
    ∃ w', w.receive (some (PullNet.answer id a ks (ks.map x))) = .ok w' ∧
      w'.serverSet = w.serverSet.erase id ∧ AtStation config p pl n a (.pulling w') := by
  cases hat with
  | pulling hag hnodup hknown hcur hkeys hvalues =>
    have herase := PullNet.filter_erase_perm hnodup hmem
      (fun k ↦ p.ownerId config.serverId (p.slot k)) pl.features
    rw [← wanted_eq h hpl hid] at herase
    have hlen : (ks.map x).length = ks.length := List.length_map x
    have hroom : w.cur + (ks.zip (ks.map x)).length ≤ 100 := by
      have h1 := hkeys.length_eq
      have h2 := herase.length_eq
      have h3 := hks.length_eq
      have h4 := (List.length_filter_le (fun k ↦
        decide (p.ownerId config.serverId (p.slot k) ∉ w.serverSet.erase id)) pl.features)
      have h5 := hpl.length_le
      rw [List.length_map, length_received hcur] at h1
      rw [List.length_append] at h2
      rw [List.length_zip, hlen, Nat.min_self]
      omega
    have hcheck : w.check (PullNet.answer id a ks (ks.map x))
        = some ⟨.keyValue, ks, ks.map x⟩ := by
      simp [Agent.Pulling.check, PullNet.answer, hmem, hag.localId]
    obtain ⟨g', hwrite, -, hpairs⟩ := w.agent.parameters.writePairs_ok _ _ hroom
    have hreceive : w.receive (some (PullNet.answer id a ks (ks.map x)))
        = .ok ⟨{ w.agent with parameters := g' }, w.serverSet.erase id,
          w.cur + (ks.zip (ks.map x)).length⟩ := by
      rw [Agent.Pulling.receive, hcheck]
      simp only [Checked.zip_eq hlen.ge, Checked.ok_bind, hwrite]
      rfl
    refine ⟨_, hreceive, rfl, .pulling ⟨hag.partition, hag.serverIds, hag.localId⟩
      (hnodup.erase id) (fun id' hid' ↦ hknown id' (List.mem_of_mem_erase hid')) hroom ?_
      fun e he ↦ ?_⟩
    · show (((g'.keys.zip g'.values).take (w.cur + (ks.zip (ks.map x)).length)).map
        Prod.fst).Perm _
      rw [hpairs, List.map_append, List.map_fst_zip hlen.ge]
      exact (hkeys.append hks).trans herase.symm
    · replace he : e ∈ (g'.keys.zip g'.values).take (w.cur + (ks.zip (ks.map x)).length) := he
      rw [hpairs] at he
      rcases List.mem_append.1 he with he | he
      · exact hvalues e he
      · have hzip : ks.zip (ks.map x) = ks.map fun k ↦ (k, x k) := by
          simpa using List.zip_map' (f := fun k ↦ k) (g := x) (l := ks)
        rw [hzip] at he
        obtain ⟨k, hk, rfl⟩ := List.mem_map.1 he
        exact hseen k hk

/-- Nothing is waited for any more: the agent has the weights of all the features. -/
theorem AtStation.finish {w : Agent.Pulling F}
    (hat : AtStation config p pl n a (.pulling w)) (hset : w.serverSet = []) :
    AtStation config p pl n a (.computing w.finish) := by
  cases hat with
  | pulling hag hnodup hknown hcur hkeys hvalues =>
    have hall : (pl.features.filter fun k ↦
        decide (p.ownerId config.serverId (p.slot k) ∉ w.serverSet)) = pl.features := by
      rw [hset]
      exact List.filter_eq_self.2 fun k _ ↦ by simp
    rw [hall] at hkeys
    have hpairs : w.finish.parameters.pairs = received w := by
      show (w.agent.parameters.keys.zip w.agent.parameters.values).take (Int.toNat w.cur) = _
      rw [Int.toNat_natCast]
      rfl
    refine .computing ⟨hag.partition, hag.serverIds, hag.localId⟩ ?_ ?_ fun e he ↦
      hvalues e (hpairs ▸ he)
    · show 0 ≤ (w.cur : Int) ∧ (w.cur : Int) ≤ 100
      omega
    · rw [← Shmstruct.map_fst_pairs, hpairs]
      exact hkeys

/-! ## One step of an agent -/

/-- Only agent `a` and what it has under way may differ. -/
structure OnlyAgent (a : Int) (n n' : TrainNet F) : Prop where
  servers : n'.servers = n.servers
  station : ∀ b, b ≠ a → n'.station b = n.station b
  requests : ∀ b, b ≠ a → n'.requests b = n.requests b
  replies : ∀ b, b ≠ a → n'.replies b = n.replies b
  issued : ∀ b, b ≠ a → n'.issued b = n.issued b

omit [FloatOps F] in
theorem OnlyAgent.later (h : OnlyAgent a n n') (hissued : n.issued a <+: n'.issued a) :
    Later config n n' where
  issued := by
    intro b _
    by_cases hba : b = a
    · exact hba ▸ hissued
    · rw [h.issued b hba]
  rounds := fun i ↦ by rw [rounds, rounds, h.servers]

/-- A step of an agent keeps the invariant when it does between that agent and the servers. -/
theorem Inv.agent_step (h : Shards config p s₀) (hpl : pl.Fits p) (hinv : Inv config p pl s₀ n)
    (n' : TrainNet F) (honly : OnlyAgent a n n') (hissued : n.issued a <+: n'.issued a)
    (hstation : AtStation config p pl n' a (n'.station a))
    (hcomputed : ∀ r g, (n'.issued a)[r]? = some g →
      (n.issued a)[r]? = some g ∨ ∃ order seen, Computed config p pl n a r g order seen)
    (hlink : ∀ i id st q, config.serverId[i]? = some id →
      Link config p pl (s₀ i) i id a st q (phaseAt id (n.station a)) (n.requests a id)
        (n.replies a id) n.issued →
      (∀ b ∈ config.workerId, st.bottom ≤ (n.issued b).length) →
      Link config p pl (s₀ i) i id a st q (phaseAt id (n'.station a)) (n'.requests a id)
        (n'.replies a id) n'.issued) : Inv config p pl s₀ n' := by
  have hlater : Later config n n' := honly.later hissued
  have hcovered := hinv.covered h hpl
  refine ⟨fun b hb ↦ ?_, fun b hb r g hg ↦ ?_, fun i id hid ↦ ?_⟩
  · by_cases hba : b = a
    · exact hba ▸ hstation
    · rw [honly.station b hba]
      exact (hinv.station b hb).mono hlater hcovered (honly.issued b hba)
  · by_cases hba : b = a
    · subst hba
      rcases hcomputed r g hg with hold | ⟨order, seen, hnew⟩
      · obtain ⟨order, seen, hold⟩ := hinv.issued b hb r g hold
        exact ⟨order, seen, hold.mono hlater hcovered⟩
      · exact ⟨order, seen, hnew.mono hlater hcovered⟩
    · rw [honly.issued b hba] at hg
      obtain ⟨order, seen, hold⟩ := hinv.issued b hb r g hg
      exact ⟨order, seen, hold.mono hlater hcovered⟩
  · have htracks := hinv.server i id hid
    have hfar : ∀ b ∈ config.workerId, n.rounds i ≤ (n.issued b).length :=
      fun b hb ↦ rounds_le htracks hb
    obtain ⟨st, q, hserver, hvalid, hold⟩ := htracks
    rw [rounds_ofRounds hserver] at hfar
    refine ⟨st, q, honly.servers ▸ hserver, hvalid, fun b hb ↦ ?_⟩
    by_cases hba : b = a
    · subst hba
      exact hlink i id st q hid (hold b hb) hfar
    · rw [honly.station b hba, honly.requests b hba, honly.replies b hba]
      exact (hold b hb).issue_other (honly.issued b hba) hlater.issued hfar

theorem Inv.pull (h : Shards config p s₀) (hpl : pl.Fits p) (hinv : Inv config p pl s₀ n)
    {ag : Agent F} {g : Shmstruct F} {w : Agent.Pulling F} {sent : List (Sent F)}
    (ha : a ∈ config.workerId) (hidle : n.station a = .idle ag)
    (hsize : g.size = pl.features.length) (hg : g.usedKeys = pl.features)
    (hsend : ag.workPull g = .ok (w, sent)) :
    Inv config p pl s₀ { n with
      station := Function.update n.station a (.pulling w)
      requests := Function.update n.requests a fun id ↦ n.requests a id ++ callsTo id sent } := by
  have hat := hinv.station a ha
  rw [hidle] at hat
  cases hat with
  | idle hag =>
    obtain ⟨w', sent', ks, hsend', hplaced, hcur, hnodup, hset, hks, hcalls⟩ :=
      workPull_spec h hpl hag hsize hg
    rw [hsend'] at hsend
    cases hsend
    refine hinv.agent_step h hpl (a := a) { n with
        station := Function.update n.station a (.pulling w)
        requests := Function.update n.requests a fun id ↦ n.requests a id ++ callsTo id sent }
      ⟨rfl, fun b hb ↦ Function.update_of_ne hb _ _, fun b hb ↦ Function.update_of_ne hb _ _,
        fun _ _ ↦ rfl, fun _ _ ↦ rfl⟩ List.prefix_rfl ?_ (fun r g hr ↦ .inl hr)
      fun i id st q hid hlink _ ↦ ?_
    · have hnone : received w = [] := by rw [received, hcur, List.take_zero]
      show AtStation config p pl _ a (Function.update n.station a (.pulling w) a)
      rw [Function.update_self]
      refine .pulling hplaced hnodup (fun id hid ↦ (hset id).1 hid) (by omega) ?_ ?_
      · have hempty : (pl.features.filter fun k ↦
            decide (p.ownerId config.serverId (p.slot k) ∉ w.serverSet)) = [] :=
          List.filter_eq_nil_iff.2 fun k _ ↦ by simp [hset, ownerId_mem h]
        rw [hnone, hempty]
        rfl
      · simp [hnone]
    · obtain ⟨hi, -⟩ := List.getElem?_eq_some_iff.1 hid
      have hmem : id ∈ w.serverSet := (hset id).2 (List.mem_of_getElem? hid)
      simp only [Function.update_self, phaseAt, if_pos hmem]
      rw [hcalls i id hid]
      rw [hidle, phaseAt] at hlink
      refine hlink.sendPull (fun k hk ↦ ?_) (hks.filter _)
      obtain ⟨hfeature, hslot⟩ := List.mem_filter.1 hk
      have hin := hpl.inRange k (hks.mem_iff.1 hfeature)
      exact h.owns hi hin (of_decide_eq_true hslot) k (List.mem_singleton_self k)

/-- The oldest reply is the answer of a server that is waited for. -/
theorem Inv.receive_spec (h : Shards config p s₀) (hpl : pl.Fits p) (hinv : Inv config p pl s₀ n)
    {w : Agent.Pulling F} {m : Sent F} {rest : List (Sent F)} (ha : a ∈ config.workerId)
    (hid : config.serverId[i]? = some id) (hw : n.station a = .pulling w)
    (hm : n.replies a id = m :: rest) :
    id ∈ w.serverSet ∧ ∃ w', w.receive (some m.msg) = .ok w' ∧
      w'.serverSet = w.serverSet.erase id ∧ AtStation config p pl n a (.pulling w') := by
  have hat := hinv.station a ha
  obtain ⟨st, q, hserver, -, hlinks⟩ := hinv.server i id hid
  have hlink := hlinks a ha
  rw [hw] at hat hlink
  rw [hm, phaseAt] at hlink
  have hmem : id ∈ w.serverSet := by
    by_contra hmem
    rw [if_neg hmem] at hlink
    exact nomatch hlink.stage.eq_wait
  refine ⟨hmem, ?_⟩
  obtain ⟨ks, v, hks, hmsg, hle, hlt, hbottom⟩ := hlink.values m (List.mem_cons_self ..)
  rw [hmsg]
  refine hat.receive h hpl hid hmem hks fun k hk ↦ ⟨v, rfl, hle, hlt, ?_⟩
  obtain ⟨hfeature, hslot⟩ := List.mem_filter.1 (hks.mem_iff.1 hk)
  have howner : p.getServerByKey k = i :=
    (getServerByKey_eq_iff h.ordered (hpl.inRange k hfeature) (hpl.first_le k hfeature)).2
      (of_decide_eq_true hslot)
  rw [howner, Int.toNat_natCast, rounds_ofRounds hserver]
  exact hbottom

theorem Inv.receive (h : Shards config p s₀) (hpl : pl.Fits p) (hinv : Inv config p pl s₀ n)
    {w w' : Agent.Pulling F} {m : Sent F} {rest : List (Sent F)} (ha : a ∈ config.workerId)
    (hid : id ∈ config.serverId) (hw : n.station a = .pulling w)
    (hm : n.replies a id = m :: rest) (hreceive : w.receive (some m.msg) = .ok w') :
    Inv config p pl s₀ { n with
      station := Function.update n.station a (.pulling w')
      replies := Function.update n.replies a (Function.update (n.replies a) id rest) } := by
  obtain ⟨j, hj⟩ := List.getElem?_of_mem hid
  obtain ⟨hmem, w₁, hreceive₁, hset, hat⟩ := hinv.receive_spec h hpl ha hj hw hm
  rw [hreceive₁] at hreceive
  cases hreceive
  refine hinv.agent_step h hpl (a := a) { n with
      station := Function.update n.station a (.pulling w')
      replies := Function.update n.replies a (Function.update (n.replies a) id rest) }
    ⟨rfl, fun b hb ↦ Function.update_of_ne hb _ _, fun _ _ ↦ rfl,
      fun b hb ↦ Function.update_of_ne hb _ _, fun _ _ ↦ rfl⟩ List.prefix_rfl ?_
    (fun r g hr ↦ .inl hr) fun i id' st q hid' hlink _ ↦ ?_
  · show AtStation config p pl _ a (Function.update n.station a (.pulling w') a)
    rw [Function.update_self]
    exact hat.mono ⟨fun _ _ ↦ List.prefix_rfl, fun _ ↦ Nat.le_refl _⟩ (hinv.covered h hpl) rfl
  · simp only [Function.update_self, phaseAt, hset]
    rw [hw, phaseAt] at hlink
    have hnodup : w.serverSet.Nodup := by
      have hold := hinv.station a ha
      rw [hw] at hold
      cases hold with
      | pulling _ hnodup _ _ _ _ => exact hnodup
    by_cases hne : id' = id
    · subst hne
      rw [if_pos hmem, hm] at hlink
      rw [Function.update_self, if_neg fun hin ↦ (hnodup.mem_erase_iff.1 hin).1 rfl]
      exact hlink.receive
    · simp only [Function.update_of_ne hne, hnodup.mem_erase_iff, ne_eq, hne, not_false_eq_true,
        true_and]
      exact hlink

theorem Inv.finish (h : Shards config p s₀) (hpl : pl.Fits p) (hinv : Inv config p pl s₀ n)
    {w : Agent.Pulling F} (ha : a ∈ config.workerId) (hw : n.station a = .pulling w)
    (hset : w.serverSet = []) :
    Inv config p pl s₀ { n with
      station := Function.update n.station a (.computing w.finish) } := by
  have hat := hinv.station a ha
  rw [hw] at hat
  refine hinv.agent_step h hpl (a := a) { n with
      station := Function.update n.station a (.computing w.finish) }
    ⟨rfl, fun b hb ↦ Function.update_of_ne hb _ _, fun _ _ ↦ rfl, fun _ _ ↦ rfl,
      fun _ _ ↦ rfl⟩ List.prefix_rfl ?_ (fun r g hr ↦ .inl hr) fun i id st q hid hlink _ ↦ ?_
  · show AtStation config p pl _ a (Function.update n.station a (.computing w.finish) a)
    rw [Function.update_self]
    exact (hat.finish hset).mono ⟨fun _ _ ↦ List.prefix_rfl, fun _ ↦ Nat.le_refl _⟩
      (hinv.covered h hpl) rfl
  · simp only [Function.update_self, phaseAt]
    rw [hw, phaseAt, hset, if_neg (List.not_mem_nil)] at hlink
    exact hlink

/-- What the worker computes from the weights that its agent holds. -/
theorem AtStation.computed (hpl : pl.Fits p) {ag : Agent F} {g : Shmstruct F}
    (hat : AtStation config p pl n a (.computing ag)) (hsize : g.size = ag.parameters.size)
    (hg : g.pairs = pl.update a (n.issued a).length ag.parameters.pairs) :
    ∃ order seen, Computed config p pl n a (n.issued a).length g order seen := by
  cases hat with
  | computing hag hbounds hkeys hvalues =>
    have hfst : (ag.parameters.pairs.map Prod.fst).Perm pl.features :=
      ag.parameters.map_fst_pairs ▸ hkeys
    have hvalue : ∀ l : Int, ∃ v : ℕ, ∀ e ∈ ag.parameters.pairs, e.1 = l →
        e.2 = valueAfter config n.issued l v ∧
        v ≤ (n.issued a).length ∧ (n.issued a).length < v + config.bound.toNat ∧
        v ≤ n.rounds (p.getServerByKey l).toNat := by
      intro l
      by_cases hl : ∃ e ∈ ag.parameters.pairs, e.1 = l
      · obtain ⟨e, he, rfl⟩ := hl
        obtain ⟨v, hv, hrest⟩ := hvalues e he
        refine ⟨v, fun e' he' heq ↦ ⟨?_, hrest⟩⟩
        rw [List.inj_on_of_nodup_map (hfst.nodup_iff.2 hpl.nodup) he' he heq]
        exact hv
      · exact ⟨0, fun e he heq ↦ absurd ⟨e, he, heq⟩ hl⟩
    choose seen hseen using hvalue
    have hfeature : ∀ l ∈ pl.features, seen l ≤ (n.issued a).length ∧
        (n.issued a).length < seen l + config.bound.toNat ∧
        seen l ≤ n.rounds (p.getServerByKey l).toNat := by
      intro l hl
      obtain ⟨e, he, rfl⟩ := List.mem_map.1 (hfst.mem_iff.2 hl)
      exact (hseen e.1 e he rfl).2
    have hpairs : ag.parameters.pairs = (ag.parameters.pairs.map Prod.fst).map fun l ↦
        (l, valueAfter config n.issued l (seen l)) := by
      rw [List.map_map]
      refine (List.map_id _).symm.trans (List.map_congr_left fun e he ↦ ?_)
      exact Prod.ext rfl (hseen e.1 e he rfl).1
    have hused : g.usedKeys.Perm pl.features := by
      rw [← g.map_fst_pairs, hg]
      exact hpl.keys a _ _ hfst
    refine ⟨_, seen, ⟨⟨⟨hsize ▸ hbounds.1, hsize ▸ hbounds.2, hused.nodup_iff.2 hpl.nodup⟩,
      fun k hk ↦ hpl.inRange k (hused.mem_iff.1 hk), fun i hi ↦ ?_⟩,
      fun k hk ↦ hpl.first_le k (hused.mem_iff.1 hk)⟩, hfst, hpairs ▸ hg,
      fun l hl ↦ (hfeature l hl).1, fun l hl ↦ (hfeature l hl).2.1,
      fun l hl ↦ (hfeature l hl).2.2⟩
    obtain ⟨k, hk, hki⟩ := hpl.owner i hi
    exact ⟨k, hused.mem_iff.2 hk, hki⟩

theorem Inv.push (h : Shards config p s₀) (hpl : pl.Fits p) (hinv : Inv config p pl s₀ n)
    {ag ag' : Agent F} {g : Shmstruct F} {sent : List (Sent F)} (ha : a ∈ config.workerId)
    (hag : n.station a = .computing ag) (hsize : g.size = ag.parameters.size)
    (hg : g.pairs = pl.update a (n.issued a).length ag.parameters.pairs)
    (hsend : ag.workPush g = .ok (ag', sent)) :
    Inv config p pl s₀ { n with
      station := Function.update n.station a (.idle ag')
      requests := Function.update n.requests a fun id ↦ n.requests a id ++ callsTo id sent
      issued := Function.update n.issued a (n.issued a ++ [g]) } := by
  have hat := hinv.station a ha
  rw [hag] at hat
  obtain ⟨order, seen, hcomputed⟩ := hat.computed hpl hsize hg
  have hplaced : Placed config p a ag := by
    cases hat with
    | computing hplaced _ _ _ => exact hplaced
  obtain ⟨ag₁, sent₁, hsend₁, hplaced₁, hcalls⟩ := workPush_spec h hplaced hcomputed.complete
  rw [hsend₁] at hsend
  cases hsend
  refine hinv.agent_step h hpl (a := a) { n with
      station := Function.update n.station a (.idle ag')
      requests := Function.update n.requests a fun id ↦ n.requests a id ++ callsTo id sent
      issued := Function.update n.issued a (n.issued a ++ [g]) }
    ⟨rfl, fun b hb ↦ Function.update_of_ne hb _ _, fun b hb ↦ Function.update_of_ne hb _ _,
      fun _ _ ↦ rfl, fun b hb ↦ Function.update_of_ne hb _ _⟩ ?_ ?_ (fun r g' hr ↦ ?_)
      fun i id st q hid hlink _ ↦ ?_
  · simp
  · show AtStation config p pl _ a (Function.update n.station a (.idle ag') a)
    rw [Function.update_self]
    exact .idle hplaced₁
  · simp only [Function.update_self] at hr
    rw [List.getElem?_append, List.getElem?_singleton] at hr
    split at hr
    · exact .inl hr
    · split at hr
      · obtain rfl := Option.some.inj hr
        obtain rfl : r = (n.issued a).length := by omega
        exact .inr ⟨order, seen, hcomputed⟩
      · cases hr
  · obtain ⟨hi, -⟩ := List.getElem?_eq_some_iff.1 hid
    simp only [Function.update_self, phaseAt]
    rw [hcalls i id hid]
    rw [hag, phaseAt] at hlink
    exact hlink.sendPush (h.owns_share hi hcomputed.complete)

/-! ## One step of a server -/

theorem Inv.serve (h : Shards config p s₀) (hpl : pl.Fits p)
    (hlocal : ∀ i id, config.serverId[i]? = some id → (s₀ i).localId = id)
    (hinv : Inv config p pl s₀ n) {c : Call F} {rest : List (Call F)} {s' : Server F}
    {r : Response F} (ha : a ∈ config.workerId) (hid : config.serverId[i]? = some id)
    (hc : n.requests a id = c :: rest) (hserve : (n.servers i).serve c = .ok (s', r)) :
    Inv config p pl s₀ { n with
      servers := Function.update n.servers i s'
      requests := Function.update n.requests a (Function.update (n.requests a) id rest)
      replies := fun b ↦ Function.update (n.replies b) id
        (n.replies b id ++ Network.repliesFor b r.sent) } := by
  obtain ⟨st, q, hserver, hvalid, hlink⟩ := hinv.server i id hid
  obtain ⟨st', q', r', hserve', hvalid', hbottom, hlink'⟩ :=
    serve_link h hpl hid (hlocal i id hid) hinv.complete hvalid hlink ha hc
  rw [hserver, hserve'] at hserve
  cases hserve
  have hrounds : ∀ j, n.rounds j
      ≤ (Function.update n.servers i ((s₀ i).ofRounds st' q') j).bottomVersion.toNat := by
    intro j
    by_cases hj : j = i
    · subst hj
      rw [Function.update_self, rounds_ofRounds hserver]
      exact hbottom
    · rw [Function.update_of_ne hj]
      rfl
  have hlater : Later config n { n with
      servers := Function.update n.servers i ((s₀ i).ofRounds st' q')
      requests := Function.update n.requests a (Function.update (n.requests a) id rest)
      replies := fun b ↦ Function.update (n.replies b) id
        (n.replies b id ++ Network.repliesFor b r.sent) } :=
    ⟨fun _ _ ↦ List.prefix_rfl, hrounds⟩
  have hcovered := hinv.covered h hpl
  refine ⟨fun b hb ↦ (hinv.station b hb).mono hlater hcovered rfl, fun b hb r g hg ↦ ?_,
    fun j id' hj ↦ ?_⟩
  · obtain ⟨order, seen, hcomputed⟩ := hinv.issued b hb r g hg
    exact ⟨order, seen, hcomputed.mono hlater hcovered⟩
  · by_cases hji : j = i
    · subst hji
      obtain rfl := Option.some.inj (hid.symm.trans hj)
      refine ⟨st', q', Function.update_self .., hvalid', fun b hb ↦ ?_⟩
      have hb' := hlink' b hb
      simp only [Function.update_self]
      by_cases hba : b = a
      · subst hba
        rw [Function.update_self] at hb' ⊢
        rw [Function.update_self]
        exact hb'
      · rw [Function.update_of_ne hba] at hb' ⊢
        exact hb'
    · obtain ⟨st₁, q₁, hserver₁, hvalid₁, hlink₁⟩ := hinv.server j id' hj
      -- no two servers have one id
      have hne : id' ≠ id := by
        rintro rfl
        obtain ⟨hi, hget⟩ := List.getElem?_eq_some_iff.1 hid
        obtain ⟨hj', hget'⟩ := List.getElem?_eq_some_iff.1 hj
        exact hji ((h.servers.nodup.getElem_inj_iff).1 (hget'.trans hget.symm))
      refine ⟨st₁, q₁, (Function.update_of_ne hji ..).trans hserver₁, hvalid₁, fun b hb ↦ ?_⟩
      simp only [Function.update_of_ne hne]
      by_cases hba : b = a
      · subst hba
        rw [Function.update_self, Function.update_of_ne hne]
        exact hlink₁ b hb
      · rw [Function.update_of_ne hba]
        exact hlink₁ b hb

/-! ## Every run -/

/-- What training begins with: the servers have their ranges and ids, and the agents know them. -/
structure Begins (config : ConfigMessage) (p : Partition) (pl : Plugin F) (agents : Int → Agent F)
    (s₀ : ℕ → Server F) : Prop where
  shards : Shards config p s₀
  fits : pl.Fits p
  localId : ∀ i id, config.serverId[i]? = some id → (s₀ i).localId = id
  placed : ∀ a ∈ config.workerId, Placed config p a (agents a)

theorem inv_start {agents : Int → Agent F} (h : Begins config p pl agents s₀) :
    Inv config p pl s₀ (start agents s₀) where
  station := fun a ha ↦ .idle (h.placed a ha)
  issued := by simp [start]
  server := by
    intro i id hid
    obtain ⟨hi, -⟩ := List.getElem?_eq_some_iff.1 hid
    exact ⟨Rounds.empty h.shards.workers.ne_nil, [],
      (Server.ofRounds_empty (h.shards.fresh i hi) h.shards.workers.ne_nil).symm,
      ⟨by simp [Rounds.empty], by simp, by simp, by simp⟩,
      fun a _ ↦ Link.start h.shards.workers.ne_nil⟩

/-- **Every step keeps the invariant.** -/
theorem Inv.step {agents : Int → Agent F} (h : Begins config p pl agents s₀)
    (hinv : Inv config p pl s₀ n) (hstep : Step config pl n n') : Inv config p pl s₀ n' := by
  cases hstep with
  | pull ha hidle hsize hg hsend => exact hinv.pull h.shards h.fits ha hidle hsize hg hsend
  | receive ha hid hw hset hm hreceive => exact hinv.receive h.shards h.fits ha hid hw hm hreceive
  | finish ha hw hset => exact hinv.finish h.shards h.fits ha hw hset
  | push ha hag hsize hg hsend => exact hinv.push h.shards h.fits ha hag hsize hg hsend
  | serve ha hid hc hserve => exact hinv.serve h.shards h.fits h.localId ha hid hc hserve

theorem Inv.reachable {agents : Int → Agent F} (h : Begins config p pl agents s₀)
    (hn : Relation.ReflTransGen (Step config pl) (start agents s₀) n) :
    Inv config p pl s₀ n := by
  induction hn with
  | refl => exact inv_start h
  | tail _ hstep ih => exact ih.step h hstep

/-! ## What is on the servers -/

/-- A feature has on its server the value after as many rounds as the server has completed. -/
theorem Inv.get_parameters (h : Shards config p s₀) (hpl : pl.Fits p)
    (hinv : Inv config p pl s₀ n) {k : Int} (hk : k ∈ pl.features)
    (howner : p.getServerByKey k = i) :
    Checked.get (n.servers i).parameters (k - (n.servers i).startKey)
      = .ok (valueAfter config n.issued k (n.rounds i)) := by
  have hi : i < config.serverId.length := by
    have hlt := owner_lt h hpl hk
    rwa [howner, Int.toNat_natCast] at hlt
  have hin := hpl.inRange k hk
  obtain ⟨st, q, hserver, -, hlink⟩ := hinv.server i _ (List.getElem?_eq_getElem hi)
  have hslot := (getServerByKey_eq_iff h.ordered hin (hpl.first_le k hk)).1 howner
  have howns := h.owns hi hin hslot k (List.mem_singleton_self k)
  rw [rounds_ofRounds hserver, hserver]
  refine (Server.get_parameters (Server.length_parameters (h.fresh i hi) st q) howns).trans ?_
  exact congrArg (fun x ↦ Except.ok (Option.getD x FloatOps.zero))
    (getElem?_total h hi hinv.complete (fun a ha ↦ ⟨_, (hlink a ha).shares⟩) hin hslot)

/-- The value a computed update brings for a feature. -/
theorem Computed.valuesFor {r : ℕ} {g : Shmstruct F} {order : List Int} {seen : Int → ℕ}
    (hc : Computed config p pl n a r g order seen) (hpl : pl.Fits p) {k : Int}
    (hk : k ∈ pl.features) :
    Server.valuesFor k g.pairs = [pl.contrib a r
      (order.map fun l ↦ (l, valueAfter config n.issued l (seen l))) k] := by
  have hkeys : (g.pairs.map Prod.fst).Perm pl.features := by
    rw [hc.pairs]
    refine hpl.keys a r _ ?_
    rw [List.map_map]
    exact (List.map_id' order).symm ▸ hc.order_perm
  have hnodup : (g.pairs.map Prod.fst).Nodup := hkeys.nodup_iff.2 hpl.nodup
  obtain ⟨e, he, rfl⟩ := List.mem_map.1 (hkeys.mem_iff.2 hk)
  have hone : (g.pairs.filter fun e' ↦ decide (e'.1 = e.1)) = [e] :=
    Sorted.filter_eq_singleton (List.Nodup.of_map _ hnodup) he (decide_eq_true rfl)
      fun e' he' h ↦ List.inj_on_of_nodup_map hnodup he' he (of_decide_eq_true h)
  rw [Server.valuesFor, hone, Plugin.contrib, ← hc.pairs, Lists.lookup_of_mem hnodup he]
  rfl

/-- The values are those of an iteration with bounded staleness. -/
theorem Inv.bounded (h : Shards config p s₀) (hpl : pl.Fits p) (hinv : Inv config p pl s₀ n) :
    ∃ (order : ℕ → Int → List Int) (seen : ℕ → Int → Int → ℕ),
      (∀ a ∈ config.workerId, ∀ r g, (n.issued a)[r]? = some g →
        Computed config p pl n a r g (order r a) (seen r a)) ∧
      Staleness.Bounded config.workerId pl.features config.bound.toNat (average config) pl.contrib
        (fun _ ↦ FloatOps.zero) (fun k ↦ n.rounds (p.getServerByKey k).toNat) order seen
        fun v k ↦ valueAfter config n.issued k v := by
  have hexists : ∀ r a, ∃ (order : List Int) (seen : Int → ℕ), ∀ g, a ∈ config.workerId →
      (n.issued a)[r]? = some g → Computed config p pl n a r g order seen := by
    intro r a
    cases hget : (n.issued a)[r]? with
    | none => exact ⟨[], fun _ ↦ 0, by simp⟩
    | some g =>
      by_cases ha : a ∈ config.workerId
      · obtain ⟨order, seen, hc⟩ := hinv.issued a ha r g hget
        exact ⟨order, seen, fun g' _ hg' ↦ Option.some.inj hg' ▸ hc⟩
      · exact ⟨[], fun _ ↦ 0, fun _ ha' ↦ absurd ha' ha⟩
  choose order seen hseen using hexists
  have hcovered := hinv.covered h hpl
  -- every agent has pushed an update for a round that is complete
  have hget : ∀ k ∈ pl.features, ∀ r < n.rounds (p.getServerByKey k).toNat,
      ∀ a ∈ config.workerId, ∃ g, (n.issued a)[r]? = some g ∧
        Computed config p pl n a r g (order r a) (seen r a) := by
    intro k hk r hr a ha
    have hget := List.getElem?_eq_getElem (lt_of_lt_of_le hr (hcovered k hk a ha))
    exact ⟨_, hget, hseen r a _ ha hget⟩
  refine ⟨order, seen, fun a ha r g hg ↦ hseen r a g ha hg, fun k _ ↦ rfl, fun k hk r hr ↦ ?_,
    fun k hk r hr a ha ↦ ?_, fun k hk r hr a ha l hl ↦ ?_, fun k hk r hr a ha l hl ↦ ?_,
    fun k hk r hr a ha l hl ↦ ?_⟩
  · rw [valueAfter, Rounds.fold, Rounds.flatMap_round]
    refine congrArg _ ?_
    rw [← List.flatMap_singleton' (l := config.workerId.map _), List.flatMap_map]
    refine List.flatMap_congr fun a ha ↦ ?_
    obtain ⟨g, hg, hc⟩ := hget k hk r hr a ha
    rw [hg]
    exact hc.valuesFor hpl hk
  · obtain ⟨g, -, hc⟩ := hget k hk r hr a ha
    exact hc.order_perm
  · obtain ⟨g, -, hc⟩ := hget k hk r hr a ha
    exact hc.seen_le l hl
  · obtain ⟨g, -, hc⟩ := hget k hk r hr a ha
    exact hc.lt_seen l hl
  · obtain ⟨g, -, hc⟩ := hget k hk r hr a ha
    exact hc.seen_le_rounds l hl

omit [FloatOps F] in
/-- At most one push of an agent to a server is under way, and there is room for it. -/
theorem length_pushed_le {room : Prop} {phase : Phase} {requests : List (Call F)}
    {replies : List (Sent F)} {blocked : List (List Int)}
    (h : Network.Stage a room phase requests replies blocked) :
    (pushed requests).length ≤ 1 ∧ ((pushed requests).length = 1 → room) := by
  cases h with
  | pushing request hroom | pushingAhead request request' hroom =>
    exact ⟨by simp [pushed], fun _ ↦ hroom⟩
  | idle | pulling request | blocked keys | answered m hroom | working hroom => simp [pushed]

/-- No agent gets more than the bound ahead of a server. -/
theorem issued_le (h : Tracks config p pl s₀ n i id) (ha : a ∈ config.workerId) :
    (n.issued a).length ≤ n.rounds i + config.bound.toNat := by
  obtain ⟨st, q, hserver, -, hlink⟩ := h
  have hlen := congrArg List.length (hlink a ha).shares
  rw [List.length_append, List.length_map] at hlen
  obtain ⟨hone, hroom⟩ := length_pushed_le (hlink a ha).stage
  have hpending := st.length_pending a
  have hle := st.length_pending_le ha
  rw [rounds_ofRounds hserver]
  rcases Nat.lt_or_ge (pushed (n.requests a id)).length 1 with hnone | hpush
  · omega
  · have hlt := hroom (by omega)
    omega

/-! ## Main results -/

section

variable {agents : Int → Agent F} {masterAddr : String}

/-- Servers initialised for a partition that goes up.  The first boundary is not the last, because
the first server owns a feature. -/
theorem shards_of_initialize (hc : config.WorkersOk) (hs : config.ServersOk)
    (htwo : 2 ≤ config.serverNum) (hsorted : config.partition.Pairwise (· ≤ ·))
    (hp : Partition.initializePartition config.keyRange config.serverNum config.partition = .ok p)
    (hservers : ∀ i id, config.serverId[i]? = some id →
      Server.initializeServer masterAddr id config = .ok (s₀ i)) (hfits : pl.Fits p) :
    Shards config p s₀ := by
  have hnum := hs.serverNum
  have hlen : (config.partition.length : Int) = config.serverNum := by
    rw [hs.partition, hnum]
  obtain ⟨p', hp', hkeys, hnum', hvec⟩ :=
    Partition.initializePartition_ok config.keyRange (by omega) hlen
  obtain rfl : p' = p := Except.ok.inj (hp'.symm.trans hp)
  have hordered : p'.Ordered := by
    rw [Partition.Ordered, hvec]
    exact hsorted
  have hsame : config.SamePartition p' := ⟨hkeys, hvec⟩
  have hinit : ∀ (i : ℕ) (hi : i < config.serverId.length),
      Server.initializeServer masterAddr config.serverId[i] config = .ok (s₀ i) := fun i hi ↦
    hservers i _ (List.getElem?_eq_getElem hi)
  have hrange := fun (i : ℕ) (hi : i < config.serverId.length) ↦
    Server.initializeServer_range hs.toRangesOk hi (hinit i hi)
  refine ⟨hc, hs.toRangesOk, hordered, hsame, fun n hn ↦ ?_,
    fun i hi ↦ Server.initializeServer_fresh hc (hinit i hi),
    fun i hi ↦ (hrange i hi).2.2.2.1, fun i hi ↦ (hrange i hi).2.2.2.2⟩
  obtain ⟨k, hk, hki⟩ := hfits.owner 0 (by omega)
  have hslot := (getServerByKey_eq_iff hordered (hfits.inRange k hk) (hfits.first_le k hk)).1 hki
  have hle := slot_le_iff_lt_startOf hs.toRangesOk hordered hsame
    (show 0 < config.serverId.length by omega) k
  have hlt := slot_le_iff_lt_startOf hs.toRangesOk hordered hsame
    (show 1 < config.serverId.length by omega) k
  have hmono := startOf_mono hs.toRangesOk hordered hsame (show 1 ≤ n by omega) (by omega)
  omega

/-- The servers and agents of a configuration, as they initialise themselves. -/
theorem begins_of_initialize (hc : config.WorkersOk) (hs : config.ServersOk)
    (htwo : 2 ≤ config.serverNum) (hsorted : config.partition.Pairwise (· ≤ ·))
    (hp : Partition.initializePartition config.keyRange config.serverNum config.partition = .ok p)
    (hagents : ∀ a ∈ config.workerId, ∃ gradients parameters,
      Agent.initializeAgent masterAddr a config gradients parameters = .ok (agents a))
    (hservers : ∀ i id, config.serverId[i]? = some id →
      Server.initializeServer masterAddr id config = .ok (s₀ i)) (hfits : pl.Fits p) :
    Begins config p pl agents s₀ where
  shards := shards_of_initialize hc hs htwo hsorted hp hservers hfits
  fits := hfits
  localId := fun i id hid ↦ (Server.initializeServer_members (hservers i id hid)).1
  placed := by
    intro a ha
    obtain ⟨gradients, parameters, hinit⟩ := hagents a ha
    obtain ⟨hlocal, hids, hpart⟩ := Agent.initializeAgent_spec hinit
    refine ⟨Except.ok.inj (hpart.symm.trans hp), ?_, hlocal⟩
    rw [hids, hs.serverNum, Int.toNat_natCast, List.take_length]

/-- **Training has bounded staleness.**  In every state that training can reach, in whatever order
the agents and the servers have taken their steps, the parameters on the servers are values `val`
of an iteration in which what agent `a` contributes to round `r` has been computed from the values
after `seen r a` rounds, one number for every feature, of which none misses `bound` rounds.  Every
update that has been pushed is such a contribution, and no agent is more than the bound ahead of
another one. -/
theorem training_bounded (hc : config.WorkersOk) (hs : config.ServersOk)
    (htwo : 2 ≤ config.serverNum) (hsorted : config.partition.Pairwise (· ≤ ·))
    (hp : Partition.initializePartition config.keyRange config.serverNum config.partition = .ok p)
    (hagents : ∀ a ∈ config.workerId, ∃ gradients parameters,
      Agent.initializeAgent masterAddr a config gradients parameters = .ok (agents a))
    (hservers : ∀ i id, config.serverId[i]? = some id →
      Server.initializeServer masterAddr id config = .ok (s₀ i)) (hfits : pl.Fits p)
    (hn : Relation.ReflTransGen (Step config pl) (start agents s₀) n) :
    ∃ (order : ℕ → Int → List Int) (seen : ℕ → Int → Int → ℕ) (val : ℕ → Int → F),
      Staleness.Bounded config.workerId pl.features config.bound.toNat (average config) pl.contrib
        (fun _ ↦ FloatOps.zero) (fun k ↦ n.rounds (p.getServerByKey k).toNat) order seen val ∧
      (∀ k ∈ pl.features, ∀ i : ℕ, p.getServerByKey k = i →
        Checked.get (n.servers i).parameters (k - (n.servers i).startKey)
          = .ok (val (n.rounds i) k)) ∧
      (∀ a ∈ config.workerId, ∀ (r : ℕ) (g : Shmstruct F), (n.issued a)[r]? = some g →
        g.pairs = pl.update a r ((order r a).map fun l ↦ (l, val (seen r a l) l)) ∧
        (order r a).Perm pl.features ∧
        ∀ l ∈ pl.features, seen r a l ≤ r ∧ r < seen r a l + config.bound.toNat) ∧
      ∀ a ∈ config.workerId, ∀ b ∈ config.workerId,
        (n.issued a).length ≤ (n.issued b).length + config.bound.toNat := by
  have h := begins_of_initialize hc hs htwo hsorted hp hagents hservers hfits
  have hinv := Inv.reachable h hn
  obtain ⟨order, seen, hcomputed, hbounded⟩ := hinv.bounded h.shards hfits
  refine ⟨order, seen, _, hbounded, fun k hk i hi ↦ hinv.get_parameters h.shards hfits hk hi,
    fun a ha r g hg ↦ ?_, fun a ha b hb ↦ ?_⟩
  · have hc := hcomputed a ha r g hg
    exact ⟨hc.pairs, hc.order_perm, fun l hl ↦ ⟨hc.seen_le l hl, hc.lt_seen l hl⟩⟩
  · have hpos : 0 < config.serverId.length := by
      have hnum := hs.serverNum
      omega
    have htracks := hinv.server 0 _ (List.getElem?_eq_getElem hpos)
    exact (issued_le htracks ha).trans (Nat.add_le_add_right (rounds_le htracks hb) _)

/-- A worker that adds to every weight a number of its own. -/
def smallPlugin : Plugin Int where
  features := [2, 7]
  update := fun a _ ps ↦ ps.map fun e ↦ (e.1, e.2 + 10 * a)

theorem smallPlugin_fits (hrange : p.keyRange = 10) (hnum : p.serverNum = 2)
    (howner : p.getServerByKey 2 = 0) (howner' : p.getServerByKey 7 = 1) : smallPlugin.Fits p where
  length_le := by decide
  nodup := by decide
  inRange := by simp [smallPlugin, Partition.InRange, hrange]
  first_le := by
    -- the keys below the first boundary belong to the other server
    have hfirst : p.first ≤ 2 := by
      by_contra hlt
      simp [Partition.getServerByKey, hrange, hnum, not_le.1 hlt] at howner
    intro k hk
    obtain rfl | rfl : k = 2 ∨ k = 7 := by simpa [smallPlugin] using hk
    · exact hfirst
    · exact hfirst.trans (by decide)
  owner := by
    intro i hi
    obtain rfl | rfl : i = 0 ∨ i = 1 := by omega
    · exact ⟨2, by simp [smallPlugin], howner⟩
    · exact ⟨7, by simp [smallPlugin], howner'⟩
  keys := by
    intro a r ps hps
    simpa [smallPlugin, Function.comp_def] using hps

/-- An epoch of agent `a` on two servers. -/
def smallEpoch (a : Int) : List Event :=
  [.pull a, .serve a 0, .serve a 1, .receive a 2, .receive a 1, .finish a, .push a, .serve a 0,
    .serve a 1]

theorem known_smallEpochs (hworkers : config.workerId = [3, 4]) (hids : config.serverId = [1, 2])
    {es : List Event} (hes : ∀ e ∈ es, e ∈ smallEpoch 3 ∨ e ∈ smallEpoch 4) :
    ∀ e ∈ es, e.Known config := by
  intro e he
  rcases hes e he with he | he <;>
    · simp only [smallEpoch, List.mem_cons, List.not_mem_nil, or_false] at he
      rcases he with rfl | rfl | rfl | rfl | rfl | rfl | rfl | rfl | rfl <;>
        simp [Event.Known, hworkers, hids]

omit [FloatOps F] in
theorem agents_small {g : Shmstruct F} {ag₃ ag₄ : Agent F} (hworkers : config.workerId = [3, 4])
    (hag₃ : Agent.initializeAgent "10.0.0.1:80" 3 config g g = .ok ag₃)
    (hag₄ : Agent.initializeAgent "10.0.0.1:80" 4 config g g = .ok ag₄) :
    ∀ a ∈ config.workerId, ∃ gradients parameters,
      Agent.initializeAgent "10.0.0.1:80" a config gradients parameters
        = .ok (if a = 3 then ag₃ else ag₄) := by
  intro a ha
  obtain rfl | rfl : a = 3 ∨ a = 4 := by simpa [hworkers] using ha
  · exact ⟨_, _, hag₃⟩
  · exact ⟨_, _, hag₄⟩

theorem servers_small {s₁ s₂ : Server F} (hids : config.serverId = [1, 2])
    (hs₁ : Server.initializeServer "10.0.0.1:80" 1 config = .ok s₁)
    (hs₂ : Server.initializeServer "10.0.0.1:80" 2 config = .ok s₂) :
    ∀ i id, config.serverId[i]? = some id →
      Server.initializeServer "10.0.0.1:80" id config = .ok (if i = 0 then s₁ else s₂) := by
  intro i id hid
  rw [hids] at hid
  have hi : i < 2 := (List.getElem?_eq_some_iff.1 hid).1
  obtain rfl | rfl : i = 0 ∨ i = 1 := by omega
  · cases hid
    exact hs₁
  · cases hid
    exact hs₂

/-- The two servers with room for two updates of every agent, and boundaries that the master can
draw. -/
def roomyConfig : ConfigMessage := { Server.smallConfig with bound := 2, partition := [1, 4] }

/-- Agent `3` is two epochs ahead when agent `4` finishes its first. -/
theorem training_bounded_small : ∃ (p : Partition) (agents : Int → Agent Int)
    (s₀ : ℕ → Server Int) (n : TrainNet Int),
    Relation.ReflTransGen (Step roomyConfig smallPlugin) (start agents s₀) n ∧
      (n.issued 3).length = 2 ∧ n.rounds 0 = 1 ∧
      ∃ (order : ℕ → Int → List Int) (seen : ℕ → Int → Int → ℕ) (val : ℕ → Int → Int),
        Staleness.Bounded [3, 4] [2, 7] 2 (average roomyConfig) smallPlugin.contrib (fun _ ↦ 0)
          (fun k ↦ n.rounds (p.getServerByKey k).toNat) order seen val := by
  obtain ⟨p, ag₃, ag₄, s₁, s₂, n, hp, hrange, hnum, howner, howner', hag₃, hag₄, hs₁, hs₂, hrun,
      hissued, hrounds⟩ :
      ∃ p ag₃ ag₄ s₁ s₂ n,
        Partition.initializePartition 10 2 [1, 4] = .ok p ∧ p.keyRange = 10 ∧ p.serverNum = 2 ∧
        p.getServerByKey 2 = 0 ∧ p.getServerByKey 7 = 1 ∧
        Agent.initializeAgent "10.0.0.1:80" 3 roomyConfig Agent.noPairs Agent.noPairs = .ok ag₃ ∧
        Agent.initializeAgent "10.0.0.1:80" 4 roomyConfig Agent.noPairs Agent.noPairs = .ok ag₄ ∧
        Server.initializeServer (F := Int) "10.0.0.1:80" 1 roomyConfig = .ok s₁ ∧
        Server.initializeServer (F := Int) "10.0.0.1:80" 2 roomyConfig = .ok s₂ ∧
        (smallEpoch 3 ++ smallEpoch 3 ++ smallEpoch 4).foldlM
          (fun n e ↦ n.next roomyConfig smallPlugin e)
          (start (fun a ↦ if a = 3 then ag₃ else ag₄) fun i ↦ if i = 0 then s₁ else s₂)
          = some n ∧ (n.issued 3).length = 2 ∧ n.rounds 0 = 1 :=
    ⟨_, _, _, _, _, _, rfl, rfl, rfl, rfl, rfl, rfl, rfl, rfl, rfl, rfl, rfl, rfl⟩
  have hn := reachable_of_run (known_smallEpochs rfl rfl (by simp)) hrun
  obtain ⟨order, seen, val, hbounded, -⟩ := training_bounded
    (by constructor <;> decide) ⟨by constructor <;> decide, by decide, by decide⟩ (by decide)
    (by decide) hp (agents_small rfl hag₃ hag₄) (servers_small rfl hs₁ hs₂)
    (smallPlugin_fits hrange hnum howner howner') hn
  exact ⟨p, _, _, n, hn, hissued, hrounds, order, seen, val, hbounded⟩

/-- The iteration in which every worker waits for all the others in every round. -/
def synchronous (config : ConfigMessage) (pl : Plugin F) : ℕ → Int → F :=
  Staleness.sync config.workerId pl.features (average config) pl.contrib fun _ ↦ FloatOps.zero

/-- With the bound `1` the values are those of the synchronous iteration, and so is what the
updates have been computed from. -/
theorem Inv.synchronous (h : Shards config p s₀) (hpl : pl.Fits p) (hinv : Inv config p pl s₀ n)
    (hbound : config.bound = 1) {order : ℕ → Int → List Int} {seen : ℕ → Int → Int → ℕ}
    (hcomputed : ∀ a ∈ config.workerId, ∀ r g, (n.issued a)[r]? = some g →
      Computed config p pl n a r g (order r a) (seen r a))
    (hbounded : Staleness.Bounded config.workerId pl.features config.bound.toNat (average config)
      pl.contrib (fun _ ↦ FloatOps.zero) (fun k ↦ n.rounds (p.getServerByKey k).toNat) order seen
      fun v k ↦ valueAfter config n.issued k v)
    (hfree : ∀ k ∈ pl.features, ∀ r < n.rounds (p.getServerByKey k).toNat, ∀ a ∈ config.workerId,
      ∀ f : Int → F, pl.contrib a r ((order r a).map fun l ↦ (l, f l)) k
        = pl.contrib a r (pl.features.map fun l ↦ (l, f l)) k) :
    (∀ k ∈ pl.features, ∀ i : ℕ, p.getServerByKey k = i →
      Checked.get (n.servers i).parameters (k - (n.servers i).startKey)
        = .ok (TrainNet.synchronous config pl (n.rounds i) k)) ∧
    ∀ a ∈ config.workerId, ∀ (r : ℕ) (g : Shmstruct F), (n.issued a)[r]? = some g →
      g.pairs = pl.update a r
        ((order r a).map fun l ↦ (l, TrainNet.synchronous config pl r l)) := by
  have hone : config.bound.toNat = 1 := by omega
  rw [hone] at hbounded
  have hsync := fun r ↦ hbounded.eq_sync (r := r) hfree
  refine ⟨fun k hk i hi ↦ ?_, fun a ha r g hg ↦ ?_⟩
  · rw [hinv.get_parameters h hpl hk hi]
    exact congrArg Except.ok (hsync _ k hk (by rw [hi, Int.toNat_natCast]))
  · have hc := hcomputed a ha r g hg
    rw [hc.pairs]
    refine congrArg _ (List.map_congr_left fun l hl ↦ ?_)
    have hl := hc.order_perm.mem_iff.1 hl
    have hle := hc.seen_le l hl
    have hlt := hc.lt_seen l hl
    have hfar := hc.seen_le_rounds l hl
    obtain hr : seen r a l = r := by omega
    rw [hr] at hfar ⊢
    exact congrArg (Prod.mk l) (hsync r l hl hfar)

/-- **With the bound `1` training is synchronous.**  Let the worker not mind the order in which it
reads the weights.  Then every update that an agent pushes in epoch `r` has been computed from the
values after exactly `r` rounds, and a server that has completed `r` rounds holds the values of the
iteration in which everyone waits for everyone else, whatever the other servers have done. -/
theorem training_synchronous (hc : config.WorkersOk) (hs : config.ServersOk)
    (htwo : 2 ≤ config.serverNum) (hsorted : config.partition.Pairwise (· ≤ ·))
    (hp : Partition.initializePartition config.keyRange config.serverNum config.partition = .ok p)
    (hagents : ∀ a ∈ config.workerId, ∃ gradients parameters,
      Agent.initializeAgent masterAddr a config gradients parameters = .ok (agents a))
    (hservers : ∀ i id, config.serverId[i]? = some id →
      Server.initializeServer masterAddr id config = .ok (s₀ i)) (hfits : pl.Fits p)
    (hbound : config.bound = 1) (hfree : pl.IgnoresOrder)
    (hn : Relation.ReflTransGen (Step config pl) (start agents s₀) n) :
    (∀ k ∈ pl.features, ∀ i : ℕ, p.getServerByKey k = i →
      Checked.get (n.servers i).parameters (k - (n.servers i).startKey)
        = .ok (synchronous config pl (n.rounds i) k)) ∧
    ∀ a ∈ config.workerId, ∀ (r : ℕ) (g : Shmstruct F), (n.issued a)[r]? = some g →
      g.pairs.Perm (pl.update a r (pl.features.map fun l ↦ (l, synchronous config pl r l))) := by
  have h := begins_of_initialize hc hs htwo hsorted hp hagents hservers hfits
  have hinv := Inv.reachable h hn
  obtain ⟨order, seen, hcomputed, hbounded⟩ := hinv.bounded h.shards hfits
  obtain ⟨hvalues, hpairs⟩ := hinv.synchronous h.shards hfits hbound hcomputed hbounded
    fun k hk r hr a ha f ↦
      hfits.contrib_congr hfree a r f _ (hbounded.order_perm k hk r hr a ha) k hk
  refine ⟨hvalues, fun a ha r g hg ↦ ?_⟩
  have hperm := (hcomputed a ha r g hg).order_perm
  rw [hpairs a ha r g hg]
  refine hfree a r _ _ ?_ (hperm.map _)
  rw [List.map_map]
  exact (List.map_id' (order r a)).symm ▸ hperm.nodup_iff.2 hfits.nodup

/-- Agent `4` finishes its first epoch as well, but the second server has not seen it yet. -/
theorem training_synchronous_small : ∃ (p : Partition) (agents : Int → Agent Int)
    (s₀ : ℕ → Server Int) (n : TrainNet Int),
    Relation.ReflTransGen (Step Server.smallConfig smallPlugin) (start agents s₀) n ∧
      n.rounds 0 = 1 ∧ n.rounds 1 = 0 ∧ p.getServerByKey 2 = 0 ∧
      Checked.get (n.servers 0).parameters (2 - (n.servers 0).startKey)
        = .ok (synchronous Server.smallConfig smallPlugin 1 2) ∧
      synchronous Server.smallConfig smallPlugin 1 2 = 35 := by
  obtain ⟨p, ag₃, ag₄, s₁, s₂, n, hp, hrange, hnum, howner, howner', hag₃, hag₄, hs₁, hs₂, hrun,
      hrounds, hrounds'⟩ :
      ∃ p ag₃ ag₄ s₁ s₂ n,
        Partition.initializePartition 10 2 [0, 4] = .ok p ∧ p.keyRange = 10 ∧ p.serverNum = 2 ∧
        p.getServerByKey 2 = 0 ∧ p.getServerByKey 7 = 1 ∧
        Agent.initializeAgent "10.0.0.1:80" 3 Server.smallConfig Agent.noPairs Agent.noPairs
          = .ok ag₃ ∧
        Agent.initializeAgent "10.0.0.1:80" 4 Server.smallConfig Agent.noPairs Agent.noPairs
          = .ok ag₄ ∧
        Server.initializeServer (F := Int) "10.0.0.1:80" 1 Server.smallConfig = .ok s₁ ∧
        Server.initializeServer (F := Int) "10.0.0.1:80" 2 Server.smallConfig = .ok s₂ ∧
        (smallEpoch 3 ++ (smallEpoch 4).dropLast).foldlM
          (fun n e ↦ n.next Server.smallConfig smallPlugin e)
          (start (fun a ↦ if a = 3 then ag₃ else ag₄) fun i ↦ if i = 0 then s₁ else s₂)
          = some n ∧ n.rounds 0 = 1 ∧ n.rounds 1 = 0 :=
    ⟨_, _, _, _, _, _, rfl, rfl, rfl, rfl, rfl, rfl, rfl, rfl, rfl, rfl, rfl, rfl⟩
  have hfree : smallPlugin.IgnoresOrder := fun _ _ _ _ _ hps ↦ hps.map _
  have hn := reachable_of_run (known_smallEpochs rfl rfl fun e he ↦
    (List.mem_append.1 he).imp_right List.mem_of_mem_dropLast) hrun
  obtain ⟨hvalue, -⟩ := training_synchronous
    Server.smallConfig_workersOk ⟨by constructor <;> decide, by decide, by decide⟩ (by decide)
    (by decide) hp (agents_small rfl hag₃ hag₄) (servers_small rfl hs₁ hs₂)
    (smallPlugin_fits hrange hnum howner howner') rfl hfree hn
  exact ⟨p, _, _, n, hn, hrounds, hrounds', howner,
    hrounds ▸ hvalue 2 (by simp [smallPlugin]) 0 howner, rfl⟩

end

end

end TrainNet

end Rpscc
