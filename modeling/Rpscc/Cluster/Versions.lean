import Rpscc.Cluster.Ownership

/-!
# One push, one version

A server counts the push requests of an agent as its versions, so the protocol relies on every
push of an agent reaching every server exactly once.  `Agent::Push` sends one request for every
slot that has a key, and so misses a server that owns no key of the gradient, and sends the last
server two requests when the gradient has keys at both of its ends.  `push_once_iff` says that
these are the only ways in which it goes wrong: over any number of epochs, every agent has issued
as many versions at every server as there were epochs, at every point, exactly when every gradient
is `Spread` over the servers.
-/

set_option autoImplicit false

namespace Rpscc

variable {F : Type}

/-! ## Requests for one server -/

namespace Partition

/-- Every server owns one of the keys, and the last one does not own keys at both ends. -/
def Spread (p : Partition) (keys : List Int) : Prop :=
  (∀ i : ℕ, (i : Int) < p.serverNum → ∃ k ∈ keys, p.getServerByKey k = i) ∧ p.OneEnd keys

variable {p : Partition} {serverIds keys : List Int}

/-- Every server owns exactly one slot that has a key exactly when the keys are spread. -/
theorem countP_slotsOf_eq_one_iff (hp : p.Ordered) (hin : ∀ k ∈ keys, p.InRange k) :
    (∀ i : ℕ, (i : Int) < p.serverNum →
      (p.slotsOf keys).countP (fun s ↦ decide (p.serverOf s = i)) = 1) ↔ p.Spread keys := by
  have hpos := p.length_pos
  have hlen := p.length_eq
  have howner : ∀ i : Int, (∃ k ∈ keys, p.getServerByKey k = i) ↔
      ∃ s ∈ p.slotsOf keys, p.serverOf s = i := by
    intro i
    constructor
    · rintro ⟨k, hk, hki⟩
      exact ⟨p.slot k, mem_slotsOf.2 ⟨k, hk, rfl⟩, by rw [← getServerByKey_eq hp (hin k hk), hki]⟩
    · rintro ⟨s, hs, hsi⟩
      obtain ⟨k, hk, rfl⟩ := mem_slotsOf.1 hs
      exact ⟨k, hk, by rw [getServerByKey_eq hp (hin k hk), hsi]⟩
  rw [Spread]
  simp only [howner, Sorted.countP_eq_one_iff (p.nodup_slotsOf keys), decide_eq_true_eq]
  constructor
  · intro h
    refine ⟨fun i hi ↦ ?_, (oneEnd_iff hp).2 fun hboth ↦ ?_⟩
    · obtain ⟨s, hs, hsi, -⟩ := h i hi
      exact ⟨s, hs, hsi⟩
    · -- the first and the last slot would both be the one of the last server
      obtain ⟨s, -, -, hunique⟩ := h (p.partVec.length - 1) (by omega)
      have h0 := hunique 0 hboth.1 (by rw [serverOf, if_pos rfl]; omega)
      have hn := hunique _ hboth.2 (by rw [serverOf, if_neg (by omega)]; omega)
      omega
  · rintro ⟨hall, hnot⟩ i hi
    obtain ⟨s, hs, hsi⟩ := hall i hi
    exact ⟨s, hs, hsi, fun t ht hti ↦ OneEnd.slot_unique hp hnot ht hs (hti.trans hsi.symm)⟩

end Partition

/-! ## Epochs -/

namespace Agent

/-- A push request for the server with the given id. -/
def isPushTo (id : Int) (m : Sent F) : Bool :=
  m.dst == id && m.msg.requestMsg.any fun request ↦ request.requestType == .keyValue

/-- The number of versions issued at a server: the push requests sent to it. -/
def versions (id : Int) (sent : List (Sent F)) : ℕ := sent.countP (isPushTo id)

/-- At every point, every server has been sent as many push requests as there were pushes. -/
def OneVersionEach (serverIds : List Int) (tr : List (Shmstruct F × List (Sent F))) : Prop :=
  ∀ e ≤ tr.length, ∀ id ∈ serverIds, versions id ((tr.take e).flatMap Prod.snd) = e

/-- A gradient that is not empty, of distinct keys of the key space. -/
structure Gradient (p : Partition) (g : Shmstruct F) : Prop where
  pos : 0 < g.size
  distinct : g.Distinct
  inRange : ∀ k ∈ g.usedKeys, p.InRange k

variable {ag : Agent F} {g : Shmstruct F}

/-- **One push**: it is one version at every server exactly when the gradient is spread. -/
theorem versions_push_iff (hr : ag.CanRoute) (hg : ag.gradients.Distinct)
    (hin : ∀ k ∈ ag.gradients.usedKeys, ag.partition.InRange k) {ag' : Agent F}
    {sent : List (Sent F)} (h : ag.push = .ok (ag', sent)) :
    (∀ id ∈ ag.serverIds, versions id sent = 1) ↔
      ag.partition.Spread ag.gradients.usedKeys := by
  obtain ⟨g, hpush⟩ := push_eq hr hg hin
  obtain ⟨-, rfl⟩ := Prod.mk.inj (Except.ok.inj (h.symm.trans hpush))
  have hlen := ag.partition.length_eq
  have hids := hr.length_ids
  rw [← Partition.countP_slotsOf_eq_one_iff hr.ordered hin]
  have hcount : ∀ (i : ℕ) (hi : i < ag.serverIds.length),
      versions ag.serverIds[i]
          ((ag.partition.slotsOf ag.gradients.usedKeys).map
            (ag.pushPart ag.gradients.sortedPairs))
        = (ag.partition.slotsOf ag.gradients.usedKeys).countP
            fun s ↦ decide (ag.partition.serverOf s = i) := by
    intro i hi
    rw [versions, List.countP_map]
    refine List.countP_congr fun s hs ↦ ?_
    have howner := Partition.ownerId_eq_iff hids hr.nodup_ids (Partition.le_of_mem_slotsOf hs) hi
    simp [isPushTo, pushPart, howner]
  constructor
  · intro hall i hi
    have hi' : i < ag.serverIds.length := by omega
    rw [← hcount i hi']
    exact hall _ (List.getElem_mem hi')
  · intro hall id hid
    obtain ⟨i, hi, rfl⟩ := List.getElem_of_mem hid
    rw [hcount i hi]
    exact hall i (by omega)

@[simp] theorem versions_append (id : Int) (l l' : List (Sent F)) :
    versions id (l ++ l') = versions id l + versions id l' :=
  List.countP_append

/-- The counts are right at every point exactly when every push is one version everywhere. -/
theorem oneVersionEach_iff {serverIds : List Int} {tr : List (Shmstruct F × List (Sent F))} :
    OneVersionEach serverIds tr ↔ ∀ x ∈ tr, ∀ id ∈ serverIds, versions id x.2 = 1 := by
  have hsucc : ∀ (e : ℕ) (he : e < tr.length) (id : Int),
      versions id ((tr.take (e + 1)).flatMap Prod.snd)
        = versions id ((tr.take e).flatMap Prod.snd) + versions id tr[e].2 := by
    intro e he id
    rw [List.take_succ_eq_append_getElem he, List.flatMap_append, List.flatMap_singleton,
      versions_append]
  constructor
  · intro h x hx id hid
    obtain ⟨e, he, rfl⟩ := List.getElem_of_mem hx
    have h1 := h e he.le id hid
    have h2 := h (e + 1) he id hid
    rw [hsucc e he] at h2
    omega
  · intro h e
    induction e with
    | zero => exact fun _ id _ ↦ rfl
    | succ e ih =>
      intro he id hid
      rw [hsucc e he, ih (by omega) id hid, h _ (List.getElem_mem he) id hid]

/-- A push signal: it changes neither the partition nor the servers. -/
theorem workPush_ok (hr : ag.CanRoute) (hg : Gradient ag.partition g) :
    ∃ ag' sent, ag.workPush g = .ok (ag', sent) ∧ ag'.partition = ag.partition ∧
      ag'.serverIds = ag.serverIds ∧
      ((∀ id ∈ ag.serverIds, versions id sent = 1) ↔ ag.partition.Spread g.usedKeys) := by
  have hr' : { ag with gradients := g }.CanRoute := ⟨hr.ordered, hr.length_ids, hr.nodup_ids⟩
  obtain ⟨g', hpush⟩ := push_eq hr' hg.distinct hg.inRange
  refine ⟨{ ag with gradients := g', epochNum := ag.epochNum + 1 }, _, ?_, rfl, rfl,
    versions_push_iff hr' hg.distinct hg.inRange hpush⟩
  rw [workPush, hpush, Checked.ok_bind]

/-- The agent `b` after the pushes `tr` of agent `ag`. -/
structure AfterPushes (ag b : Agent F) (tr : List (Shmstruct F × List (Sent F))) : Prop where
  partition : b.partition = ag.partition
  serverIds : b.serverIds = ag.serverIds
  versions_iff : ∀ x ∈ tr,
    (∀ id ∈ ag.serverIds, versions id x.2 = 1) ↔ ag.partition.Spread x.1.usedKeys

theorem AfterPushes.nil (ag : Agent F) : AfterPushes ag ag [] := ⟨rfl, rfl, by simp⟩

theorem AfterPushes.step {b : Agent F} {tr : List (Shmstruct F × List (Sent F))}
    (hr : ag.CanRoute) (h : AfterPushes ag b tr) (hg : Gradient ag.partition g) :
    ∃ b' sent, b.workPush g = .ok (b', sent) ∧ AfterPushes ag b' (tr ++ [(g, sent)]) := by
  have hb : b.CanRoute := by
    refine ⟨?_, ?_, ?_⟩
    · rw [h.partition]
      exact hr.ordered
    · rw [h.serverIds, h.partition]
      exact hr.length_ids
    · rw [h.serverIds]
      exact hr.nodup_ids
  obtain ⟨b', sent, hwork, hpartition, hids, hiff⟩ := workPush_ok hb (h.partition ▸ hg)
  rw [h.serverIds, h.partition] at hiff
  refine ⟨b', sent, hwork, hpartition.trans h.partition, hids.trans h.serverIds, fun x hx ↦ ?_⟩
  rcases List.mem_append.1 hx with hx | hx
  · exact h.versions_iff x hx
  · rw [List.mem_singleton.1 hx]
    exact hiff

/-- What `Initialize` leaves in an agent. -/
theorem initializeAgent_spec {masterAddr : String} {recvId : Int} {config : ConfigMessage}
    {gradients parameters : Shmstruct F}
    (h : initializeAgent masterAddr recvId config gradients parameters = .ok ag) :
    ag.localId = recvId ∧ ag.serverIds = config.serverId.take config.serverNum.toNat ∧
      Partition.initializePartition config.keyRange config.serverNum config.partition
        = .ok ag.partition := by
  rw [initializeAgent, Checked.bind_eq_ok] at h
  obtain ⟨r, hr, h⟩ := h
  rw [Checked.bind_eq_ok] at h
  obtain ⟨p, hp, h⟩ := h
  cases h
  refine ⟨rfl, ?_, hp⟩
  refine Checked.foldlM_range_inv (P := fun m (r : List Int × Communicator) ↦
    r.1 = config.serverId.take m) rfl ?_ hr
  intro i _ y z hy hz
  rw [addServer, Checked.bind_eq_ok] at hz
  obtain ⟨id, hid, hz⟩ := hz
  rw [Checked.bind_eq_ok] at hz
  obtain ⟨address, -, hz⟩ := hz
  cases hz
  obtain ⟨hi, hget⟩ := Checked.get_eq_ok_iff.1 hid
  rw [Int.toNat_natCast] at hget
  rw [hy, List.take_add_one, hget]
  rfl

variable {t : TaskConfig} {draw : ℕ → Int} {config : ConfigMessage}

/-- An agent initialised for a drawn partition can route. -/
theorem initializeAgent_canRoute {masterAddr : String} {recvId : Int}
    {gradients parameters : Shmstruct F} (hempty : t.partition = []) (hpos : 1 ≤ t.serverNum)
    (hdraw : t.DrawsOk draw) (hd : (t.generatePartition draw).Delivers config)
    (h : initializeAgent masterAddr recvId config gradients parameters = .ok ag) :
    ag.CanRoute ∧ ag.serverIds = config.serverId := by
  obtain ⟨-, hids, hpart⟩ := initializeAgent_spec h
  obtain ⟨p, hp, hordered, hsame⟩ := hd.initializePartition_ok hempty hpos
  obtain rfl : p = ag.partition := Except.ok.inj (hp.symm.trans hpart)
  have hs := hd.serversOk hempty hdraw
  have hnum : config.serverNum.toNat = config.serverId.length := by
    rw [hs.serverNum, Int.toNat_natCast]
  rw [hnum, List.take_length] at hids
  refine ⟨⟨hordered, ?_, hids ▸ hs.nodup⟩, hids⟩
  rw [hids, length_partVec hs.toRangesOk hsame]

/-- **One push is one version at every server, over any number of epochs, exactly when every
gradient is spread over the servers.** -/
theorem push_once_iff {masterAddr : String} {recvId : Int} {gradients parameters : Shmstruct F}
    (hempty : t.partition = []) (hpos : 1 ≤ t.serverNum) (hdraw : t.DrawsOk draw)
    (hd : (t.generatePartition draw).Delivers config)
    (h : initializeAgent masterAddr recvId config gradients parameters = .ok ag)
    {gs : List (Shmstruct F)} (hgs : ∀ g ∈ gs, Gradient ag.partition g) :
    ∃ ag' tr, Checked.run workPush ag gs = .ok (ag', tr) ∧
      (OneVersionEach ag.serverIds tr ↔ ∀ g ∈ gs, ag.partition.Spread g.usedKeys) := by
  obtain ⟨hr, -⟩ := initializeAgent_canRoute hempty hpos hdraw hd h
  obtain ⟨ag', tr, hrun, hinv⟩ := Checked.run_invariant (Gradient ag.partition)
    (AfterPushes.nil ag) (fun _ _ _ hg hinv ↦ hinv.step hr hg) gs hgs
  refine ⟨ag', tr, hrun, ?_⟩
  rw [oneVersionEach_iff, ← Checked.run_map_fst hrun]
  simp only [List.mem_map, forall_exists_index, and_imp, forall_apply_eq_imp_iff₂]
  exact forall₂_congr hinv.versions_iff

/-- Two servers for a hundred keys, with the boundaries `30` and `60`. -/
def twoServers : ConfigMessage :=
  TaskConfig.hundredKeysConfig [1, 2] fun i ↦ if i = 0 then 60 else 30

theorem twoServers_delivers :
    ((TaskConfig.hundredKeys 2).generatePartition fun i ↦ if i = 0 then 60 else 30).Delivers
      twoServers :=
  ⟨rfl, rfl, rfl, rfl, by decide, by decide, by decide, by decide⟩

theorem twoServers_drawsOk :
    (TaskConfig.hundredKeys 2).DrawsOk fun i ↦ if i = 0 then 60 else 30 := by
  intro i _
  simp only [TaskConfig.hundredKeys]
  split <;> decide

theorem push_once_iff_twoServers :
    ∃ ag ag' tr, initializeAgent "10.0.0.1:80" 3 twoServers noPairs noPairs = .ok ag ∧
      Checked.run workPush ag [.ofPairs 0 [(70, 7), (40, 4)] (by decide)] = .ok (ag', tr) ∧
      OneVersionEach ag.serverIds tr := by
  obtain ⟨ag, h, hrange, hnum, hfirst, howner, howner'⟩ : ∃ ag : Agent Int,
      initializeAgent "10.0.0.1:80" 3 twoServers noPairs noPairs = .ok ag ∧
      ag.partition.keyRange = 100 ∧ ag.partition.serverNum = 2 ∧ ag.partition.first = 30 ∧
      ag.partition.getServerByKey 40 = 0 ∧ ag.partition.getServerByKey 70 = 1 :=
    ⟨_, rfl, rfl, rfl, rfl, rfl, rfl⟩
  have hg : Gradient ag.partition (.ofPairs (0 : Int) [(70, 7), (40, 4)] (by decide)) :=
    ⟨by decide, ⟨by decide, by decide, by decide⟩, by simp [Partition.InRange, hrange]⟩
  have hspread : ag.partition.Spread [70, 40] := by
    refine ⟨fun i hi ↦ ?_, by simp [Partition.OneEnd, hfirst]⟩
    obtain rfl | rfl : i = 0 ∨ i = 1 := by omega
    · exact ⟨40, by simp, howner⟩
    · exact ⟨70, by simp, howner'⟩
  have hgs : ∀ g ∈ [.ofPairs (0 : Int) [(70, 7), (40, 4)] (by decide)],
      Gradient ag.partition g := by simpa using hg
  obtain ⟨ag', tr, hrun, hiff⟩ := push_once_iff (t := TaskConfig.hundredKeys 2) rfl (by decide)
    twoServers_drawsOk twoServers_delivers h hgs
  exact ⟨ag, ag', tr, h, hrun, hiff.2 (by simpa using hspread)⟩

/-- A gradient with the one key `40`, which the first server owns: the second server is not told
about the push.  With the keys `10` and `70` it is told twice, and the first server not at all. -/
theorem push_skips_and_repeats_server :
    ∃ ag ag₁ ag₂ tr₁ tr₂, initializeAgent "10.0.0.1:80" 3 twoServers noPairs noPairs = .ok ag ∧
      Checked.run workPush ag [.ofPairs 0 [(40, 4)] (by decide)] = .ok (ag₁, tr₁) ∧
      versions 2 (tr₁.flatMap Prod.snd) = 0 ∧ ¬ OneVersionEach ag.serverIds tr₁ ∧
      Checked.run workPush ag [.ofPairs 0 [(10, 1), (70, 7)] (by decide)] = .ok (ag₂, tr₂) ∧
      versions 2 (tr₂.flatMap Prod.snd) = 2 ∧ ¬ OneVersionEach ag.serverIds tr₂ := by
  obtain ⟨ag, ag₁, ag₂, tr₁, tr₂, h, hids, hrun₁, hlen₁, hv₁, hrun₂, hlen₂, hv₂⟩ :
      ∃ ag ag₁ ag₂ tr₁ tr₂, initializeAgent "10.0.0.1:80" 3 twoServers noPairs noPairs = .ok ag ∧
        ag.serverIds = [1, 2] ∧
        Checked.run workPush ag [.ofPairs 0 [(40, 4)] (by decide)] = .ok (ag₁, tr₁) ∧
        tr₁.length = 1 ∧ versions 2 (tr₁.flatMap Prod.snd) = 0 ∧
        Checked.run workPush ag [.ofPairs 0 [(10, 1), (70, 7)] (by decide)] = .ok (ag₂, tr₂) ∧
        tr₂.length = 1 ∧ versions 2 (tr₂.flatMap Prod.snd) = 2 :=
    ⟨_, _, _, _, _, rfl, rfl, rfl, rfl, rfl, rfl, rfl, rfl⟩
  have hnot : ∀ tr : List (Shmstruct Int × List (Sent Int)), tr.length = 1 →
      OneVersionEach ag.serverIds tr → versions 2 (tr.flatMap Prod.snd) = 1 := by
    intro tr hlen hone
    have hv := hone 1 hlen.ge 2 (by simp [hids])
    rwa [List.take_of_length_le hlen.le] at hv
  refine ⟨ag, ag₁, ag₂, tr₁, tr₂, h, hrun₁, hv₁, fun hone ↦ ?_, hrun₂, hv₂, fun hone ↦ ?_⟩
  · rw [hnot tr₁ hlen₁ hone] at hv₁
    simp at hv₁
  · rw [hnot tr₂ hlen₂ hone] at hv₂
    simp at hv₂

end Agent

end Rpscc
