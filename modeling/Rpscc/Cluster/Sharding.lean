import Mathlib.Algebra.Order.BigOperators.Group.List
import Mathlib.Algebra.Order.Group.Nat
import Mathlib.Logic.Relation
import Rpscc.Cluster.Versions
import Rpscc.Server.OrderIndependence

/-!
# Sharding is transparent

`ShardNet` is a whole cluster while it pushes: the agents, the servers, and the requests on their
way, first in, first out for each agent and each server.  Agents push when they like, servers serve
when they like, so every server sees the agents in an order of its own and is in a round of its
own.

When the first boundary is `0`, no server has two slots, and a gradient with a key of every server
is one request for each.  What a server has accepted of an agent and what is on its way there are
then its shares of what the agent has pushed (`Inv`), so its rounds are those of one server that is
handed the complete gradients.  What a round does to a parameter depends only on the updates of its
key (`Server.getElem?_mergeRound`), so the values are the same, to the last rounding error
(`sharded_eq_unsharded`).
-/

set_option autoImplicit false

namespace Rpscc

variable {F : Type}

/-! ## The network -/

/-- The agents and the servers of one configuration.  `channel a id` holds the messages from agent
`a` to the server with the given id, the oldest first. -/
structure ShardNet (F : Type) where
  agents : Int → Agent F
  servers : ℕ → Server F
  channel : Int → Int → List (Message F)
  /-- The gradients every agent has pushed so far. -/
  issued : Int → List (Shmstruct F)

namespace ShardNet

/-- Nothing has been pushed yet. -/
def start (agents : Int → Agent F) (servers : ℕ → Server F) : ShardNet F where
  agents := agents
  servers := servers
  channel := fun _ _ ↦ []
  issued := fun _ ↦ []

/-- The messages for the server with the given id. -/
def messagesFor (id : Int) (sent : List (Sent F)) : List (Message F) :=
  (sent.filter fun m ↦ m.dst = id).map Sent.msg

/-- A gradient of distinct keys of the key space, at least one of them owned by each server. -/
structure Complete (p : Partition) (g : Shmstruct F) : Prop where
  distinct : g.Distinct
  inRange : ∀ k ∈ g.usedKeys, p.InRange k
  owner : ∀ i : ℕ, (i : Int) < p.serverNum → ∃ k ∈ g.usedKeys, p.getServerByKey k = i

variable [FloatOps F]

/-- An agent pushes, or a server serves the oldest message of an agent, or a pull. -/
inductive Step (config : ConfigMessage) : ShardNet F → ShardNet F → Prop
  | push {n : ShardNet F} {a : Int} {g : Shmstruct F} {ag' : Agent F} {sent : List (Sent F)}
      (ha : a ∈ config.workerId) (hg : Complete (n.agents a).partition g)
      (hpush : (n.agents a).workPush g = .ok (ag', sent)) :
      Step config n { n with
        agents := Function.update n.agents a ag'
        channel := Function.update n.channel a fun id ↦ n.channel a id ++ messagesFor id sent
        issued := Function.update n.issued a (n.issued a ++ [g]) }
  | deliver {n : ShardNet F} {a id : Int} {i : ℕ} {m : Message F} {rest : List (Message F)}
      {c : Server.Call F} {s' : Server F} {r : Response F} (ha : a ∈ config.workerId)
      (hid : config.serverId[i]? = some id) (hm : n.channel a id = m :: rest)
      (hcall : Server.Call.ofMessage m = some c) (hserve : (n.servers i).serve c = .ok (s', r))
      (hr : r.outcome ≠ .overfilled) :
      Step config n { n with
        servers := Function.update n.servers i s'
        channel := Function.update n.channel a (Function.update (n.channel a) id rest) }
  | pull {n : ShardNet F} {a : Int} {i : ℕ} {request : RequestMessage F} {s' : Server F}
      {r : Response F} (hi : i < config.serverId.length)
      (hin : (n.servers i).Owns request.keys)
      (hserve : (n.servers i).serve (.pull a request) = .ok (s', r)) :
      Step config n { n with servers := Function.update n.servers i s' }

/-! ## The ranges -/

/-- Servers with the ranges of the configuration, of which the first begins at `0`, and a partition
with the same boundaries. -/
structure Shards (config : ConfigMessage) (p : Partition) (s₀ : ℕ → Server F) : Prop where
  workers : config.WorkersOk
  servers : config.RangesOk
  ordered : p.Ordered
  same : config.SamePartition p
  first : config.startOf 0 = 0
  last : ∀ n, config.serverId.length = n + 1 → config.startOf 0 ≠ config.startOf n
  fresh : ∀ i < config.serverId.length, Server.Fresh config (s₀ i)
  startKey : ∀ i < config.serverId.length, (s₀ i).startKey = config.startOf i
  parameterLength : ∀ i < config.serverId.length, (s₀ i).parameterLength = config.lengthOf i

section

variable {config : ConfigMessage} {p : Partition} {s₀ : ℕ → Server F}

/-- No key lies below the first boundary. -/
theorem Shards.slot_pos (h : Shards config p s₀) {i : ℕ} (hi : i < config.serverId.length)
    {key : Int} (hk : p.InRange key) : 0 < p.slot key := by
  have hzero := slot_le_iff_lt_startOf h.servers h.ordered h.same
    (show 0 < config.serverId.length by omega) key
  have hnonneg := hk.1
  rw [h.first] at hzero
  omega

/-- A server owns the keys of its slot. -/
theorem Shards.owns (h : Shards config p s₀) {i : ℕ} (hi : i < config.serverId.length)
    {key : Int} (hk : p.InRange key) (hslot : p.slot key = i + 1) : (s₀ i).Owns [key] := by
  obtain ⟨-, hnonneg, hlt⟩ := Layout.get_partition h.servers hi
  have hle : config.startOf i ≤ key := by
    rw [← not_lt, ← slot_le_iff_lt_startOf h.servers h.ordered h.same hi]
    omega
  have hoffset : Circle.offset config.keyRange (config.startOf i) key < config.lengthOf i := by
    rcases Nat.lt_or_ge (i + 1) config.serverId.length with hi' | hi'
    · exact (offset_lt_lengthOf_iff h.servers h.ordered h.same hi' hk).2 hslot
    · have hn : config.serverId.length = i + 1 := by omega
      exact (offset_lt_lengthOf_last_iff h.servers h.ordered h.same hn hk).2
        ⟨h.last i hn, .inr hslot⟩
  rw [Circle.offset_of_le hnonneg (h.same.keyRange ▸ hk.2) hle] at hoffset
  intro k hk'
  rw [List.mem_singleton.1 hk', h.startKey i hi, h.parameterLength i hi]
  omega

/-! ## What is sent -/

omit [FloatOps F] in
/-- The share of server `i` in a gradient. -/
def share (p : Partition) (i : ℕ) (g : Shmstruct F) : KeyValueList F :=
  Agent.part p g.sortedPairs (i + 1)

omit [FloatOps F] in
/-- The message that brings it there. -/
def shareMessage (a id : Int) (u : KeyValueList F) : Message F where
  sendId := a
  recvId := id
  messageType := .request
  requestMsg := some ⟨.keyValue, u.map Prod.fst, u.map Prod.snd⟩

theorem owns_share (h : Shards config p s₀) {i : ℕ} (hi : i < config.serverId.length)
    {g : Shmstruct F} (hg : Complete p g) : (s₀ i).Owns ((share p i g).map Prod.fst) := by
  intro k hk
  obtain ⟨e, he, rfl⟩ := List.mem_map.1 hk
  rw [share, Agent.part, List.mem_filter, decide_eq_true_eq] at he
  have hmem : e.1 ∈ g.usedKeys := by
    rw [← g.map_fst_pairs]
    exact List.mem_map_of_mem ((Shmstruct.sortedPairs_perm hg.distinct).mem_iff.1 he.1)
  exact h.owns hi (hg.inRange e.1 hmem) he.2 e.1 (List.mem_singleton_self _)

/-- **A push is one message for every server**, with its share. -/
theorem messagesFor_push (h : Shards config p s₀) {ag : Agent F} (hp : ag.partition = p)
    (hids : ag.serverIds = config.serverId) {i : ℕ} {id : Int}
    (hid : config.serverId[i]? = some id) {g : Shmstruct F} (hg : Complete p g) :
    messagesFor id ((p.slotsOf g.usedKeys).map (ag.pushPart g.sortedPairs))
      = [shareMessage ag.localId id (share p i g)] := by
  obtain ⟨hi, rfl⟩ := List.getElem?_eq_some_iff.1 hid
  have hlen : config.serverId.length = p.partVec.length := (length_partVec h.servers h.same).symm
  have hpos : ∀ s ∈ p.slotsOf g.usedKeys, 0 < s := by
    intro s hs
    obtain ⟨k, hk, rfl⟩ := Partition.mem_slotsOf.1 hs
    exact h.slot_pos hi (hg.inRange k hk)
  have howner : ∀ s ∈ p.slotsOf g.usedKeys,
      p.ownerId config.serverId s = config.serverId[i] ↔ s = i + 1 := by
    intro s hs
    rw [Partition.ownerId_eq_iff hlen h.servers.nodup (Partition.le_of_mem_slotsOf hs) hi]
    exact p.serverOf_eq_iff (hpos s hs)
  have hmem : i + 1 ∈ p.slotsOf g.usedKeys := by
    have hnum := serverNum_eq h.servers h.same
    obtain ⟨k, hk, hki⟩ := hg.owner i (by omega)
    have hin := hg.inRange k hk
    rw [Partition.getServerByKey_eq h.ordered hin,
      p.serverOf_eq_iff (h.slot_pos hi hin)] at hki
    exact Partition.mem_slotsOf.2 ⟨k, hk, hki⟩
  have hfilter : (p.slotsOf g.usedKeys).filter
      (fun s ↦ (ag.pushPart g.sortedPairs s).dst = config.serverId[i]) = [i + 1] := by
    refine Sorted.filter_eq_singleton (p.nodup_slotsOf _) hmem ?_ fun s hs hsi ↦ ?_
    · simp only [Agent.pushPart, hp, hids, decide_eq_true_eq]
      exact (howner _ hmem).2 rfl
    · simp only [Agent.pushPart, hp, hids, decide_eq_true_eq] at hsi
      exact (howner s hs).1 hsi
  have hdst : (ag.pushPart g.sortedPairs (i + 1)).dst = config.serverId[i] := by
    simp only [Agent.pushPart, hp, hids]
    exact (howner _ hmem).2 rfl
  rw [messagesFor, List.filter_map]
  simp only [Function.comp_def]
  rw [hfilter]
  simp only [Agent.pushPart, hp, hids] at hdst
  simp only [List.map_cons, List.map_nil, Agent.pushPart, hp, hids, hdst]
  rfl

/-! ## The invariant -/

/-- What server `i` has accepted of every agent and what is on its way there are its shares of what
the agent has pushed. -/
def Tracks (config : ConfigMessage) (p : Partition) (s₀ : ℕ → Server F) (n : ShardNet F) (i : ℕ)
    (id : Int) : Prop :=
  ∃ (st : History config F) (q : List PullInfo), n.servers i = (s₀ i).ofRounds st q ∧
    (s₀ i).Valid st q ∧ ∀ a ∈ config.workerId, ∃ us : List (KeyValueList F),
      n.channel a id = us.map (shareMessage a id) ∧
      st.hist a ++ us = (n.issued a).map (share p i)

/-- Agents keep their partition, what they push is complete, and every server keeps track. -/
structure Inv (config : ConfigMessage) (p : Partition) (s₀ : ℕ → Server F) (n : ShardNet F) :
    Prop where
  partition : ∀ a ∈ config.workerId, (n.agents a).partition = p
  serverIds : ∀ a ∈ config.workerId, (n.agents a).serverIds = config.serverId
  localId : ∀ a ∈ config.workerId, (n.agents a).localId = a
  issued : ∀ a ∈ config.workerId, ∀ g ∈ n.issued a, Complete p g
  server : ∀ i id, config.serverId[i]? = some id → Tracks config p s₀ n i id

theorem Inv.init (h : Shards config p s₀) {agents : Int → Agent F}
    (hpartition : ∀ a ∈ config.workerId, (agents a).partition = p)
    (hids : ∀ a ∈ config.workerId, (agents a).serverIds = config.serverId)
    (hlocal : ∀ a ∈ config.workerId, (agents a).localId = a) :
    Inv config p s₀ (start agents s₀) := by
  refine ⟨hpartition, hids, hlocal, by simp [start], fun i id hid ↦ ?_⟩
  obtain ⟨hi, -⟩ := List.getElem?_eq_some_iff.1 hid
  refine ⟨Rounds.empty h.workers.ne_nil, [], ?_,
    ⟨by simp [Rounds.empty], by simp, by simp, by simp⟩,
    fun a _ ↦ ⟨[], rfl, rfl⟩⟩
  exact (Server.ofRounds_empty (h.fresh i hi) h.workers.ne_nil).symm

theorem Inv.push (h : Shards config p s₀) {n : ShardNet F} (hinv : Inv config p s₀ n) {a : Int}
    {g : Shmstruct F} {ag' : Agent F} {sent : List (Sent F)} (ha : a ∈ config.workerId)
    (hg : Complete (n.agents a).partition g)
    (hpush : (n.agents a).workPush g = .ok (ag', sent)) :
    Inv config p s₀ { n with
      agents := Function.update n.agents a ag'
      channel := Function.update n.channel a fun id ↦ n.channel a id ++ messagesFor id sent
      issued := Function.update n.issued a (n.issued a ++ [g]) } := by
  have hp := hinv.partition a ha
  have hids := hinv.serverIds a ha
  rw [hp] at hg
  obtain ⟨g', hag', hsent⟩ : ∃ g' : Shmstruct F,
      ag' = { n.agents a with gradients := g', epochNum := (n.agents a).epochNum + 1 } ∧
      sent = (p.slotsOf g.usedKeys).map ((n.agents a).pushPart g.sortedPairs) := by
    have hr : { n.agents a with gradients := g }.CanRoute :=
      ⟨hp ▸ h.ordered, by rw [hids, hp, length_partVec h.servers h.same],
        hids ▸ h.servers.nodup⟩
    obtain ⟨g', heq⟩ := Agent.push_eq hr hg.distinct (by rw [hp]; exact hg.inRange)
    rw [Agent.workPush, heq, Checked.ok_bind] at hpush
    cases hpush
    exact ⟨g', rfl, by rw [← hp]; rfl⟩
  have hkeep : ∀ b ∈ config.workerId, (Function.update n.agents a ag' b).partition = p ∧
      (Function.update n.agents a ag' b).serverIds = config.serverId ∧
      (Function.update n.agents a ag' b).localId = b := by
    intro b hb
    by_cases hba : b = a
    · subst hba
      rw [Function.update_self, hag']
      exact ⟨hp, hids, hinv.localId b hb⟩
    · rw [Function.update_of_ne hba]
      exact ⟨hinv.partition b hb, hinv.serverIds b hb, hinv.localId b hb⟩
  refine ⟨fun b hb ↦ (hkeep b hb).1, fun b hb ↦ (hkeep b hb).2.1, fun b hb ↦ (hkeep b hb).2.2,
    fun b hb g₁ hg₁ ↦ ?_, fun i id hid ↦ ?_⟩
  · by_cases hba : b = a
    · subst hba
      simp only [Function.update_self, List.mem_append, List.mem_singleton] at hg₁
      rcases hg₁ with hg₁ | rfl
      · exact hinv.issued b hb g₁ hg₁
      · exact hg
    · simp only [Function.update_of_ne hba] at hg₁
      exact hinv.issued b hb g₁ hg₁
  · obtain ⟨st, q, hserver, hv, hchannel⟩ := hinv.server i id hid
    refine ⟨st, q, hserver, hv, fun b hb ↦ ?_⟩
    obtain ⟨us, hus, hhist⟩ := hchannel b hb
    by_cases hba : b = a
    · subst hba
      refine ⟨us ++ [share p i g], ?_, ?_⟩
      · simp only [Function.update_self]
        rw [hus, hsent, messagesFor_push h hp hids hid hg, hinv.localId b hb, List.map_append]
        rfl
      · simp only [Function.update_self]
        rw [← List.append_assoc, hhist, List.map_append]
        rfl
    · simp only [Function.update_of_ne hba]
      exact ⟨us, hus, hhist⟩

/-- A push of a known agent that is not rejected as overfilled is stored. -/
theorem stored_of_not_overfilled {s : Server F} {st st' : History config F} {q q' : List PullInfo}
    {a : Int} {request : RequestMessage F} {r : Response F} (ha : a ∈ config.workerId)
    (h : Server.Step s st q (.push a request) st' q' r) (hr : r.outcome ≠ .overfilled) :
    r.outcome = .stored := by
  cases h with
  | pushUnknown hb => exact absurd ha hb
  | pushOverfilled hb hfull => exact absurd rfl hr
  | pushStored hb hroom hn => rfl
  | pushCompletes hb hroom hn => rfl

/-- Serving at one server leaves the others alone. -/
theorem Tracks.of_eq {n n' : ShardNet F} {i : ℕ} {id : Int} (h : Tracks config p s₀ n i id)
    (hserver : n'.servers i = n.servers i)
    (hchannel : ∀ a ∈ config.workerId, n'.channel a id = n.channel a id)
    (hissued : n'.issued = n.issued) : Tracks config p s₀ n' i id := by
  obtain ⟨st, q, hst, hv, hus⟩ := h
  refine ⟨st, q, hserver.trans hst, hv, fun a ha ↦ ?_⟩
  rw [hchannel a ha, hissued]
  exact hus a ha

/-- Serving the oldest message of an agent keeps track of it. -/
theorem Tracks.deliver (h : Shards config p s₀) {n : ShardNet F} {a id : Int} {i : ℕ}
    (htracks : Tracks config p s₀ n i id) (ha : a ∈ config.workerId)
    (hissued : ∀ g ∈ n.issued a, Complete p g) (hi : i < config.serverId.length) {m : Message F}
    {rest : List (Message F)} {c : Server.Call F} {s' : Server F} {r : Response F}
    (hm : n.channel a id = m :: rest) (hcall : Server.Call.ofMessage m = some c)
    (hserve : (n.servers i).serve c = .ok (s', r)) (hr : r.outcome ≠ .overfilled) :
    Tracks config p s₀ { n with
      servers := Function.update n.servers i s'
      channel := Function.update n.channel a (Function.update (n.channel a) id rest) } i id := by
  obtain ⟨st, q, hst, hv, hchannel⟩ := htracks
  obtain ⟨us, hus, hhist⟩ := hchannel a ha
  -- the message is the oldest share on its way
  obtain ⟨u, us, rfl⟩ : ∃ u us', us = u :: us' := by
    refine List.exists_cons_of_ne_nil fun hnil ↦ ?_
    rw [hnil, hm] at hus
    simp at hus
  obtain ⟨rfl, rfl⟩ := List.cons.inj (hm.symm.trans hus)
  cases hcall
  have hu : (s₀ i).Owns (u.map Prod.fst) := by
    have hmem : u ∈ (n.issued a).map (share p i) := by
      rw [← hhist]
      simp
    obtain ⟨g, hg, rfl⟩ := List.mem_map.1 hmem
    exact owns_share h hi (hissued g hg)
  have hzip : (u.map Prod.fst).zip (u.map Prod.snd) = u := (List.zip_of_prod rfl rfl).symm
  obtain ⟨st', q', r', hserve', hstep⟩ := Server.serve_step (h.fresh i hi) h.workers hv
    (c := .push a ⟨.keyValue, u.map Prod.fst, u.map Prod.snd⟩) ⟨by simp, hu⟩
  rw [hst] at hserve
  cases hserve.symm.trans hserve'
  have hstored := stored_of_not_overfilled ha hstep hr
  refine ⟨st', q', Function.update_self .., hstep.valid hv ⟨by simp, hu⟩, fun b hb ↦ ?_⟩
  rw [hstep.hist]
  by_cases hba : b = a
  · subst hba
    refine ⟨us, by simp only [Function.update_self], ?_⟩
    rw [← hhist, Server.acceptedOf, if_pos ⟨rfl, hstored⟩, hzip]
    simp
  · obtain ⟨vs, hvs, hhist'⟩ := hchannel b hb
    refine ⟨vs, by simp only [Function.update_of_ne hba, hvs], ?_⟩
    rw [← hhist', Server.acceptedOf, if_neg fun hab ↦ hba hab.1.symm]
    simp

theorem Inv.deliver (h : Shards config p s₀) {n : ShardNet F} (hinv : Inv config p s₀ n)
    {a id : Int} {i : ℕ} {m : Message F} {rest : List (Message F)} {c : Server.Call F}
    {s' : Server F} {r : Response F} (ha : a ∈ config.workerId)
    (hid : config.serverId[i]? = some id) (hm : n.channel a id = m :: rest)
    (hcall : Server.Call.ofMessage m = some c) (hserve : (n.servers i).serve c = .ok (s', r))
    (hr : r.outcome ≠ .overfilled) :
    Inv config p s₀ { n with
      servers := Function.update n.servers i s'
      channel := Function.update n.channel a (Function.update (n.channel a) id rest) } := by
  obtain ⟨hi, hid'⟩ := List.getElem?_eq_some_iff.1 hid
  refine ⟨hinv.partition, hinv.serverIds, hinv.localId, hinv.issued, fun j jd hjd ↦ ?_⟩
  by_cases hji : j = i
  · subst hji
    obtain rfl : jd = id := Option.some.inj (hjd.symm.trans hid)
    exact (hinv.server j jd hid).deliver h ha (hinv.issued a ha) hi hm hcall hserve hr
  · refine (hinv.server j jd hjd).of_eq (Function.update_of_ne hji ..) (fun b hb ↦ ?_) rfl
    have hne : jd ≠ id := by
      rintro rfl
      obtain ⟨hj, hjd'⟩ := List.getElem?_eq_some_iff.1 hjd
      exact hji ((h.servers.nodup.getElem_inj_iff).1 (hjd'.trans hid'.symm))
    by_cases hba : b = a
    · subst hba
      simp only [Function.update_self, Function.update_of_ne hne]
    · simp only [Function.update_of_ne hba]

theorem Inv.pull (h : Shards config p s₀) {n : ShardNet F} (hinv : Inv config p s₀ n) {a : Int}
    {i : ℕ} {request : RequestMessage F} {s' : Server F} {r : Response F}
    (hi : i < config.serverId.length) (hin : (n.servers i).Owns request.keys)
    (hserve : (n.servers i).serve (.pull a request) = .ok (s', r)) :
    Inv config p s₀ { n with servers := Function.update n.servers i s' } := by
  refine ⟨hinv.partition, hinv.serverIds, hinv.localId, hinv.issued, fun j jd hjd ↦ ?_⟩
  by_cases hji : j = i
  · subst hji
    obtain ⟨st, q, hst, hv, hchannel⟩ := hinv.server j jd hjd
    rw [hst] at hin hserve
    obtain ⟨st', q', r', hserve', hstep⟩ := Server.serve_step (h.fresh j hi) h.workers hv
      (c := .pull a request) hin
    cases hserve.symm.trans hserve'
    refine ⟨st', q', Function.update_self .., hstep.valid hv hin, fun b hb ↦ ?_⟩
    obtain ⟨us, hus, hhist⟩ := hchannel b hb
    refine ⟨us, hus, ?_⟩
    rw [hstep.hist, Server.acceptedOf, Option.toList_none, List.append_nil]
    exact hhist
  · exact (hinv.server j jd hjd).of_eq (Function.update_of_ne hji ..) (fun _ _ ↦ rfl) rfl

/-- **The invariant holds in every reachable state.** -/
theorem Inv.reachable (h : Shards config p s₀) {n n' : ShardNet F} (hinv : Inv config p s₀ n)
    (hreach : Relation.ReflTransGen (Step config) n n') : Inv config p s₀ n' := by
  induction hreach with
  | refl => exact hinv
  | tail _ hstep ih =>
    cases hstep with
    | push ha hg hpush => exact ih.push h ha hg hpush
    | deliver ha hid hm hcall hserve hr => exact ih.deliver h ha hid hm hcall hserve hr
    | pull hi hin hserve => exact ih.pull h hi hin hserve

end

end ShardNet

/-! ## The server without sharding -/

section

variable [FloatOps F]

/-- A server whose range is the whole key space. -/
def Server.unsharded (s : Server F) (keyRange : Int) : Server F :=
  { s with
    startKey := 0
    parameterLength := keyRange
    parameters := List.replicate keyRange.toNat FloatOps.zero }

theorem Server.Fresh.unsharded {config : ConfigMessage} {s : Server F} (h : Fresh config s)
    (keyRange : Int) : Fresh config (s.unsharded keyRange) :=
  { h with parameters := rfl }

end

namespace ShardNet

/-- The push of the complete gradient of an agent. -/
def completePush (e : Int × Shmstruct F) : Server.Call F :=
  .push e.1 ⟨.keyValue, e.2.pairs.map Prod.fst, e.2.pairs.map Prod.snd⟩

/-- The gradients of agent `a`. -/
def gradientsOf (a : Int) (feed : List (Int × Shmstruct F)) : List (Shmstruct F) :=
  feed.filterMap fun e ↦ if e.1 = a then some e.2 else none

theorem gradientsOf_concat (a b : Int) (feed : List (Int × Shmstruct F)) (g : Shmstruct F) :
    gradientsOf a (feed ++ [(b, g)]) = gradientsOf a feed ++ if b = a then [g] else [] := by
  rw [gradientsOf, List.filterMap_append, ← gradientsOf]
  by_cases hba : b = a <;> simp [hba]

theorem pushesOf_map_completePush (a : Int) (feed : List (Int × Shmstruct F)) :
    (Server.pushesOf a (feed.map completePush)).map (fun request ↦ request.keys.zip request.values)
      = (gradientsOf a feed).map Shmstruct.pairs := by
  rw [Server.pushesOf, List.filterMap_map, List.map_filterMap, gradientsOf, List.map_filterMap]
  refine List.filterMap_congr fun e _ ↦ ?_
  by_cases hea : e.1 = a
  · simp [completePush, Server.pushOf, hea, ← List.zip_of_prod rfl rfl]
  · simp [completePush, Server.pushOf, hea]

variable [FloatOps F]

/-- The server `u` has been fed complete gradients: of every agent those it has issued, from the
first on and in order, mixed in any way, and none was rejected. -/
structure Fed (config : ConfigMessage) (issued : Int → List (Shmstruct F)) (s₀ u : Server F)
    (feed : List (Int × Shmstruct F)) : Prop where
  known : ∀ e ∈ feed, e.1 ∈ config.workerId
  gradients : ∀ a ∈ config.workerId, gradientsOf a feed <+: issued a
  run : ∃ tr, s₀.run (feed.map completePush) = .ok (u, tr) ∧ Server.NoneRejected tr

section

variable {config : ConfigMessage} {p : Partition} {issued : Int → List (Shmstruct F)}
  {s₀ u : Server F} {feed : List (Int × Shmstruct F)}

/-- A complete gradient is in the range of the server without sharding. -/
theorem owns_pairs {g : Shmstruct F} (hg : Complete p g) (s : Server F) :
    (s.unsharded p.keyRange).Owns (g.pairs.map Prod.fst) := by
  intro k hk
  rw [g.map_fst_pairs] at hk
  have hin := hg.inRange k hk
  rw [Partition.InRange] at hin
  show 0 ≤ k ∧ k < 0 + p.keyRange
  omega

theorem Fed.inRange (hfed : Fed config issued (s₀.unsharded p.keyRange) u feed)
    (hissued : ∀ a ∈ config.workerId, ∀ g ∈ issued a, Complete p g) :
    ∀ c ∈ feed.map completePush, c.InRange (s₀.unsharded p.keyRange) := by
  intro c hc
  obtain ⟨e, he, rfl⟩ := List.mem_map.1 hc
  have hmem : e.2 ∈ gradientsOf e.1 feed := List.mem_filterMap.2 ⟨e, he, if_pos rfl⟩
  have ha := hfed.known e he
  exact ⟨by simp, owns_pairs (hissued e.1 ha e.2 ((hfed.gradients e.1 ha).subset hmem)) s₀⟩

/-- Its histories are the gradients it has been fed. -/
theorem Fed.represents (hf : Server.Fresh config s₀) (hc : config.WorkersOk)
    (hfed : Fed config issued (s₀.unsharded p.keyRange) u feed)
    (hissued : ∀ a ∈ config.workerId, ∀ g ∈ issued a, Complete p g) :
    ∃ (st : History config F) (q : List PullInfo), u = (s₀.unsharded p.keyRange).ofRounds st q ∧
      (s₀.unsharded p.keyRange).Valid st q ∧
      ∀ a ∈ config.workerId, st.hist a = (gradientsOf a feed).map Shmstruct.pairs := by
  obtain ⟨tr, hrun, hnone⟩ := hfed.run
  obtain ⟨s, tr', hrun', st, q, rfl, hv, hhist, -⟩ :=
    Server.run_represents (hf.unsharded p.keyRange) hc (hfed.inRange hissued)
  cases hrun.symm.trans hrun'
  refine ⟨st, q, rfl, hv, fun a ha ↦ ?_⟩
  rw [hhist a ha, Server.accepted_eq_map_pushesOf a hnone, Checked.run_map_fst hrun,
    pushesOf_map_completePush]

/-- An agent with nothing pending can be fed its next gradient. -/
theorem Fed.concat (hf : Server.Fresh config s₀) (hc : config.WorkersOk)
    (hfed : Fed config issued (s₀.unsharded p.keyRange) u feed)
    (hissued : ∀ a ∈ config.workerId, ∀ g ∈ issued a, Complete p g) {a : Int}
    (ha : a ∈ config.workerId) (hempty : u.bufferOf a = .ok []) {g : Shmstruct F}
    (hg : gradientsOf a feed ++ [g] <+: issued a) :
    ∃ u', Fed config issued (s₀.unsharded p.keyRange) u' (feed ++ [(a, g)]) := by
  have hf' := hf.unsharded p.keyRange
  obtain ⟨tr, hrun, hnone⟩ := hfed.run
  obtain ⟨st, q, rfl, hv, hhist⟩ := hfed.represents hf hc hissued
  have hnil : st.pending a = [] :=
    Except.ok.inj ((Server.bufferOf_ofRounds hf' ha).symm.trans hempty)
  have hcomplete : Complete p g := hissued a ha g (hg.subset (by simp))
  obtain ⟨st', q', r, hserve, hstep⟩ := Server.serve_step hf' hc hv (c := completePush (a, g))
    ⟨by simp, owns_pairs hcomplete s₀⟩
  have hstored : r.outcome = .stored := by
    refine stored_of_not_overfilled ha hstep fun hover ↦ ?_
    have hpos := hc.bound
    cases hstep with
    | pushOverfilled hb hfull =>
      rw [hnil, List.length_nil] at hfull
      omega
    | pushUnknown hb | pushStored hb hroom hn | pushCompletes hb hroom hn => cases hover
  refine ⟨(s₀.unsharded p.keyRange).ofRounds st' q', fun e he ↦ ?_, fun b hb ↦ ?_,
    tr ++ [(completePush (a, g), r)], ?_, fun e he ↦ ?_⟩
  · rcases List.mem_append.1 he with he | he
    · exact hfed.known e he
    · rw [List.mem_singleton.1 he]
      exact ha
  · rw [gradientsOf_concat]
    by_cases hab : a = b
    · subst hab
      rw [if_pos rfl]
      exact hg
    · rw [if_neg hab, List.append_nil]
      exact hfed.gradients b hb
  · rw [List.map_append]
    exact Checked.run_concat hrun hserve
  · rcases List.mem_append.1 he with he | he
    · exact hnone e he
    · rw [List.mem_singleton.1 he, completePush, Server.rejected, hstored]
      rfl

/-- The server without sharding gets through every round the agents have issued. -/
theorem exists_fed (hf : Server.Fresh config s₀) (hc : config.WorkersOk)
    (hissued : ∀ a ∈ config.workerId, ∀ g ∈ issued a, Complete p g) {r : ℕ}
    (hr : ∀ a ∈ config.workerId, r ≤ (issued a).length) :
    ∃ feed u, Fed config issued (s₀.unsharded p.keyRange) u feed ∧ u.bottomVersion = r := by
  -- by induction on what is left to feed: whoever is last gets its next gradient
  have hmain : ∀ (m : ℕ) (feed : List (Int × Shmstruct F)) (u : Server F),
      Fed config issued (s₀.unsharded p.keyRange) u feed →
      (∀ a ∈ config.workerId, (gradientsOf a feed).length ≤ r) →
      (config.workerId.map fun a ↦ r - (gradientsOf a feed).length).sum = m →
      ∃ feed u, Fed config issued (s₀.unsharded p.keyRange) u feed ∧ u.bottomVersion = r := by
    intro m
    induction m using Nat.strong_induction_on with
    | _ m ih =>
      intro feed u hfed hle hm
      obtain ⟨st, q, rfl, hv, hhist⟩ := hfed.represents hf hc hissued
      obtain ⟨a, ha, hlen⟩ := st.exists_eq
      rw [hhist a ha, List.length_map] at hlen
      have hlea := hle a ha
      by_cases hbottom : st.bottom = r
      · exact ⟨feed, _, hfed, congrArg Nat.cast hbottom⟩
      · have hr' := hr a ha
        obtain ⟨rest, hrest⟩ := hfed.gradients a ha
        obtain ⟨g, rest, rfl⟩ : ∃ g rest', rest = g :: rest' := by
          refine List.exists_cons_of_ne_nil fun hnil ↦ ?_
          rw [hnil, List.append_nil] at hrest
          rw [← hrest] at hr'
          omega
        have hempty : ((s₀.unsharded p.keyRange).ofRounds st q).bufferOf a = .ok [] := by
          rw [Server.bufferOf_ofRounds (hf.unsharded p.keyRange) ha, Rounds.pending, hhist a ha,
            ← hlen, ← List.map_drop, List.drop_length, List.map_nil]
        obtain ⟨u', hfed'⟩ := hfed.concat hf hc hissued ha hempty (g := g)
          ⟨rest, by simpa using hrest⟩
        have hlength : ∀ b, (gradientsOf b (feed ++ [(a, g)])).length
            = (gradientsOf b feed).length + if a = b then 1 else 0 := by
          intro b
          rw [gradientsOf_concat, List.length_append]
          split <;> rfl
        refine ih _ ?_ _ u' hfed' (fun b hb ↦ ?_) rfl
        · rw [← hm]
          refine List.sum_lt_sum _ _ (fun b _ ↦ ?_) ⟨a, ha, ?_⟩
          · rw [hlength]
            omega
          · rw [hlength, if_pos rfl]
            omega
        · have hleb := hle b hb
          rw [hlength]
          split
          · rename_i hab
            subst hab
            omega
          · omega
  exact hmain _ [] _ ⟨by simp, fun a _ ↦ List.nil_prefix, [], rfl, by simp [Server.NoneRejected]⟩
    (fun a _ ↦ Nat.zero_le _) rfl

end

/-! ## The same values -/

section

variable {config : ConfigMessage} {p : Partition} {s₀ : ℕ → Server F}
  {issued : Int → List (Shmstruct F)}

omit [FloatOps F] in
/-- The share of a server holds what the gradient holds for its keys. -/
theorem valuesFor_share {g : Shmstruct F} (hg : g.Distinct) {i : ℕ} {key : Int}
    (hslot : p.slot key = i + 1) :
    Server.valuesFor key (share p i g) = Server.valuesFor key g.pairs := by
  have hshare : (share p i g).filter (fun e ↦ e.1 = key)
      = g.sortedPairs.filter fun e ↦ e.1 = key := by
    rw [share, Agent.part, List.filter_filter]
    refine List.filter_congr fun e _ ↦ ?_
    by_cases he : e.1 = key <;> simp [he, hslot]
  have hnodup : (g.pairs.map Prod.fst).Nodup := by
    rw [g.map_fst_pairs]
    exact hg.nodup
  rw [Server.valuesFor, Server.valuesFor, hshare,
    Lists.filter_eq_of_perm (Shmstruct.sortedPairs_perm hg) hnodup]

/-- **A server and the one without sharding, after the same number of rounds.** -/
theorem getElem?_total_eq (h : Shards config p s₀) {i : ℕ} (hi : i < config.serverId.length)
    {s : Server F} (hf : Server.Fresh config s)
    (hissued : ∀ a ∈ config.workerId, ∀ g ∈ issued a, Complete p g) {st st' : History config F}
    (hst : ∀ a ∈ config.workerId, st.hist a <+: (issued a).map (share p i))
    (hst' : ∀ a ∈ config.workerId, st'.hist a <+: (issued a).map Shmstruct.pairs)
    (hbottom : st.bottom = st'.bottom) {key : Int} (hk : p.InRange key)
    (hslot : p.slot key = i + 1) :
    (st.total (s₀ i).mergeRound (s₀ i).parameters)[(key - (s₀ i).startKey).toNat]?
      = (st'.total (s.unsharded p.keyRange).mergeRound
          (s.unsharded p.keyRange).parameters)[(key - 0).toNat]? := by
  have hf' := hf.unsharded p.keyRange
  have howns := h.owns hi hk hslot
  have howns' : (s.unsharded p.keyRange).Owns [key] := by
    intro k hk'
    rw [List.mem_singleton.1 hk']
    show 0 ≤ key ∧ key < 0 + p.keyRange
    rw [Partition.InRange] at hk
    omega
  rw [Rounds.total, Rounds.total, hbottom]
  refine Rounds.fold_rel (fun x y ↦ x[(key - (s₀ i).startKey).toNat]? = y[(key - 0).toNat]?) ?_
    fun r hr x y hxy ↦ ?_
  · have hlt := howns key (List.mem_singleton_self key)
    have hlt' := howns' key (List.mem_singleton_self key)
    have hzero : (s.unsharded p.keyRange).startKey = 0 := rfl
    rw [(h.fresh i hi).parameters, hf'.parameters, List.getElem?_replicate_of_lt (by omega),
      List.getElem?_replicate_of_lt (by omega)]
  · have hget : ∀ a ∈ config.workerId, ∃ g ∈ issued a, (st.hist a)[r]? = some (share p i g) ∧
        (st'.hist a)[r]? = some g.pairs := by
      intro a ha
      have hlt : r < (st.hist a).length := lt_of_lt_of_le hr (hbottom ▸ st.bottom_le a ha)
      have hlt' : r < (st'.hist a).length := lt_of_lt_of_le hr (st'.bottom_le a ha)
      exact Lists.exists_getElem?_of_isPrefix (hst a ha) (hst' a ha) hlt hlt'
    have hus : ∀ u ∈ Rounds.round config.workerId st.hist r, (s₀ i).Owns (u.map Prod.fst) := by
      intro u hu
      obtain ⟨a, ha, hau⟩ := List.mem_filterMap.1 hu
      obtain ⟨g, hg, hshare, -⟩ := hget a ha
      rw [← Option.some.inj (hshare.symm.trans hau)]
      exact owns_share h hi (hissued a ha g hg)
    have hus' : ∀ u ∈ Rounds.round config.workerId st'.hist r,
        (s.unsharded p.keyRange).Owns (u.map Prod.fst) := by
      intro u hu
      obtain ⟨a, ha, hau⟩ := List.mem_filterMap.1 hu
      obtain ⟨g, hg, -, hpairs⟩ := hget a ha
      rw [← Option.some.inj (hpairs.symm.trans hau)]
      exact owns_pairs (hissued a ha g hg) s
    have hflat : (Rounds.round config.workerId st.hist r).flatMap (Server.valuesFor key)
        = (Rounds.round config.workerId st'.hist r).flatMap (Server.valuesFor key) := by
      rw [Rounds.flatMap_round, Rounds.flatMap_round]
      refine List.flatMap_congr fun a ha ↦ ?_
      obtain ⟨g, hg, hshare, hpairs⟩ := hget a ha
      rw [hshare, hpairs]
      exact valuesFor_share (hissued a ha g hg).distinct hslot
    have hnum : (s₀ i).agentNum = (s.unsharded p.keyRange).agentNum :=
      (h.fresh i hi).agentNum.trans hf'.agentNum.symm
    rw [Server.getElem?_mergeRound howns hus, hxy, hflat, hnum]
    exact (Server.getElem?_mergeRound howns' hus' y).symm

/-- Servers initialised for a partition that goes up strictly from `0`. -/
theorem shards_of_initialize {masterIpPort : String} (hc : config.WorkersOk)
    (hs : config.ServersOk) (htwo : 2 ≤ config.serverNum)
    (hinc : config.partition.Pairwise (· < ·)) (hfirst : config.partition.head? = some 0)
    (hp : Partition.initializePartition config.keyRange config.serverNum config.partition = .ok p)
    (hservers : ∀ i id, config.serverId[i]? = some id →
      Server.initializeServer masterIpPort id config = .ok (s₀ i)) :
    Shards config p s₀ := by
  have hnum := hs.serverNum
  have hlen := hs.partition
  have hpos : 0 < config.serverNum := by omega
  have hlen' : (config.partition.length : Int) = config.serverNum := by omega
  obtain ⟨p', hp', hkeys, -, hvec⟩ :=
    Partition.initializePartition_ok config.keyRange hpos hlen'
  obtain rfl : p' = p := Except.ok.inj (hp'.symm.trans hp)
  have hinit : ∀ (i : ℕ) (hi : i < config.serverId.length),
      Server.initializeServer masterIpPort config.serverId[i] config = .ok (s₀ i) := fun i hi ↦
    hservers i _ (List.getElem?_eq_getElem hi)
  have hrange := fun (i : ℕ) (hi : i < config.serverId.length) ↦
    Server.initializeServer_range hs.toRangesOk hi (hinit i hi)
  refine ⟨hc, hs.toRangesOk, ?_, ⟨hkeys, hvec⟩, ?_, fun n hn ↦ ?_,
    fun i hi ↦ Server.initializeServer_fresh hc (hinit i hi),
    fun i hi ↦ (hrange i hi).2.2.2.1, fun i hi ↦ (hrange i hi).2.2.2.2⟩
  · rw [Partition.Ordered, hvec]
    exact hinc.imp le_of_lt
  · rw [ConfigMessage.startOf, ← List.head?_eq_getElem?, hfirst]
    rfl
  · have hlt := List.pairwise_iff_getElem.1 hinc 0 n (by omega) (by omega) (by omega)
    rw [ConfigMessage.startOf, ConfigMessage.startOf, List.getElem?_eq_getElem (by omega),
      List.getElem?_eq_getElem (by omega), Option.getD_some, Option.getD_some]
    exact hlt.ne

/-- **Sharding is transparent.**  Let the boundaries go up strictly from `0`, and let every agent
push gradients of distinct keys, with a key of every server.  In every state the cluster can reach,
and for every server: the server without sharding can be fed up to the same round, and whenever it
has been fed up to that round, in whatever order, it holds for every key of the server the value
the server holds for it. -/
theorem sharded_eq_unsharded {masterAddr : String} {agents : Int → Agent F} (hc : config.WorkersOk)
    (hs : config.ServersOk) (htwo : 2 ≤ config.serverNum)
    (hinc : config.partition.Pairwise (· < ·)) (hfirst : config.partition.head? = some 0)
    (hp : Partition.initializePartition config.keyRange config.serverNum config.partition = .ok p)
    (hagents : ∀ a ∈ config.workerId, ∃ gradients parameters,
      Agent.initializeAgent masterAddr a config gradients parameters = .ok (agents a))
    (hservers : ∀ i id, config.serverId[i]? = some id →
      Server.initializeServer masterAddr id config = .ok (s₀ i))
    {n : ShardNet F} (hreach : Relation.ReflTransGen (Step config) (start agents s₀) n) {i : ℕ}
    (hi : i < config.serverId.length) :
    (∃ feed u, Fed config n.issued ((s₀ 0).unsharded config.keyRange) u feed ∧
      u.bottomVersion = (n.servers i).bottomVersion) ∧
    ∀ feed u, Fed config n.issued ((s₀ 0).unsharded config.keyRange) u feed →
      u.bottomVersion = (n.servers i).bottomVersion →
      ∀ key, 0 ≤ key → key < config.keyRange → p.getServerByKey key = i →
        ∃ x, Checked.get (n.servers i).parameters (key - (n.servers i).startKey) = .ok x ∧
          Checked.get u.parameters key = .ok x := by
  have h := shards_of_initialize hc hs htwo hinc hfirst hp hservers
  have hf := h.fresh 0 (by omega)
  have hinv : Inv config p s₀ n := by
    have hspec : ∀ a ∈ config.workerId, (agents a).partition = p ∧
        (agents a).serverIds = config.serverId ∧ (agents a).localId = a := by
      intro a ha
      obtain ⟨gradients, parameters, hinit⟩ := hagents a ha
      obtain ⟨hlocal, hids, hpart⟩ := Agent.initializeAgent_spec hinit
      refine ⟨Except.ok.inj (hpart.symm.trans hp), ?_, hlocal⟩
      rw [hids, hs.serverNum, Int.toNat_natCast, List.take_length]
    exact (Inv.init h (fun a ha ↦ (hspec a ha).1) (fun a ha ↦ (hspec a ha).2.1)
      fun a ha ↦ (hspec a ha).2.2).reachable h hreach
  obtain ⟨st, q, hst, hv, hchannel⟩ := hinv.server i _ (List.getElem?_eq_getElem hi)
  have hshares : ∀ a ∈ config.workerId, st.hist a <+: (n.issued a).map (share p i) := by
    intro a ha
    obtain ⟨us, -, hhist⟩ := hchannel a ha
    exact ⟨us, hhist⟩
  rw [← h.same.keyRange, hst]
  refine ⟨?_, fun feed u hfed hbottom key hnonneg hlt howner ↦ ?_⟩
  · refine exists_fed hf hc hinv.issued fun a ha ↦ ?_
    have hle := (hshares a ha).length_le
    rw [List.length_map] at hle
    exact le_trans (st.bottom_le a ha) hle
  · obtain ⟨st', q', rfl, hv', hhist'⟩ := hfed.represents hf hc hinv.issued
    have hk : p.InRange key := ⟨hnonneg, hlt⟩
    rw [Partition.getServerByKey_eq h.ordered hk, p.serverOf_eq_iff (h.slot_pos hi hk)] at howner
    have hfed' : ∀ a ∈ config.workerId,
        st'.hist a <+: (n.issued a).map Shmstruct.pairs := by
      intro a ha
      rw [hhist' a ha]
      exact (hfed.gradients a ha).map _
    have heq := getElem?_total_eq h hi hf hinv.issued hshares hfed' (Int.ofNat_inj.1 hbottom).symm
      hk howner
    have hget := Server.get_parameters (Server.length_parameters (h.fresh i hi) st q)
      (h.owns hi hk howner key (List.mem_singleton_self key))
    have hget' := Server.get_parameters
      (Server.length_parameters (hf.unsharded p.keyRange) st' q') (k := key)
      (show 0 ≤ key ∧ key < 0 + p.keyRange by omega)
    have hzero : key - ((s₀ 0).unsharded p.keyRange).startKey = key := Int.sub_zero key
    refine ⟨_, hget, (congrArg (Checked.get _) hzero.symm).trans (hget'.trans ?_)⟩
    exact congrArg (fun x ↦ Except.ok (Option.getD x FloatOps.zero)) heq.symm

end

/-- The gradients of two agents, each with a key of both servers. -/
def smallGradient (a : Int) : Shmstruct Int :=
  if a = 3 then .ofPairs 0 [(7, 20), (2, 10)] (by decide)
  else .ofPairs 0 [(2, 4), (7, 2)] (by decide)

theorem complete_smallGradient {p : Partition} (hrange : p.keyRange = 10) (hnum : p.serverNum = 2)
    (howner : p.getServerByKey 2 = 0) (howner' : p.getServerByKey 7 = 1) (a : Int) :
    Complete p (smallGradient a) := by
  have hkeys : ∀ k, k ∈ (smallGradient a).usedKeys ↔ k = 2 ∨ k = 7 := by
    intro k
    rw [smallGradient]
    split <;> simp [or_comm]
  refine ⟨?_, fun k hk ↦ ?_, fun i hi ↦ ?_⟩
  · rw [smallGradient]
    split <;> exact ⟨by decide, by decide, by decide⟩
  · rw [Partition.InRange, hrange]
    have := (hkeys k).1 hk
    omega
  · obtain rfl | rfl : i = 0 ∨ i = 1 := by omega
    · exact ⟨2, (hkeys 2).2 (.inl rfl), howner⟩
    · exact ⟨7, (hkeys 7).2 (.inr rfl), howner'⟩

theorem smallConfig_serversOk : Server.smallConfig.ServersOk :=
  ⟨by constructor <;> decide, by decide, by decide⟩

/-- Both agents push, and the first server gets to see both before the second sees either. -/
theorem sharded_eq_unsharded_smallConfig :
    ∃ (p : Partition) (agents : Int → Agent Int) (s₀ : ℕ → Server Int) (n : ShardNet Int),
      Partition.initializePartition 10 2 [0, 4] = .ok p ∧
      Relation.ReflTransGen (Step Server.smallConfig) (start agents s₀) n ∧
      (n.servers 0).bottomVersion = 1 ∧ (n.servers 1).bottomVersion = 0 ∧
      Checked.get (n.servers 0).parameters 2 = .ok 7 ∧
      ∃ feed u, Fed Server.smallConfig n.issued ((s₀ 0).unsharded 10) u feed ∧
        Checked.get u.parameters 2 = .ok 7 := by
  obtain ⟨p, ag₃, ag₄, s₁, s₂, ag₃', ag₄', sent₃, sent₄, m₃, m₄, c₃, c₄, s₁', s₁'', r₃, r₄, hp,
      hag₃, hag₄, hs₁, hs₂, hp₃, hp₄, hrange, hnum, howner, howner', hpush₃, hpush₄, hm₃, hm₄,
      hc₃, hc₄, hserve₃,
      hserve₄, hr₃, hr₄, hb₁, hb₂, hstart, hget⟩ :
      ∃ p ag₃ ag₄ s₁ s₂ ag₃' ag₄' sent₃ sent₄ m₃ m₄ c₃ c₄ s₁' s₁'' r₃ r₄,
        Partition.initializePartition 10 2 [0, 4] = .ok p ∧
        Agent.initializeAgent "10.0.0.1:80" 3 Server.smallConfig Agent.noPairs Agent.noPairs
          = .ok ag₃ ∧
        Agent.initializeAgent "10.0.0.1:80" 4 Server.smallConfig Agent.noPairs Agent.noPairs
          = .ok ag₄ ∧
        Server.initializeServer (F := Int) "10.0.0.1:80" 1 Server.smallConfig = .ok s₁ ∧
        Server.initializeServer (F := Int) "10.0.0.1:80" 2 Server.smallConfig = .ok s₂ ∧
        ag₃.partition = p ∧ ag₄.partition = p ∧ p.keyRange = 10 ∧ p.serverNum = 2 ∧
        p.getServerByKey 2 = 0 ∧ p.getServerByKey 7 = 1 ∧
        ag₃.workPush (smallGradient 3) = .ok (ag₃', sent₃) ∧
        ag₄.workPush (smallGradient 4) = .ok (ag₄', sent₄) ∧
        messagesFor 1 sent₃ = [m₃] ∧ messagesFor 1 sent₄ = [m₄] ∧
        Server.Call.ofMessage m₃ = some c₃ ∧ Server.Call.ofMessage m₄ = some c₄ ∧
        s₁.serve c₃ = .ok (s₁', r₃) ∧ s₁'.serve c₄ = .ok (s₁'', r₄) ∧
        r₃.outcome = .stored ∧ r₄.outcome = .stored ∧ s₁''.bottomVersion = 1 ∧
        s₂.bottomVersion = 0 ∧ s₁''.startKey = 0 ∧ Checked.get s₁''.parameters 2 = .ok 7 :=
    ⟨_, _, _, _, _, _, _, _, _, _, _, _, _, _, _, _, _, rfl, rfl, rfl, rfl, rfl, rfl, rfl, rfl, rfl,
      rfl,
      rfl, rfl, rfl, rfl, rfl, rfl, rfl, rfl, rfl, rfl, rfl, rfl, rfl, rfl, rfl⟩
  have hcomplete := complete_smallGradient hrange hnum howner howner'
  have hreach : Relation.ReflTransGen (Step Server.smallConfig)
      (start (fun a ↦ if a = 3 then ag₃ else ag₄) fun i ↦ if i = 0 then s₁ else s₂) _ :=
    (((Relation.ReflTransGen.refl.tail
      (.push (a := 3) (by decide) (hp₃ ▸ hcomplete 3) hpush₃)).tail
      (.push (a := 4) (by decide) (hp₄ ▸ hcomplete 4) hpush₄)).tail
      (.deliver (a := 3) (i := 0) (by decide) rfl hm₃ hc₃ hserve₃ (by rw [hr₃]; decide))).tail
      (.deliver (a := 4) (i := 0) (by decide) rfl hm₄ hc₄ hserve₄ (by rw [hr₄]; decide))
  have hagents : ∀ a ∈ Server.smallConfig.workerId, ∃ gradients parameters,
      Agent.initializeAgent "10.0.0.1:80" a Server.smallConfig gradients parameters
        = .ok (if a = 3 then ag₃ else ag₄) := by
    intro a ha
    obtain rfl | rfl : a = 3 ∨ a = 4 := by simpa [Server.smallConfig] using ha
    · exact ⟨_, _, hag₃⟩
    · exact ⟨_, _, hag₄⟩
  have hservers : ∀ i id, Server.smallConfig.serverId[i]? = some id →
      Server.initializeServer "10.0.0.1:80" id Server.smallConfig
        = .ok (if i = 0 then s₁ else s₂) := by
    intro i id hid
    have hi : i < 2 := (List.getElem?_eq_some_iff.1 hid).1
    obtain rfl | rfl : i = 0 ∨ i = 1 := by omega
    · cases hid
      exact hs₁
    · cases hid
      exact hs₂
  obtain ⟨⟨feed, u, hfed, hbottom⟩, hall⟩ := sharded_eq_unsharded (i := 0)
    Server.smallConfig_workersOk smallConfig_serversOk (by decide) (by decide) rfl hp hagents
    hservers hreach (by decide)
  obtain ⟨x, hx, hux⟩ := hall feed u hfed hbottom 2 (by decide) (by decide) howner
  have hx' : Checked.get s₁''.parameters (2 - s₁''.startKey) = .ok x := hx
  rw [hstart] at hx'
  refine ⟨p, _, _, _, hp, hreach, hb₁, hb₂, hget, feed, u, hfed, hux.trans ?_⟩
  exact hx'.symm.trans hget

end ShardNet

end Rpscc
