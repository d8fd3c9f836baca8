import Rpscc.Cluster.Pulls
import Rpscc.Cluster.Sharding
import Rpscc.Communication.AddressBook
import Rpscc.Lib.Staleness
import Rpscc.Server.FlowControl

/-!
# Training

What the program is for.  Behind every agent there is a worker that pulls the weights of all its
features, computes an update from them, pushes it, and begins again; `AgentWork` passes the signals
on, and the servers average what they are pushed and hold back the pulls of workers that have run
too far ahead.

`TrainNet` is the whole of it: the place of every agent in its loop (`Station`), the servers, each
in a round of its own, and the requests and replies on their way, first in, first out between every
agent and every server.  `TrainNet.Step` interleaves all of them in any order.  The worker is a
`Plugin`: any function of the weights.

`Inv` says of every pair of an agent and a server which messages can be under way between them
(`Network.Stage`), and of every weight that has left a server, wherever it is now, that it is the
value of its key after a number of rounds that is not too small (`SeenAt`).  The values themselves
are read off the updates that have been pushed (`valueAfter`), so that it does not matter which
server has got how far.

The features have to begin at the first boundary (`Plugin.Fits`).  A key below it belongs to the
last server, which would compute a negative position for it.
-/

set_option autoImplicit false

namespace Rpscc

variable {F : Type}

/-- A worker program, as the cluster sees it: the keys it pulls, and the pairs that the worker of
agent `a` writes in epoch `r` when it has read the given ones. -/
structure Plugin (F : Type) where
  features : List Int
  update : Int → ℕ → List (Int × F) → List (Int × F)

/-- Where an agent is in the loop of `AgentWork`: about to pull, inside `Pull`, or waiting for the
update its worker computes. -/
inductive Station (F : Type)
  | idle (ag : Agent F)
  | pulling (w : Agent.Pulling F)
  | computing (ag : Agent F)

/-- The agents and servers of one configuration.  `requests a id` holds the requests of agent `a` to
the server with the given id and `replies a id` what comes back, the oldest first. -/
structure TrainNet (F : Type) where
  station : Int → Station F
  servers : ℕ → Server F
  requests : Int → Int → List (Server.Call F)
  replies : Int → Int → List (Sent F)
  /-- The updates every agent has pushed so far. -/
  issued : Int → List (Shmstruct F)

/-- The features fit into a block of shared memory, none of them lies below the first boundary,
every server owns one, and the worker writes the keys it has read. -/
structure Plugin.Fits (pl : Plugin F) (p : Partition) : Prop where
  length_le : pl.features.length ≤ 100
  nodup : pl.features.Nodup
  inRange : ∀ k ∈ pl.features, p.InRange k
  first_le : ∀ k ∈ pl.features, p.first ≤ k
  owner : ∀ i : ℕ, (i : Int) < p.serverNum → ∃ k ∈ pl.features, p.getServerByKey k = i
  keys : ∀ a r ps, (ps.map Prod.fst).Perm pl.features →
    ((pl.update a r ps).map Prod.fst).Perm pl.features

/-- The worker does not mind in which order it reads the pairs. -/
def Plugin.IgnoresOrder (pl : Plugin F) : Prop :=
  ∀ a r ps ps', (ps.map Prod.fst).Nodup → ps.Perm ps' → (pl.update a r ps).Perm (pl.update a r ps')

/-- What it contributes to the value of a key. -/
def Plugin.contrib [FloatOps F] (pl : Plugin F) (a : Int) (r : ℕ) (ps : List (Int × F)) (k : Int) :
    F :=
  ((pl.update a r ps).lookup k).getD FloatOps.zero

/-- When a reply is under way, no request is. -/
theorem Network.Stage.requests_eq_nil {a : Int} {room : Prop} {phase : Phase}
    {requests : List (Server.Call F)} {replies : List (Sent F)} {blocked : List (List Int)}
    (h : Network.Stage a room phase requests replies blocked) (hm : replies ≠ []) :
    requests = [] := by
  cases h with
  | answered m hroom => rfl
  | idle | pushing request hroom | pushingAhead request request' hroom | pulling request
  | blocked keys | working hroom => exact absurd rfl hm

/-- Only an agent inside `Pull` is sent replies. -/
theorem Network.Stage.eq_wait {a : Int} {room : Prop} {phase : Phase}
    {requests : List (Server.Call F)} {m : Sent F} {replies : List (Sent F)}
    {blocked : List (List Int)}
    (h : Network.Stage a room phase requests (m :: replies) blocked) : phase = .wait := by
  cases h with
  | answered m hroom => rfl

/-- A block has the pairs it is made of. -/
@[simp] theorem Shmstruct.pairs_ofPairs (x : F) (ps : List (Int × F)) (h : ps.length ≤ 100) :
    (ofPairs x ps h).pairs = ps := by
  have hlen : (ps.map Prod.fst).length = (ps.map Prod.snd).length := by
    rw [List.length_map, List.length_map]
  rw [pairs, ofPairs, List.zip_append hlen, ← List.zip_of_prod rfl rfl, Int.toNat_natCast,
    List.take_left']
  rfl

namespace TrainNet

open Server (Call waiting pullOf acceptedOf replyKeys)
open ShardNet (share shareMessage messagesFor)

/-- Nothing has happened yet. -/
def start (agents : Int → Agent F) (servers : ℕ → Server F) : TrainNet F where
  station := fun a ↦ .idle (agents a)
  servers := servers
  requests := fun _ _ ↦ []
  replies := fun _ _ ↦ []
  issued := fun _ ↦ []

/-- The requests among some messages for the server with the given id. -/
def callsTo (id : Int) (sent : List (Sent F)) : List (Call F) :=
  (messagesFor id sent).filterMap Call.ofMessage

variable [FloatOps F]

/-- A step of an agent or its worker, or of a server, which takes the oldest request of some
agent. -/
inductive Step (config : ConfigMessage) (pl : Plugin F) : TrainNet F → TrainNet F → Prop
  | pull {n : TrainNet F} {a : Int} {ag : Agent F} {g : Shmstruct F} {w : Agent.Pulling F}
      {sent : List (Sent F)} (ha : a ∈ config.workerId) (hidle : n.station a = .idle ag)
      (hsize : g.size = pl.features.length) (hg : g.usedKeys = pl.features)
      (hsend : ag.workPull g = .ok (w, sent)) :
      Step config pl n { n with
        station := Function.update n.station a (.pulling w)
        requests := Function.update n.requests a fun id ↦ n.requests a id ++ callsTo id sent }
  | receive {n : TrainNet F} {a id : Int} {w w' : Agent.Pulling F} {m : Sent F}
      {rest : List (Sent F)} (ha : a ∈ config.workerId) (hid : id ∈ config.serverId)
      (hw : n.station a = .pulling w) (hset : w.serverSet ≠ []) (hm : n.replies a id = m :: rest)
      (hreceive : w.receive (some m.msg) = .ok w') :
      Step config pl n { n with
        station := Function.update n.station a (.pulling w')
        replies := Function.update n.replies a (Function.update (n.replies a) id rest) }
  | finish {n : TrainNet F} {a : Int} {w : Agent.Pulling F} (ha : a ∈ config.workerId)
      (hw : n.station a = .pulling w) (hset : w.serverSet = []) :
      Step config pl n { n with station := Function.update n.station a (.computing w.finish) }
  | push {n : TrainNet F} {a : Int} {ag ag' : Agent F} {g : Shmstruct F} {sent : List (Sent F)}
      (ha : a ∈ config.workerId) (hag : n.station a = .computing ag)
      (hsize : g.size = ag.parameters.size)
      (hg : g.pairs = pl.update a (n.issued a).length ag.parameters.pairs)
      (hsend : ag.workPush g = .ok (ag', sent)) :
      Step config pl n { n with
        station := Function.update n.station a (.idle ag')
        requests := Function.update n.requests a fun id ↦ n.requests a id ++ callsTo id sent
        issued := Function.update n.issued a (n.issued a ++ [g]) }
  | serve {n : TrainNet F} {a id : Int} {i : ℕ} {c : Call F} {rest : List (Call F)}
      {s' : Server F} {r : Response F} (ha : a ∈ config.workerId)
      (hid : config.serverId[i]? = some id) (hc : n.requests a id = c :: rest)
      (hserve : (n.servers i).serve c = .ok (s', r)) :
      Step config pl n { n with
        servers := Function.update n.servers i s'
        requests := Function.update n.requests a (Function.update (n.requests a) id rest)
        replies := fun b ↦ Function.update (n.replies b) id
          (n.replies b id ++ Network.repliesFor b r.sent) }

/-! ## Running -/

/-- Who takes the next step. -/
inductive Event
  | pull (a : Int)
  | receive (a id : Int)
  | finish (a : Int)
  | push (a : Int)
  | serve (a : Int) (i : ℕ)

/-- The step of an event, if it can be taken. -/
def next (config : ConfigMessage) (pl : Plugin F) (n : TrainNet F) : Event → Option (TrainNet F)
  | .pull a =>
    match n.station a with
    | .idle ag =>
      if h : (pl.features.map fun k ↦ (k, (FloatOps.zero : F))).length ≤ 100 then
        (ag.workPull (.ofPairs FloatOps.zero _ h)).toOption.map fun r ↦ { n with
          station := Function.update n.station a (.pulling r.1)
          requests := Function.update n.requests a fun id ↦ n.requests a id ++ callsTo id r.2 }
      else none
    | _ => none
  | .receive a id =>
    match n.station a, n.replies a id with
    | .pulling w, m :: rest =>
      if w.serverSet = [] then none
      else (w.receive (some m.msg)).toOption.map fun w' ↦ { n with
        station := Function.update n.station a (.pulling w')
        replies := Function.update n.replies a (Function.update (n.replies a) id rest) }
    | _, _ => none
  | .finish a =>
    match n.station a with
    | .pulling w =>
      if w.serverSet = [] then
        some { n with station := Function.update n.station a (.computing w.finish) }
      else none
    | _ => none
  | .push a =>
    match n.station a with
    | .computing ag =>
      let ps := pl.update a (n.issued a).length ag.parameters.pairs
      if h : ps.length ≤ 100 ∧ ag.parameters.size = ps.length then
        let g := Shmstruct.ofPairs FloatOps.zero ps h.1
        (ag.workPush g).toOption.map fun r ↦ { n with
          station := Function.update n.station a (.idle r.1)
          requests := Function.update n.requests a fun id ↦ n.requests a id ++ callsTo id r.2
          issued := Function.update n.issued a (n.issued a ++ [g]) }
      else none
    | _ => none
  | .serve a i =>
    match config.serverId[i]? with
    | some id =>
      match n.requests a id with
      | c :: rest => ((n.servers i).serve c).toOption.map fun r ↦ { n with
          servers := Function.update n.servers i r.1
          requests := Function.update n.requests a (Function.update (n.requests a) id rest)
          replies := fun b ↦ Function.update (n.replies b) id
            (n.replies b id ++ Network.repliesFor b r.2.sent) }
      | [] => none
    | none => none

/-- The agent and the server of an event belong to the configuration. -/
def Event.Known (config : ConfigMessage) : Event → Prop
  | .pull a | .finish a | .push a | .serve a _ => a ∈ config.workerId
  | .receive a id => a ∈ config.workerId ∧ id ∈ config.serverId

theorem step_of_next {config : ConfigMessage} {pl : Plugin F} {n n' : TrainNet F} {e : Event}
    (hknown : e.Known config) (h : n.next config pl e = some n') : Step config pl n n' := by
  cases e with
  | pull a =>
    simp only [next] at h
    split at h
    · rename_i ag hag
      split at h
      · rename_i hlen
        obtain ⟨⟨w, sent⟩, hsend, rfl⟩ := Option.map_eq_some_iff.1 h
        rw [Checked.toOption_eq_some] at hsend
        refine .pull hknown hag ?_ ?_ hsend
        · show ((pl.features.map fun k ↦ (k, (FloatOps.zero : F))).length : Int) = _
          rw [List.length_map]
        · rw [Shmstruct.usedKeys_ofPairs, List.map_map]
          exact List.map_id' _
      · cases h
    · cases h
  | receive a id =>
    simp only [next] at h
    split at h
    · rename_i w m rest hw hm
      split at h
      · cases h
      · rename_i hset
        obtain ⟨w', hreceive, rfl⟩ := Option.map_eq_some_iff.1 h
        exact .receive hknown.1 hknown.2 hw hset hm (Checked.toOption_eq_some.1 hreceive)
    · cases h
  | finish a =>
    simp only [next] at h
    split at h
    · rename_i w hw
      split at h
      · rename_i hset
        obtain rfl := Option.some.inj h
        exact .finish hknown hw hset
      · cases h
    · cases h
  | push a =>
    simp only [next] at h
    split at h
    · rename_i ag hag
      split at h
      · rename_i hlen
        obtain ⟨⟨ag', sent⟩, hsend, rfl⟩ := Option.map_eq_some_iff.1 h
        exact .push hknown hag hlen.2.symm (Shmstruct.pairs_ofPairs ..)
          (Checked.toOption_eq_some.1 hsend)
      · cases h
    · cases h
  | serve a i =>
    simp only [next] at h
    split at h
    · rename_i id hid
      split at h
      · rename_i c rest hc
        obtain ⟨⟨s', r⟩, hserve, rfl⟩ := Option.map_eq_some_iff.1 h
        exact .serve hknown hid hc (Checked.toOption_eq_some.1 hserve)
      · cases h
    · cases h

/-- A schedule that can be followed to its end leads to a state that can be reached. -/
theorem reachable_of_run {config : ConfigMessage} {pl : Plugin F} {es : List Event} :
    ∀ {n n' : TrainNet F}, (∀ e ∈ es, e.Known config) →
      es.foldlM (fun n e ↦ n.next config pl e) n = some n' →
      Relation.ReflTransGen (Step config pl) n n' := by
  induction es with
  | nil =>
    rintro n n' - h
    obtain rfl := Option.some.inj h
    exact .refl
  | cons e es ih =>
    intro n n' hknown h
    rw [List.foldlM_cons, Option.bind_eq_bind, Option.bind_eq_some_iff] at h
    obtain ⟨n₁, hfirst, hrest⟩ := h
    exact .head (step_of_next (hknown e (List.mem_cons_self ..)) hfirst)
      (ih (fun e' he' ↦ hknown e' (List.mem_cons_of_mem _ he')) hrest)

/-! ## The values -/

/-- Add the mean of some contributions to a value, as `UpdateParameter` does. -/
def average (config : ConfigMessage) (x : F) (us : List F) : F :=
  FloatOps.add x
    (FloatOps.div (us.foldl FloatOps.add FloatOps.zero) (FloatOps.ofInt config.workerNum))

/-- The value of a key after `v` rounds, by the updates that have been pushed. -/
def valueAfter (config : ConfigMessage) (issued : Int → List (Shmstruct F)) (key : Int) (v : ℕ) :
    F :=
  Rounds.fold config.workerId issued (fun x gs ↦ average config x
    (gs.flatMap fun g ↦ Server.valuesFor key g.pairs)) FloatOps.zero v

/-- The number of rounds server `i` has completed. -/
def rounds (n : TrainNet F) (i : ℕ) : ℕ := (n.servers i).bottomVersion.toNat

/-- Servers with the ranges of the configuration, and a partition with its boundaries, of which the
first may lie anywhere. -/
structure Shards (config : ConfigMessage) (p : Partition) (s₀ : ℕ → Server F) : Prop where
  workers : config.WorkersOk
  servers : config.RangesOk
  ordered : p.Ordered
  same : config.SamePartition p
  last : ∀ n, config.serverId.length = n + 1 → config.startOf 0 ≠ config.startOf n
  fresh : ∀ i < config.serverId.length, Server.Fresh config (s₀ i)
  startKey : ∀ i < config.serverId.length, (s₀ i).startKey = config.startOf i
  parameterLength : ∀ i < config.serverId.length, (s₀ i).parameterLength = config.lengthOf i

omit [FloatOps F] in
/-- An update of distinct keys of the key space, none of them below the first boundary, and at least
one of them owned by each server. -/
structure Complete (p : Partition) (g : Shmstruct F) : Prop extends ShardNet.Complete p g where
  first_le : ∀ k ∈ g.usedKeys, p.first ≤ k

/-- `x` is a value of the key `k` that an agent may compute with in epoch `r`. -/
def SeenAt (config : ConfigMessage) (p : Partition) (n : TrainNet F) (r : ℕ) (k : Int) (x : F) :
    Prop :=
  ∃ v, x = valueAfter config n.issued k v ∧ v ≤ r ∧ r < v + config.bound.toNat ∧
    v ≤ n.rounds (p.getServerByKey k).toNat

section

variable {config : ConfigMessage} {p : Partition} {s₀ : ℕ → Server F}
  {issued issued' : Int → List (Shmstruct F)}

/-- A server owns the keys of its slot. -/
theorem Shards.owns (h : Shards config p s₀) {i : ℕ} (hi : i < config.serverId.length) {k : Int}
    (hk : p.InRange k) (hslot : p.slot k = i + 1) : (s₀ i).Owns [k] := by
  obtain ⟨-, hnonneg, hlt⟩ := Layout.get_partition h.servers hi
  have hle : config.startOf i ≤ k := by
    rw [← not_lt, ← slot_le_iff_lt_startOf h.servers h.ordered h.same hi]
    omega
  have hoffset : Circle.offset config.keyRange (config.startOf i) k < config.lengthOf i := by
    rcases Nat.lt_or_ge (i + 1) config.serverId.length with hi' | hi'
    · exact (offset_lt_lengthOf_iff h.servers h.ordered h.same hi' hk).2 hslot
    · have hn : config.serverId.length = i + 1 := by omega
      exact (offset_lt_lengthOf_last_iff h.servers h.ordered h.same hn hk).2
        ⟨h.last i hn, .inr hslot⟩
  rw [Circle.offset_of_le hnonneg (h.same.keyRange ▸ hk.2) hle] at hoffset
  intro l hl
  rw [List.mem_singleton.1 hl, h.startKey i hi, h.parameterLength i hi]
  omega

/-- It owns its share of an update. -/
theorem Shards.owns_share (h : Shards config p s₀) {i : ℕ} (hi : i < config.serverId.length)
    {g : Shmstruct F} (hg : Complete p g) : (s₀ i).Owns ((share p i g).map Prod.fst) := by
  intro k hk
  obtain ⟨e, he, rfl⟩ := List.mem_map.1 hk
  rw [share, Agent.part, List.mem_filter, decide_eq_true_eq] at he
  have hmem : e.1 ∈ g.usedKeys := by
    rw [← g.map_fst_pairs]
    exact List.mem_map_of_mem ((Shmstruct.sortedPairs_perm hg.distinct).mem_iff.1 he.1)
  exact h.owns hi (hg.inRange e.1 hmem) he.2 e.1 (List.mem_singleton_self _)

/-- What is pushed later does not change the rounds that are complete. -/
theorem valueAfter_congr {key : Int} {v : ℕ}
    (hmono : ∀ a ∈ config.workerId, issued a <+: issued' a)
    (hv : ∀ a ∈ config.workerId, v ≤ (issued a).length) :
    valueAfter config issued' key v = valueAfter config issued key v := by
  refine Rounds.fold_congr fun a ha r hr ↦ ?_
  obtain ⟨rest, hrest⟩ := hmono a ha
  have hlt := hv a ha
  rw [← hrest, List.getElem?_append_left (by omega)]

/-- A server holds the values of its keys after as many rounds as it has completed. -/
theorem getElem?_total (h : Shards config p s₀) {i : ℕ} (hi : i < config.serverId.length)
    (hissued : ∀ a ∈ config.workerId, ∀ g ∈ issued a, Complete p g) {st : History config F}
    (hst : ∀ a ∈ config.workerId, st.hist a <+: (issued a).map (share p i)) {key : Int}
    (hk : p.InRange key) (hslot : p.slot key = i + 1) :
    (st.total (s₀ i).mergeRound (s₀ i).parameters)[(key - (s₀ i).startKey).toNat]?
      = some (valueAfter config issued key st.bottom) := by
  have howns := h.owns hi hk hslot
  refine Rounds.fold_rel (fun x y ↦ x[(key - (s₀ i).startKey).toNat]? = some y) ?_
    fun r hr x y hxy ↦ ?_
  · have hlt := howns key (List.mem_singleton_self key)
    rw [(h.fresh i hi).parameters, List.getElem?_replicate_of_lt (by omega)]
  · have hget : ∀ a ∈ config.workerId, ∃ g ∈ issued a, (st.hist a)[r]? = some (share p i g) ∧
        (issued a)[r]? = some g := by
      intro a ha
      have hlt : r < (st.hist a).length := lt_of_lt_of_le hr (st.bottom_le a ha)
      have hle := (hst a ha).length_le
      rw [List.length_map] at hle
      have hlt' : r < (issued a).length := lt_of_lt_of_le hlt hle
      refine ⟨(issued a)[r], List.getElem_mem hlt', ?_, List.getElem?_eq_getElem hlt'⟩
      obtain ⟨rest, hrest⟩ := hst a ha
      have hleft : (st.hist a ++ rest)[r]? = (st.hist a)[r]? := List.getElem?_append_left hlt
      rw [← hleft, hrest, List.getElem?_map,
        List.getElem?_eq_getElem hlt', Option.map_some]
    have hus : ∀ u ∈ Rounds.round config.workerId st.hist r, (s₀ i).Owns (u.map Prod.fst) := by
      intro u hu
      obtain ⟨a, ha, hau⟩ := List.mem_filterMap.1 hu
      obtain ⟨g, hg, hshare, -⟩ := hget a ha
      rw [← Option.some.inj (hshare.symm.trans hau)]
      exact h.owns_share hi (hissued a ha g hg)
    have hflat : (Rounds.round config.workerId st.hist r).flatMap (Server.valuesFor key)
        = (Rounds.round config.workerId issued r).flatMap
            fun g ↦ Server.valuesFor key g.pairs := by
      rw [Rounds.flatMap_round, Rounds.flatMap_round]
      refine List.flatMap_congr fun a ha ↦ ?_
      obtain ⟨g, hg, hshare, hpairs⟩ := hget a ha
      rw [hshare, hpairs]
      exact ShardNet.valuesFor_share (hissued a ha g hg).distinct hslot
    rw [Server.getElem?_mergeRound howns hus, hxy, hflat, (h.fresh i hi).agentNum,
      ← h.workers.workerNum]
    rfl

end

/-! ## Between an agent and a server -/

omit [FloatOps F] in
/-- The features that server `i` owns. -/
def wanted (p : Partition) (pl : Plugin F) (i : ℕ) : List Int :=
  pl.features.filter fun k ↦ decide (p.slot k = i + 1)

/-- The updates among some requests. -/
def pushed (cs : List (Call F)) : List (KeyValueList F) :=
  cs.filterMap fun c ↦ match c with
    | .push _ request => some (request.keys.zip request.values)
    | .pull _ _ => none

/-- The pulls among some requests, each as the keys it asks for. -/
def asked (cs : List (Call F)) : List (List Int) :=
  cs.filterMap fun c ↦ match c with
    | .push _ _ => none
    | .pull _ request => some request.keys

/-- The place of an agent in its loop, as the server with the given id sees it. -/
def phaseAt (id : Int) : Station F → Phase
  | .idle _ => .pull
  | .pulling w => if id ∈ w.serverSet then .wait else .push
  | .computing _ => .push

/-- What is under way between agent `a` and server `i`, which has the given id, the histories `st`
and the blocked pulls `q`. -/
structure Link (config : ConfigMessage) (p : Partition) (pl : Plugin F) (s₀ : Server F) (i : ℕ)
    (id a : Int) (st : History config F) (q : List PullInfo) (phase : Phase)
    (requests : List (Call F)) (replies : List (Sent F)) (issued : Int → List (Shmstruct F)) :
    Prop where
  stage : Network.Stage a ((st.pending a).length < config.bound.toNat) phase requests replies
    (waiting a q)
  inRange : ∀ c ∈ requests, c.InRange s₀
  shares : st.hist a ++ pushed requests = (issued a).map (share p i)
  asked : ∀ ks ∈ asked requests ++ waiting a q, ks.Perm (wanted p pl i)
  values : ∀ m ∈ replies, ∃ ks v, ks.Perm (wanted p pl i) ∧
    m.msg = PullNet.answer id a ks (ks.map fun k ↦ valueAfter config issued k v) ∧
    v ≤ (issued a).length ∧ (issued a).length < v + config.bound.toNat ∧ v ≤ st.bottom

section

variable {config : ConfigMessage} {p : Partition} {pl : Plugin F} {s₀ : Server F} {i : ℕ}
  {id a : Int} {st st' : History config F} {q q' : List PullInfo} {phase : Phase}
  {requests : List (Call F)} {replies : List (Sent F)} {issued issued' : Int → List (Shmstruct F)}

theorem Link.start (hne : config.workerId ≠ []) : Link config p pl s₀ i id a (Rounds.empty hne) []
    .pull [] [] fun _ ↦ [] where
  stage := .idle
  inRange := by simp
  shares := rfl
  asked := by simp [TrainNet.asked, waiting]
  values := by simp

theorem Link.sendPull {request : RequestMessage F}
    (h : Link config p pl s₀ i id a st q .pull requests replies issued)
    (hin : s₀.Owns request.keys) (hkeys : request.keys.Perm (wanted p pl i)) :
    Link config p pl s₀ i id a st q .wait (requests ++ [.pull a request]) replies issued where
  stage := h.stage.sendPull request
  inRange := by
    simp only [List.mem_append, List.mem_singleton]
    rintro c (hc | rfl)
    · exact h.inRange c hc
    · exact hin
  shares := by simpa [pushed] using h.shares
  asked := by
    have hold := h.asked
    simp only [TrainNet.asked, List.filterMap_append, List.mem_append] at hold ⊢
    rintro ks ((hks | hks) | hks)
    · exact hold ks (.inl hks)
    · obtain rfl : ks = request.keys := by simpa using hks
      exact hkeys
    · exact hold ks (.inr hks)
  values := h.values

theorem Link.receive {m : Sent F} {rest : List (Sent F)}
    (h : Link config p pl s₀ i id a st q .wait requests (m :: rest) issued) :
    Link config p pl s₀ i id a st q .push requests rest issued :=
  { h with
    stage := h.stage.receive
    values := fun m' hm' ↦ h.values m' (List.mem_cons_of_mem _ hm') }

/-- A push comes when everything has been answered. -/
theorem Link.sendPush {g : Shmstruct F}
    (h : Link config p pl s₀ i id a st q .push requests replies issued)
    (hin : s₀.Owns ((share p i g).map Prod.fst)) :
    Link config p pl s₀ i id a st q .pull
      (requests ++ [.push a ⟨.keyValue, (share p i g).map Prod.fst, (share p i g).map Prod.snd⟩])
      replies (Function.update issued a (issued a ++ [g])) where
  stage := h.stage.sendPush _
  inRange := by
    simp only [List.mem_append, List.mem_singleton]
    rintro c (hc | rfl)
    · exact h.inRange c hc
    · exact ⟨by simp, hin⟩
  shares := by
    have hzip : ((share p i g).map Prod.fst).zip ((share p i g).map Prod.snd) = share p i g :=
      (List.zip_of_prod rfl rfl).symm
    rw [Function.update_self, List.map_append, ← h.shares, List.append_assoc, pushed, pushed,
      List.filterMap_append]
    simp [hzip]
  asked := by simpa [TrainNet.asked] using h.asked
  values := by
    have hstage := h.stage
    generalize waiting a q = blocked at hstage
    cases hstage with
    | working hroom => simp

/-- Somebody else pushes. -/
theorem Link.issue_other (h : Link config p pl s₀ i id a st q phase requests replies issued)
    (hsame : issued' a = issued a) (hmono : ∀ b ∈ config.workerId, issued b <+: issued' b)
    (hfar : ∀ b ∈ config.workerId, st.bottom ≤ (issued b).length) :
    Link config p pl s₀ i id a st q phase requests replies issued' :=
  { h with
    shares := hsame ▸ h.shares
    values := by
      intro m hm
      obtain ⟨ks, v, hks, hmsg, hle, hlt, hbottom⟩ := h.values m hm
      refine ⟨ks, v, hks, ?_, hsame ▸ hle, hsame ▸ hlt, hbottom⟩
      rw [hmsg]
      refine congrArg _ (List.map_congr_left fun k _ ↦ (valueAfter_congr hmono fun b hb ↦ ?_).symm)
      exact le_trans hbottom (hfar b hb) }

/-- Serving a request takes no server back. -/
theorem bottom_le_of_step {c : Call F} {r : Response F} (h : Server.Step s₀ st q c st' q' r) :
    st.bottom ≤ st'.bottom := by
  cases h with
  | pushStored ha hroom hn | pushCompletes ha hroom hn =>
    rw [Rounds.push_bottom]
    split <;> omega
  | pushUnknown ha | pushOverfilled ha hfull | pullUnknown ha | pullBlocked ha hfull
  | pullAnswered ha hroom => exact Nat.le_refl _

/-- An update that finds room is stored. -/
theorem stored_of_room {request : RequestMessage F} {r : Response F} (ha : a ∈ config.workerId)
    (h : Server.Step s₀ st q (.push a request) st' q' r)
    (hroom : (st.pending a).length < config.bound.toNat) : r.outcome = .stored := by
  refine ShardNet.stored_of_not_overfilled ha h fun hover ↦ ?_
  cases h with
  | pushOverfilled ha' hfull => omega
  | pushUnknown ha' | pushStored ha' hroom' hn | pushCompletes ha' hroom' hn => cases hover

/-- Serving the oldest request of an agent moves its update into the history, and leaves the other
histories alone. -/
theorem shares_serve {c : Call F} {rest : List (Call F)} {r : Response F}
    (ha : a ∈ config.workerId) (h : Server.Step s₀ st q c st' q' r)
    (hlink : Link config p pl s₀ i id a st q phase (c :: rest) replies issued) :
    st'.hist a ++ pushed rest = (issued a).map (share p i) ∧
      ∀ b, b ≠ a → st'.hist b = st.hist b := by
  obtain ⟨hsender, hroom⟩ := hlink.stage.head
  rw [← hlink.shares]
  cases c with
  | push x request =>
    obtain rfl : x = a := hsender
    have hstored := stored_of_room ha h (hroom request rfl)
    refine ⟨?_, fun b hb ↦ ?_⟩
    · rw [h.hist, acceptedOf, if_pos ⟨rfl, hstored⟩]
      simp [pushed]
    · rw [h.hist, acceptedOf, if_neg fun hx ↦ hb hx.1.symm, Option.toList_none, List.append_nil]
  | pull x request =>
    refine ⟨?_, fun b _ ↦ ?_⟩
    · rw [h.hist, acceptedOf, Option.toList_none, List.append_nil]
      rfl
    · rw [h.hist, acceptedOf, Option.toList_none, List.append_nil]

/-- The pulls that keep waiting have been asked for. -/
theorem asked_serve {c : Call F} {r : Response F} {b : Int} (hb : b ∈ config.workerId)
    (h : Server.Step s₀ st q c st' q' r) (hv : s₀.Valid st q) {ks : List Int}
    (hks : ks ∈ r.sent.filterMap (replyKeys b) ++ waiting b q') :
    ks ∈ waiting b q ∨ ∃ request : RequestMessage F, c = .pull b request ∧ ks = request.keys := by
  rw [← h.pulls hv hb, List.mem_append] at hks
  refine hks.imp_right fun hpull ↦ ?_
  cases c with
  | push x request => simp [pullOf] at hpull
  | pull x request =>
    rw [pullOf] at hpull
    split at hpull
    · rename_i hx
      subst hx
      exact ⟨request, rfl, by simpa using hpull⟩
    · simp at hpull

end

section

variable {config : ConfigMessage} {p : Partition} {pl : Plugin F} {s₀ : ℕ → Server F} {i : ℕ}
  {id a : Int} {st : History config F} {q : List PullInfo} {phase : Int → Phase}
  {requests : Int → List (Call F)} {replies : Int → List (Sent F)}
  {issued : Int → List (Shmstruct F)}

/-- The values a server reads for its features. -/
theorem valuesAt_eq (h : Shards config p s₀) (hpl : pl.Fits p) (hi : i < config.serverId.length)
    (hissued : ∀ a ∈ config.workerId, ∀ g ∈ issued a, Complete p g)
    (hst : ∀ a ∈ config.workerId, st.hist a <+: (issued a).map (share p i)) {ks : List Int}
    (hks : ks.Perm (wanted p pl i)) :
    ((s₀ i).ofRounds st q).valuesAt ks = ks.map fun k ↦ valueAfter config issued k st.bottom := by
  refine List.map_congr_left fun k hk ↦ ?_
  obtain ⟨hmem, hslot⟩ := List.mem_filter.1 (hks.mem_iff.1 hk)
  have hget := getElem?_total h hi hissued hst (hpl.inRange k hmem) (of_decide_eq_true hslot)
  exact congrArg (fun x ↦ Option.getD x FloatOps.zero) hget

/-- **Serving** the oldest request of an agent never faults, and leaves everything under way between
the agents and the server as it should be. -/
theorem serve_link (h : Shards config p s₀) (hpl : pl.Fits p) (hid : config.serverId[i]? = some id)
    (hlocal : (s₀ i).localId = id)
    (hissued : ∀ a ∈ config.workerId, ∀ g ∈ issued a, Complete p g) (hv : (s₀ i).Valid st q)
    (hlink : ∀ b ∈ config.workerId,
      Link config p pl (s₀ i) i id b st q (phase b) (requests b) (replies b) issued)
    (ha : a ∈ config.workerId) {c : Call F} {rest : List (Call F)}
    (hc : requests a = c :: rest) :
    ∃ st' q' r, ((s₀ i).ofRounds st q).serve c = .ok ((s₀ i).ofRounds st' q', r) ∧
      (s₀ i).Valid st' q' ∧ st.bottom ≤ st'.bottom ∧
      ∀ b ∈ config.workerId, Link config p pl (s₀ i) i id b st' q' (phase b)
        (Function.update requests a rest b) (replies b ++ Network.repliesFor b r.sent) issued := by
  obtain ⟨hi, -⟩ := List.getElem?_eq_some_iff.1 hid
  have hown := hlink a ha
  rw [hc] at hown
  have hin : c.InRange (s₀ i) := hown.inRange c (List.mem_cons_self ..)
  obtain ⟨st', q', r, hserve, hstep⟩ := Server.serve_step (h.fresh i hi) h.workers hv hin
  obtain ⟨hshare, hother⟩ := shares_serve ha hstep hown
  have hshares : ∀ b ∈ config.workerId,
      st'.hist b ++ pushed (Function.update requests a rest b) = (issued b).map (share p i) := by
    intro b hb
    by_cases hba : b = a
    · subst hba
      rw [Function.update_self]
      exact hshare
    · rw [Function.update_of_ne hba, hother b hba]
      exact (hlink b hb).shares
  have hstage : ∀ b ∈ config.workerId,
      Network.Stage b ((st'.pending b).length < config.bound.toNat) (phase b)
        (Function.update requests a rest b) (replies b ++ Network.repliesFor b r.sent)
        (waiting b q') := by
    intro b hb
    by_cases hba : b = a
    · subst hba
      rw [Function.update_self]
      exact hown.stage.serve_self hstep hv hb
    · rw [Function.update_of_ne hba]
      exact (hlink b hb).stage.serve_other hstep hv hb (hown.stage.head.1 ▸ hba)
  -- what has been asked for, answered or still waiting, are features of the server
  have hwanted : ∀ b ∈ config.workerId, ∀ ks,
      ks ∈ r.sent.filterMap (replyKeys b) ++ waiting b q' → ks.Perm (wanted p pl i) := by
    intro b hb ks hks
    rcases asked_serve hb hstep hv hks with hwait | ⟨request, rfl, rfl⟩
    · exact (hlink b hb).asked ks (List.mem_append_right _ hwait)
    · obtain rfl : b = a := hown.stage.head.1
      exact hown.asked _ (by simp [asked])
  refine ⟨st', q', r, hserve, hstep.valid hv hin, bottom_le_of_step hstep, fun b hb ↦
    ⟨hstage b hb, fun d hd ↦ ?_, hshares b hb, fun ks hks ↦ ?_, fun m hm ↦ ?_⟩⟩
  · by_cases hba : b = a
    · subst hba
      rw [Function.update_self] at hd
      exact hown.inRange d (List.mem_cons_of_mem _ hd)
    · rw [Function.update_of_ne hba] at hd
      exact (hlink b hb).inRange d hd
  · rcases List.mem_append.1 hks with hks | hks
    · by_cases hba : b = a
      · subst hba
        rw [Function.update_self] at hks
        refine hown.asked ks (List.mem_append_left _ ?_)
        rw [asked, List.filterMap_cons]
        split
        · exact hks
        · exact List.mem_cons_of_mem _ hks
      · rw [Function.update_of_ne hba] at hks
        exact (hlink b hb).asked ks (List.mem_append_left _ hks)
    · exact hwanted b hb ks (List.mem_append_right _ hks)
  · rcases List.mem_append.1 hm with hm | hm
    · obtain ⟨ks, v, hks, hmsg, hle, hlt, hbottom⟩ := (hlink b hb).values m hm
      exact ⟨ks, v, hks, hmsg, hle, hlt, le_trans hbottom (bottom_le_of_step hstep)⟩
    · -- a new reply: the agent has nothing under way, so its history is all it has pushed
      obtain ⟨hsent, hsome⟩ := List.mem_filter.1 hm
      obtain ⟨ks, hks⟩ := Option.isSome_iff_exists.1 hsome
      obtain ⟨-, hroom, hreply⟩ := hstep.reply hv hsent hks
      have hperm := hwanted b hb ks
        (List.mem_append_left _ (List.mem_filterMap.2 ⟨m, hsent, hks⟩))
      have hempty : Function.update requests a rest b = [] :=
        (hstage b hb).requests_eq_nil (List.ne_nil_of_mem (List.mem_append_right _ hm))
      have hlen := congrArg List.length (hshares b hb)
      rw [hempty, pushed, List.filterMap_nil, List.append_nil, List.length_map] at hlen
      have hle := st'.bottom_le b hb
      rw [Rounds.length_pending] at hroom
      refine ⟨ks, st'.bottom, hperm, ?_, by omega, by omega, le_refl _⟩
      rw [hreply, PullNet.reply_msg, valuesAt_eq h hpl hi hissued (fun d hd ↦ ⟨_, hshares d hd⟩)
        hperm]
      exact congrArg (fun x ↦ PullNet.answer x b ks _) hlocal

end

/-! ## What an agent does -/

omit [FloatOps F] in
/-- The agent has the partition and the servers of the configuration. -/
structure Placed (config : ConfigMessage) (p : Partition) (a : Int) (ag : Agent F) : Prop where
  partition : ag.partition = p
  serverIds : ag.serverIds = config.serverId
  localId : ag.localId = a

section

variable {config : ConfigMessage} {p : Partition} {pl : Plugin F} {s₀ : ℕ → Server F} {i : ℕ}
  {id a : Int} {ag : Agent F} {g : Shmstruct F}

theorem Placed.canRoute (h : Shards config p s₀) (hag : Placed config p a ag) : ag.CanRoute :=
  ⟨hag.partition ▸ h.ordered,
    by rw [hag.serverIds, hag.partition, length_partVec h.servers h.same],
    hag.serverIds ▸ h.servers.nodup⟩

omit [FloatOps F] in
/-- A key that is not below the first boundary has a slot of its own server. -/
theorem serverOf_eq_iff (hp : p.Ordered) {k : Int} (hfirst : p.first ≤ k) :
    p.serverOf (p.slot k) = i ↔ p.slot k = i + 1 :=
  p.serverOf_eq_iff (Nat.pos_of_ne_zero (mt (Partition.slot_eq_zero_iff hp k).1 (not_lt.2 hfirst)))

theorem ownerId_eq_iff (h : Shards config p s₀) (hid : config.serverId[i]? = some id) {k : Int}
    (hfirst : p.first ≤ k) :
    p.ownerId config.serverId (p.slot k) = id ↔ p.slot k = i + 1 := by
  obtain ⟨hi, rfl⟩ := List.getElem?_eq_some_iff.1 hid
  rw [Partition.ownerId_eq_iff (length_partVec h.servers h.same).symm h.servers.nodup
    (p.slot_le k) hi]
  exact serverOf_eq_iff h.ordered hfirst

omit [FloatOps F] in
theorem getServerByKey_eq_iff (hp : p.Ordered) {k : Int} (hk : p.InRange k)
    (hfirst : p.first ≤ k) : p.getServerByKey k = i ↔ p.slot k = i + 1 := by
  rw [Partition.getServerByKey_eq hp hk, serverOf_eq_iff hp hfirst]

/-- A server whose slot has a key. -/
theorem filter_slotsOf (h : Shards config p s₀) (hid : config.serverId[i]? = some id)
    {keys : List Int} (hin : ∀ k ∈ keys, p.InRange k) (hfirst : ∀ k ∈ keys, p.first ≤ k)
    (howner : ∃ k ∈ keys, p.getServerByKey k = i) :
    ((p.slotsOf keys).filter fun s ↦ decide (p.ownerId config.serverId s = id)) = [i + 1] := by
  obtain ⟨k, hk, hki⟩ := howner
  rw [getServerByKey_eq_iff h.ordered (hin k hk) (hfirst k hk)] at hki
  refine Sorted.filter_eq_singleton (p.nodup_slotsOf keys)
    (Partition.mem_slotsOf.2 ⟨k, hk, hki⟩) ?_ fun s hs hsid ↦ ?_
  · rw [← hki]
    exact decide_eq_true ((ownerId_eq_iff h hid (hfirst k hk)).2 hki)
  · obtain ⟨l, hl, rfl⟩ := Partition.mem_slotsOf.1 hs
    exact (ownerId_eq_iff h hid (hfirst l hl)).1 (of_decide_eq_true hsid)

/-- A pull asks every server for its features. -/
theorem workPull_spec (h : Shards config p s₀) (hpl : pl.Fits p) (hag : Placed config p a ag)
    (hsize : g.size = pl.features.length) (hg : g.usedKeys = pl.features) :
    ∃ w sent, ∃ ks : List Int, ag.workPull g = .ok (w, sent) ∧ Placed config p a w.agent ∧
      w.cur = 0 ∧
      w.serverSet.Nodup ∧ (∀ id, id ∈ w.serverSet ↔ id ∈ config.serverId) ∧
      ks.Perm pl.features ∧ ∀ i id, config.serverId[i]? = some id →
        callsTo id sent
          = [.pull a ⟨.key, ks.filter fun k ↦ decide (p.slot k = i + 1), []⟩] := by
  have hr : { ag with parameters := g }.CanRoute := by
    have hroute := hag.canRoute h
    exact ⟨hroute.ordered, hroute.length_ids, hroute.nodup_ids⟩
  have hlen := hpl.length_le
  obtain ⟨g', hpull, hperm⟩ := Agent.sendPull_eq hr (show 0 ≤ g.size by omega)
    (show g.size ≤ 100 by omega) (by
      show ∀ k ∈ g.usedKeys, ag.partition.InRange k
      rw [hg, hag.partition]
      exact hpl.inRange)
  refine ⟨_, _, g'.usedKeys, hpull, ⟨hag.partition, hag.serverIds, hag.localId⟩, rfl,
    Agent.nodup_pullSet _ _, fun id ↦ ?_, hg ▸ hperm, fun i id hid ↦ ?_⟩
  · rw [Agent.mem_pullSet]
    simp only [hag.partition, hag.serverIds, hg]
    constructor
    · rintro ⟨k, hk, rfl⟩
      obtain ⟨hnonneg, hlt⟩ := p.serverOf_bounds (p.slot_le k)
      have hnum := serverNum_eq h.servers h.same
      rw [Partition.ownerId, List.getElem?_eq_getElem (by omega)]
      exact List.getElem_mem _
    · intro hmem
      obtain ⟨i, hi⟩ := List.getElem?_of_mem hmem
      obtain ⟨hlt, -⟩ := List.getElem?_eq_some_iff.1 hi
      have hnum := serverNum_eq h.servers h.same
      obtain ⟨k, hk, hki⟩ := hpl.owner i (by omega)
      have hfirst := hpl.first_le k hk
      rw [getServerByKey_eq_iff h.ordered (hpl.inRange k hk) hfirst] at hki
      exact ⟨k, hk, (ownerId_eq_iff h hi hfirst).2 hki⟩
  · obtain ⟨hlt, -⟩ := List.getElem?_eq_some_iff.1 hid
    have hnum := serverNum_eq h.servers h.same
    have hfilter := filter_slotsOf h hid hpl.inRange hpl.first_le (hpl.owner i (by omega))
    rw [← hag.partition, ← hag.serverIds, ← hg] at hfilter
    have hmessages : messagesFor id ((ag.partition.slotsOf g.usedKeys).map
        ({ ag with parameters := g }.pullPart g'.usedKeys))
        = [({ ag with parameters := g }.pullPart g'.usedKeys (i + 1)).msg] := by
      rw [messagesFor, List.filter_map]
      exact congrArg (List.map _) (congrArg (List.map _) hfilter)
    rw [callsTo, hmessages]
    simp [Call.ofMessage, Agent.pullPart, hag.localId, hag.partition]

/-- A push brings every server its share. -/
theorem workPush_spec (h : Shards config p s₀) (hag : Placed config p a ag) (hg : Complete p g) :
    ∃ ag' sent, ag.workPush g = .ok (ag', sent) ∧ Placed config p a ag' ∧
      ∀ i id, config.serverId[i]? = some id → callsTo id sent
        = [.push a ⟨.keyValue, (share p i g).map Prod.fst, (share p i g).map Prod.snd⟩] := by
  have hr : { ag with gradients := g }.CanRoute := by
    have hroute := hag.canRoute h
    exact ⟨hroute.ordered, hroute.length_ids, hroute.nodup_ids⟩
  obtain ⟨rfl, hids, rfl⟩ := hag
  obtain ⟨g', hpush⟩ := Agent.push_eq hr hg.distinct hg.inRange
  refine ⟨{ ag with gradients := g', epochNum := ag.epochNum + 1 }, _,
    by rw [Agent.workPush, hpush, Checked.ok_bind], ⟨rfl, hids, rfl⟩, fun i id hid ↦ ?_⟩
  obtain ⟨hlt, -⟩ := List.getElem?_eq_some_iff.1 hid
  have hnum := serverNum_eq h.servers h.same
  have hfilter := filter_slotsOf h hid hg.inRange hg.first_le (hg.owner i (by omega))
  rw [← hids] at hfilter
  have hmessages : messagesFor id ((ag.partition.slotsOf g.usedKeys).map
      ({ ag with gradients := g }.pushPart g.sortedPairs))
      = [({ ag with gradients := g }.pushPart g.sortedPairs (i + 1)).msg] := by
    rw [messagesFor, List.filter_map]
    exact congrArg (List.map _) (congrArg (List.map _) hfilter)
  rw [callsTo, hmessages]
  rfl

end

/-! ## The invariant -/

omit [FloatOps F] in
/-- The pairs an agent inside `Pull` has received. -/
def received (w : Agent.Pulling F) : List (Int × F) :=
  (w.agent.parameters.keys.zip w.agent.parameters.values).take w.cur

/-- Where agent `a` is: inside `Pull` it has the weights of the servers it no longer waits for, and
then it has all of them. -/
inductive AtStation (config : ConfigMessage) (p : Partition) (pl : Plugin F) (n : TrainNet F)
    (a : Int) : Station F → Prop
  | idle {ag : Agent F} (hag : Placed config p a ag) : AtStation config p pl n a (.idle ag)
  | pulling {w : Agent.Pulling F} (hag : Placed config p a w.agent) (hnodup : w.serverSet.Nodup)
      (hknown : ∀ id ∈ w.serverSet, id ∈ config.serverId) (hcur : w.cur ≤ 100)
      (hkeys : ((received w).map Prod.fst).Perm (pl.features.filter fun k ↦
        decide (p.ownerId config.serverId (p.slot k) ∉ w.serverSet)))
      (hvalues : ∀ e ∈ received w, SeenAt config p n (n.issued a).length e.1 e.2) :
      AtStation config p pl n a (.pulling w)
  | computing {ag : Agent F} (hag : Placed config p a ag)
      (hsize : 0 ≤ ag.parameters.size ∧ ag.parameters.size ≤ 100)
      (hkeys : ag.parameters.usedKeys.Perm pl.features)
      (hvalues : ∀ e ∈ ag.parameters.pairs, SeenAt config p n (n.issued a).length e.1 e.2) :
      AtStation config p pl n a (.computing ag)

/-- The update `g` that agent `a` has pushed in epoch `r` has been computed from the values the
features had after the given numbers of rounds, in the given order. -/
structure Computed (config : ConfigMessage) (p : Partition) (pl : Plugin F) (n : TrainNet F)
    (a : Int) (r : ℕ) (g : Shmstruct F) (order : List Int) (seen : Int → ℕ) : Prop where
  complete : Complete p g
  order_perm : order.Perm pl.features
  pairs : g.pairs = pl.update a r (order.map fun l ↦ (l, valueAfter config n.issued l (seen l)))
  seen_le : ∀ l ∈ pl.features, seen l ≤ r
  lt_seen : ∀ l ∈ pl.features, r < seen l + config.bound.toNat
  seen_le_rounds : ∀ l ∈ pl.features, seen l ≤ n.rounds (p.getServerByKey l).toNat

/-- Server `i` is the one of some histories, and between it and the agents everything is as it
should be. -/
def Tracks (config : ConfigMessage) (p : Partition) (pl : Plugin F) (s₀ : ℕ → Server F)
    (n : TrainNet F) (i : ℕ) (id : Int) : Prop :=
  ∃ (st : History config F) (q : List PullInfo), n.servers i = (s₀ i).ofRounds st q ∧
    (s₀ i).Valid st q ∧ ∀ a ∈ config.workerId, Link config p pl (s₀ i) i id a st q
      (phaseAt id (n.station a)) (n.requests a id) (n.replies a id) n.issued

/-- The invariant of training. -/
structure Inv (config : ConfigMessage) (p : Partition) (pl : Plugin F) (s₀ : ℕ → Server F)
    (n : TrainNet F) : Prop where
  station : ∀ a ∈ config.workerId, AtStation config p pl n a (n.station a)
  issued : ∀ a ∈ config.workerId, ∀ r g, (n.issued a)[r]? = some g →
    ∃ order seen, Computed config p pl n a r g order seen
  server : ∀ i id, config.serverId[i]? = some id → Tracks config p pl s₀ n i id

/-- Updates have been added, and no server has gone back. -/
structure Later (config : ConfigMessage) (n n' : TrainNet F) : Prop where
  issued : ∀ a ∈ config.workerId, n.issued a <+: n'.issued a
  rounds : ∀ i, n.rounds i ≤ n'.rounds i

/-- Every agent has pushed an update for every round that is complete. -/
def Covered (config : ConfigMessage) (p : Partition) (pl : Plugin F) (n : TrainNet F) : Prop :=
  ∀ k ∈ pl.features, ∀ a ∈ config.workerId,
    n.rounds (p.getServerByKey k).toNat ≤ (n.issued a).length

section

variable {config : ConfigMessage} {p : Partition} {pl : Plugin F} {s₀ : ℕ → Server F}
  {n n' : TrainNet F} {i : ℕ} {id a : Int}

theorem Inv.complete (h : Inv config p pl s₀ n) :
    ∀ a ∈ config.workerId, ∀ g ∈ n.issued a, Complete p g := by
  intro a ha g hg
  obtain ⟨r, hr⟩ := List.getElem?_of_mem hg
  obtain ⟨order, seen, hcomputed⟩ := h.issued a ha r g hr
  exact hcomputed.complete

omit [FloatOps F] in
@[simp] theorem rounds_ofRounds {s : Server F} {st : History config F} {q : List PullInfo}
    [FloatOps F] (hserver : n.servers i = s.ofRounds st q) : n.rounds i = st.bottom := by
  rw [rounds, hserver]
  exact Int.toNat_natCast _

theorem rounds_le (h : Tracks config p pl s₀ n i id) (ha : a ∈ config.workerId) :
    n.rounds i ≤ (n.issued a).length := by
  obtain ⟨st, q, hserver, -, hlink⟩ := h
  have hle := st.bottom_le a ha
  have hlen := congrArg List.length (hlink a ha).shares
  rw [List.length_append, List.length_map] at hlen
  rw [rounds_ofRounds hserver]
  omega

theorem owner_lt (h : Shards config p s₀) (hpl : pl.Fits p) {k : Int} (hk : k ∈ pl.features) :
    (p.getServerByKey k).toNat < config.serverId.length := by
  have hnum := serverNum_eq h.servers h.same
  have hin := hpl.inRange k hk
  obtain ⟨hnonneg, hlt⟩ := p.serverOf_bounds (p.slot_le k)
  rw [Partition.getServerByKey_eq h.ordered hin]
  omega

theorem Inv.covered (h : Shards config p s₀) (hpl : pl.Fits p) (hinv : Inv config p pl s₀ n) :
    Covered config p pl n := fun _ hk _ ha ↦
  rounds_le (hinv.server _ _ (List.getElem?_eq_getElem (owner_lt h hpl hk))) ha

theorem SeenAt.mono {r : ℕ} {k : Int} {x : F} (h : SeenAt config p n r k x)
    (hlater : Later config n n') (hcovered : Covered config p pl n) (hk : k ∈ pl.features) :
    SeenAt config p n' r k x := by
  obtain ⟨v, rfl, hle, hlt, hround⟩ := h
  refine ⟨v, ?_, hle, hlt, hround.trans (hlater.rounds _)⟩
  exact (valueAfter_congr hlater.issued fun a ha ↦ hround.trans (hcovered k hk a ha)).symm

theorem AtStation.mono {s : Station F} (h : AtStation config p pl n a s)
    (hlater : Later config n n') (hcovered : Covered config p pl n)
    (hsame : n'.issued a = n.issued a) : AtStation config p pl n' a s := by
  cases h with
  | idle hag => exact .idle hag
  | pulling hag hnodup hknown hcur hkeys hvalues =>
    refine .pulling hag hnodup hknown hcur hkeys fun e he ↦ ?_
    have hmem : e.1 ∈ pl.features :=
      List.mem_of_mem_filter (hkeys.mem_iff.1 (List.mem_map_of_mem he))
    exact hsame ▸ (hvalues e he).mono hlater hcovered hmem
  | @computing ag hag hsize hkeys hvalues =>
    refine .computing hag hsize hkeys fun e he ↦ ?_
    have hmem : e.1 ∈ pl.features := by
      rw [← hkeys.mem_iff, ← ag.parameters.map_fst_pairs]
      exact List.mem_map_of_mem he
    exact hsame ▸ (hvalues e he).mono hlater hcovered hmem

theorem Computed.mono {r : ℕ} {g : Shmstruct F} {order : List Int} {seen : Int → ℕ}
    (h : Computed config p pl n a r g order seen) (hlater : Later config n n')
    (hcovered : Covered config p pl n) : Computed config p pl n' a r g order seen := by
  refine { h with pairs := ?_, seen_le_rounds := ?_ }
  · have hweights : (order.map fun l ↦ (l, valueAfter config n'.issued l (seen l)))
        = order.map fun l ↦ (l, valueAfter config n.issued l (seen l)) := by
      refine List.map_congr_left fun l hl ↦ ?_
      have hl := h.order_perm.mem_iff.1 hl
      rw [valueAfter_congr hlater.issued fun b hb ↦
        (h.seen_le_rounds l hl).trans (hcovered l hl b hb)]
    rw [hweights]
    exact h.pairs
  · exact fun l hl ↦ (h.seen_le_rounds l hl).trans (hlater.rounds _)

end

end TrainNet

end Rpscc
