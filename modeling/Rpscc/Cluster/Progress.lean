import Rpscc.Cluster.Synchrony
import Rpscc.Lib.Ledger

/-!
# Training goes on

The servers hold back the pulls of agents that have run ahead, and an agent inside `Pull` waits for
all of its servers, so one may ask whether they can end up waiting for each other.  They cannot: the
agent that has pushed the fewest updates is held back by nobody, and as long as it is not served
itself, something it waits for is under way (`TrainNet.training_never_stuck`).

Nor can they keep busy without getting anywhere.  An epoch of an agent is a fixed number of steps,
three of its own and three with every server, and the agents stay together up to the bound, so the
number of steps that have been taken bounds the number of rounds from below, on every server and in
every run (`TrainNet.training_progresses`).  Nothing is assumed about the order of the steps.
-/

set_option autoImplicit false

namespace Rpscc

variable {F : Type}

namespace TrainNet

open Server (Call waiting)
open ShardNet (share)

variable [FloatOps F]

section

variable {config : ConfigMessage} {p : Partition} {pl : Plugin F} {s₀ : ℕ → Server F}
  {agents : Int → Agent F} {n n' : TrainNet F} {i : ℕ} {id a : Int}

/-! ## Some step can be taken -/

theorem Inv.serve_enabled (h : Begins config p pl agents s₀) (hinv : Inv config p pl s₀ n)
    (ha : a ∈ config.workerId) (hid : config.serverId[i]? = some id)
    (hne : n.requests a id ≠ []) : ∃ n', Step config pl n n' := by
  obtain ⟨c, rest, hc⟩ := List.exists_cons_of_ne_nil hne
  obtain ⟨st, q, hserver, hvalid, hlink⟩ := hinv.server i id hid
  obtain ⟨st', q', r, hserve, -⟩ :=
    serve_link h.shards h.fits hid (h.localId i id hid) hinv.complete hvalid hlink ha hc
  exact ⟨_, .serve ha hid hc (hserver ▸ hserve)⟩

theorem Inv.receive_enabled (h : Begins config p pl agents s₀) (hinv : Inv config p pl s₀ n)
    {w : Agent.Pulling F} (ha : a ∈ config.workerId) (hid : config.serverId[i]? = some id)
    (hw : n.station a = .pulling w) (hne : n.replies a id ≠ []) : ∃ n', Step config pl n n' := by
  obtain ⟨m, rest, hm⟩ := List.exists_cons_of_ne_nil hne
  obtain ⟨hmem, w', hreceive, -⟩ := hinv.receive_spec h.shards h.fits ha hid hw hm
  exact ⟨_, .receive ha (List.mem_of_getElem? hid) hw (List.ne_nil_of_mem hmem) hm hreceive⟩

theorem Inv.pull_enabled (h : Begins config p pl agents s₀) (hinv : Inv config p pl s₀ n)
    {ag : Agent F} (ha : a ∈ config.workerId) (hag : n.station a = .idle ag) :
    ∃ n', Step config pl n n' := by
  have hat := hinv.station a ha
  rw [hag] at hat
  cases hat with
  | idle hplaced =>
    have hlen : (pl.features.map fun k ↦ (k, (FloatOps.zero : F))).length ≤ 100 := by
      rw [List.length_map]
      exact h.fits.length_le
    have hsize : (Shmstruct.ofPairs FloatOps.zero _ hlen).size = pl.features.length := by
      show ((pl.features.map fun k ↦ (k, (FloatOps.zero : F))).length : Int) = _
      rw [List.length_map]
    have hkeys : (Shmstruct.ofPairs FloatOps.zero _ hlen).usedKeys = pl.features := by
      rw [Shmstruct.usedKeys_ofPairs, List.map_map]
      exact List.map_id' _
    obtain ⟨w, sent, -, hsend, -⟩ := workPull_spec h.shards h.fits hplaced hsize hkeys
    exact ⟨_, .pull ha hag hsize hkeys hsend⟩

theorem Inv.push_enabled (h : Begins config p pl agents s₀) (hinv : Inv config p pl s₀ n)
    {ag : Agent F} (ha : a ∈ config.workerId) (hag : n.station a = .computing ag) :
    ∃ n', Step config pl n n' := by
  have hat := hinv.station a ha
  rw [hag] at hat
  have hold := hat
  cases hat with
  | computing hplaced hbounds hkeys hvalues =>
    have hfst : (ag.parameters.pairs.map Prod.fst).Perm pl.features :=
      ag.parameters.map_fst_pairs ▸ hkeys
    have hsame : (pl.update a (n.issued a).length ag.parameters.pairs).length
        = ag.parameters.pairs.length := by
      have h1 := (h.fits.keys a (n.issued a).length _ hfst).length_eq
      have h2 := hfst.length_eq
      rw [List.length_map] at h1 h2
      omega
    have hpairs := ag.parameters.length_pairs hbounds.2
    have hlen : (pl.update a (n.issued a).length ag.parameters.pairs).length ≤ 100 := by omega
    have hsize : (Shmstruct.ofPairs FloatOps.zero _ hlen).size = ag.parameters.size := by
      show ((pl.update a (n.issued a).length ag.parameters.pairs).length : Int) = _
      omega
    obtain ⟨order, seen, hcomputed⟩ := hold.computed h.fits hsize (Shmstruct.pairs_ofPairs ..)
    obtain ⟨ag', sent, hsend, -⟩ := workPush_spec h.shards hplaced hcomputed.complete
    exact ⟨_, .push ha hag hsize (Shmstruct.pairs_ofPairs ..) hsend⟩

/-- The agent cannot do anything, and neither can a server with a request of it. -/
structure Held (config : ConfigMessage) (n : TrainNet F) (a : Int) (w : Agent.Pulling F) :
    Prop where
  station : n.station a = .pulling w
  waits : w.serverSet ≠ []
  requests : ∀ id ∈ config.serverId, n.requests a id = []
  replies : ∀ id ∈ w.serverSet, n.replies a id = []

theorem Inv.enabled_or_held (h : Begins config p pl agents s₀) (hinv : Inv config p pl s₀ n)
    (ha : a ∈ config.workerId) : (∃ n', Step config pl n n') ∨ ∃ w, Held config n a w := by
  cases hstation : n.station a with
  | idle ag => exact .inl (hinv.pull_enabled h ha hstation)
  | computing ag => exact .inl (hinv.push_enabled h ha hstation)
  | pulling w =>
    by_cases hset : w.serverSet = []
    · exact .inl ⟨_, .finish ha hstation hset⟩
    · by_cases hstuck : ∃ n', Step config pl n n'
      · exact .inl hstuck
      · refine .inr ⟨w, hstation, hset, fun id hid ↦ ?_, fun id hid ↦ ?_⟩
        · obtain ⟨j, hj⟩ := List.getElem?_of_mem hid
          by_contra hne
          exact hstuck (hinv.serve_enabled h ha hj hne)
        · have hat := hinv.station a ha
          rw [hstation] at hat
          cases hat with
          | pulling hplaced hnodup hknown hcur hkeys hvalues =>
            obtain ⟨j, hj⟩ := List.getElem?_of_mem (hknown id hid)
            by_contra hne
            exact hstuck (hinv.receive_enabled h ha hj hstation hne)

/-- A server that holds an agent back has seen the bound more updates of it than it has completed
rounds. -/
theorem Held.issued_eq {w : Agent.Pulling F} (hheld : Held config n a w)
    (htracks : Tracks config p pl s₀ n i id) (ha : a ∈ config.workerId)
    (hid : config.serverId[i]? = some id) (hmem : id ∈ w.serverSet) :
    (n.issued a).length = n.rounds i + config.bound.toNat := by
  obtain ⟨st, q, hserver, hvalid, hlink⟩ := htracks
  have hlink := hlink a ha
  rw [hheld.station, phaseAt, if_pos hmem, hheld.requests id (List.mem_of_getElem? hid),
    hheld.replies id hmem] at hlink
  have hlen := congrArg List.length hlink.shares
  rw [pushed, List.filterMap_nil, List.append_nil, List.length_map] at hlen
  have hwaiting : waiting a q ≠ [] := by
    intro hnone
    have hstage := hlink.stage
    rw [hnone] at hstage
    cases hstage
  have hfull : (st.pending a).length = config.bound.toNat := by
    obtain ⟨keys, hkeys⟩ := List.exists_mem_of_ne_nil _ hwaiting
    obtain ⟨r, hr, hra⟩ := List.mem_filterMap.1 hkeys
    split at hra
    · rename_i heq
      exact heq ▸ hvalid.full r hr
    · cases hra
  rw [rounds_ofRounds hserver, ← hlen, st.length_hist ha, hfull]

/-- The server has seen every update of an agent that has nothing under way, and of some agent it
has seen no more than it has completed rounds. -/
theorem exists_issued_eq_rounds (htracks : Tracks config p pl s₀ n i id)
    (hrequests : ∀ b ∈ config.workerId, n.requests b id = []) :
    ∃ b ∈ config.workerId, (n.issued b).length = n.rounds i := by
  obtain ⟨st, q, hserver, -, hlink⟩ := htracks
  obtain ⟨b, hb, hnil⟩ := st.exists_pending_nil
  refine ⟨b, hb, ?_⟩
  have hlen := congrArg List.length (hlink b hb).shares
  rw [hrequests b hb, pushed, List.filterMap_nil, List.append_nil, List.length_map] at hlen
  rw [rounds_ofRounds hserver, ← hlen, st.length_hist hb, hnil, List.length_nil, Nat.add_zero]

/-- **Some step can always be taken.** -/
theorem Inv.enabled (h : Begins config p pl agents s₀) (hinv : Inv config p pl s₀ n) :
    ∃ n', Step config pl n n' := by
  by_contra hstuck
  have hheld : ∀ a ∈ config.workerId, ∃ w, Held config n a w := fun a ha ↦
    (hinv.enabled_or_held h ha).resolve_left hstuck
  -- the agent that has pushed the fewest updates is held back by a server
  obtain ⟨a, ha, hmin⟩ := Finset.exists_min_image config.workerId.toFinset
    (fun a ↦ (n.issued a).length)
    ((List.toFinset_nonempty_iff _).2 h.shards.workers.ne_nil)
  rw [List.mem_toFinset] at ha
  obtain ⟨w, hw⟩ := hheld a ha
  obtain ⟨id, hmem⟩ := List.exists_mem_of_ne_nil _ hw.waits
  have hknown : id ∈ config.serverId := by
    have hat := hinv.station a ha
    rw [hw.station] at hat
    cases hat with
    | pulling hplaced hnodup hknown hcur hkeys hvalues => exact hknown id hmem
  obtain ⟨i, hid⟩ := List.getElem?_of_mem hknown
  have htracks := hinv.server i id hid
  -- but that server waits for one that has pushed fewer
  obtain ⟨b, hb, hfew⟩ := exists_issued_eq_rounds htracks fun b hb ↦ by
    obtain ⟨w', hw'⟩ := hheld b hb
    exact hw'.requests id hknown
  have hmany := hw.issued_eq htracks ha hid hmem
  have hle := hmin b (List.mem_toFinset.2 hb)
  have hbound := h.shards.workers.bound
  omega

/-! ## Every step counts -/

/-- The steps an agent has taken in its epoch. -/
def stepsAt : Station F → ℕ
  | .idle _ => 0
  | .pulling _ => 1
  | .computing _ => 2

/-- What an agent has had to do with a server in its epoch: it has sent it a pull, and received the
answer. -/
def exchangesAt (id : Int) : Station F → ℕ
  | .idle _ => 0
  | .pulling w => if id ∈ w.serverSet then 1 else 2
  | .computing _ => 2

/-- The steps an agent has taken, and those servers have taken for it or have been asked to. -/
def work (config : ConfigMessage) (n : TrainNet F) (a : Int) : ℕ :=
  3 * (n.issued a).length + stepsAt (n.station a)
    + (config.serverId.map fun id ↦ 3 * (n.issued a).length + exchangesAt id (n.station a)).sum

/-- The requests of an agent that wait to be served. -/
def backlog (config : ConfigMessage) (n : TrainNet F) (a : Int) : ℕ :=
  (config.serverId.map fun id ↦ (n.requests a id).length).sum

omit [FloatOps F] in
/-- A step of an agent that moves it one step on, and everything with the servers as it says. -/
theorem work_step {d : ℕ}
    (hown : 3 * (n'.issued a).length + stepsAt (n'.station a) + d
      = 3 * (n.issued a).length + stepsAt (n.station a) + 1)
    (hcell : (config.serverId.map fun id ↦
          3 * (n'.issued a).length + exchangesAt id (n'.station a)).sum
        + (config.serverId.map fun id ↦ (n.requests a id).length).sum
      = (config.serverId.map fun id ↦
          3 * (n.issued a).length + exchangesAt id (n.station a)).sum
        + (config.serverId.map fun id ↦ (n'.requests a id).length).sum + d) :
    work config n' a + backlog config n a = work config n a + backlog config n' a + 1 := by
  rw [work, work, backlog, backlog]
  omega

/-- **Every step is one unit of work**, done by an agent or taken off its backlog. -/
theorem Inv.work_step (h : Begins config p pl agents s₀) (hinv : Inv config p pl s₀ n)
    (hstep : Step config pl n n') :
    Ledger.Enters config.workerId (work config) (backlog config) n n' := by
  have hnodup := h.shards.servers.nodup
  cases hstep with
  | @pull a ag g w sent ha hidle hsize hg hsend =>
    have hat := hinv.station a ha
    rw [hidle] at hat
    cases hat with
    | idle hag =>
      obtain ⟨w', sent', ks, hsend', -, -, -, hset, -, hcalls⟩ :=
        workPull_spec h.shards h.fits hag hsize hg
      rw [hsend'] at hsend
      cases hsend
      refine ⟨a, ha, TrainNet.work_step (d := 0) ?_ (Ledger.sum_map_congr fun id hid ↦ ?_),
        fun b hb ↦ ?_⟩
      · simp only [Function.update_self, hidle, stepsAt]
      · obtain ⟨i, hi⟩ := List.getElem?_of_mem hid
        simp only [Function.update_self, hidle, exchangesAt, if_pos ((hset id).2 hid),
          hcalls i id hi, List.length_append, List.length_singleton]
        omega
      · simp only [work, backlog, Function.update_of_ne hb]
  | @receive a id w w' m rest ha hid hw hset hm hreceive =>
    obtain ⟨i, hi⟩ := List.getElem?_of_mem hid
    obtain ⟨hmem, w₁, hreceive₁, hset₁, -⟩ := hinv.receive_spec h.shards h.fits ha hi hw hm
    rw [hreceive₁] at hreceive
    cases hreceive
    have hnd : w.serverSet.Nodup := by
      have hat := hinv.station a ha
      rw [hw] at hat
      cases hat with
      | pulling _ hnd _ _ _ _ => exact hnd
    refine ⟨a, ha, TrainNet.work_step (d := 1) ?_
      (Ledger.sum_map_step hnodup hid ?_ fun id' hid' hne ↦ ?_), fun b hb ↦ ?_⟩
    · simp only [Function.update_self, hw, stepsAt]
    · have hout : id ∉ w.serverSet.erase id := fun hin ↦ (hnd.mem_erase_iff.1 hin).1 rfl
      simp only [Function.update_self, hw, exchangesAt, if_pos hmem, hset₁, if_neg hout]
      omega
    · simp [hw, exchangesAt, hset₁, hnd.mem_erase_iff, hne]
    · simp only [work, backlog, Function.update_of_ne hb]
  | @finish a w ha hw hset =>
    refine ⟨a, ha, TrainNet.work_step (d := 0) ?_ (Ledger.sum_map_congr fun id hid ↦ ?_),
      fun b hb ↦ ?_⟩
    · simp only [Function.update_self, hw, stepsAt]
    · simp [hw, exchangesAt, hset]
    · simp only [work, backlog, Function.update_of_ne hb]
  | @push a ag ag' g sent ha hag hsize hg hsend =>
    have hat := hinv.station a ha
    rw [hag] at hat
    obtain ⟨order, seen, hcomputed⟩ := hat.computed h.fits hsize hg
    have hplaced : Placed config p a ag := by
      cases hat with
      | computing hplaced _ _ _ => exact hplaced
    obtain ⟨ag₁, sent₁, hsend₁, -, hcalls⟩ := workPush_spec h.shards hplaced hcomputed.complete
    rw [hsend₁] at hsend
    cases hsend
    refine ⟨a, ha, TrainNet.work_step (d := 0) ?_ (Ledger.sum_map_congr fun id hid ↦ ?_),
      fun b hb ↦ ?_⟩
    · simp only [Function.update_self, hag, stepsAt, List.length_append, List.length_singleton]
      omega
    · obtain ⟨i, hi⟩ := List.getElem?_of_mem hid
      simp only [Function.update_self, hag, exchangesAt, hcalls i id hi, List.length_append,
        List.length_singleton]
      omega
    · simp only [work, backlog, Function.update_of_ne hb]
  | @serve a id i c rest s' r ha hid hc hserve =>
    refine ⟨a, ha, TrainNet.work_step (d := 1) rfl
      (Ledger.sum_map_step hnodup (List.mem_of_getElem? hid) ?_ fun id' hid' hne ↦ ?_),
      fun b hb ↦ ?_⟩
    · simp only [Function.update_self, hc, List.length_cons]
      omega
    · simp only [Function.update_self, Function.update_of_ne hne]
    · simp only [work, backlog, Function.update_of_ne hb]

/-- The steps of a run are the work that has been done. -/
theorem run_work (h : Begins config p pl agents s₀) {run : ℕ → TrainNet F}
    (hstart : run 0 = start agents s₀) {T : ℕ}
    (hstep : ∀ t < T, Step config pl (run t) (run (t + 1))) : Inv config p pl s₀ (run T) ∧
      T + (config.workerId.map (backlog config (run T))).sum
        = (config.workerId.map (work config (run T))).sum := by
  refine Ledger.run_total h.shards.workers.nodup (fun _ _ hinv hs ↦ hinv.step h hs)
    (fun _ _ hinv hs ↦ hinv.work_step h hs) (hstart ▸ inv_start h) (fun a ↦ ?_) hstep
  rw [hstart]
  simp [backlog, work, start, stepsAt, exchangesAt]

omit [FloatOps F] in
theorem stepsAt_le (s : Station F) : stepsAt s ≤ 2 := by
  cases s <;> simp [stepsAt]

omit [FloatOps F] in
theorem exchangesAt_le (id : Int) (s : Station F) : exchangesAt id s ≤ 2 := by
  cases s with
  | idle ag | computing ag => simp [exchangesAt]
  | pulling w =>
    rw [exchangesAt]
    split <;> omega

/-- An agent has not done more than the bound allows it to. -/
theorem work_le (htracks : Tracks config p pl s₀ n i id) (ha : a ∈ config.workerId) :
    work config n a ≤ (config.serverId.length + 1)
      * (3 * (n.rounds i + config.bound.toNat) + 2) := by
  have hissued := issued_le htracks ha
  have hcell : ∀ x ∈ config.serverId.map fun id ↦
      3 * (n.issued a).length + exchangesAt id (n.station a),
      x ≤ 3 * (n.rounds i + config.bound.toNat) + 2 := by
    intro x hx
    obtain ⟨id', -, rfl⟩ := List.mem_map.1 hx
    have hexchange := exchangesAt_le id' (n.station a)
    omega
  have hsum := List.sum_le_card_nsmul _ _ hcell
  have hown := stepsAt_le (n.station a)
  rw [List.length_map, smul_eq_mul] at hsum
  rw [work, Nat.add_mul, Nat.one_mul]
  omega

/-! ## Main results -/

variable {masterAddr : String}

/-- **Training never gets stuck.**  In every state it can reach, an agent or a server can take a
step. -/
theorem training_never_stuck (hc : config.WorkersOk) (hs : config.ServersOk)
    (htwo : 2 ≤ config.serverNum) (hsorted : config.partition.Pairwise (· ≤ ·))
    (hp : Partition.initializePartition config.keyRange config.serverNum config.partition = .ok p)
    (hagents : ∀ a ∈ config.workerId, ∃ gradients parameters,
      Agent.initializeAgent masterAddr a config gradients parameters = .ok (agents a))
    (hservers : ∀ i id, config.serverId[i]? = some id →
      Server.initializeServer masterAddr id config = .ok (s₀ i)) (hfits : pl.Fits p)
    (hn : Relation.ReflTransGen (Step config pl) (start agents s₀) n) :
    ∃ n', Step config pl n n' := by
  have h := begins_of_initialize hc hs htwo hsorted hp hagents hservers hfits
  exact (Inv.reachable h hn).enabled h

/-- Agent `3` has begun its second epoch, and both servers hold it back until agent `4` has finished
its first. -/
theorem training_never_stuck_small : ∃ (agents : Int → Agent Int) (s₀ : ℕ → Server Int)
    (n : TrainNet Int),
    Relation.ReflTransGen (Step Server.smallConfig smallPlugin) (start agents s₀) n ∧
      (n.servers 0).pullRequest ≠ [] ∧ (n.servers 1).pullRequest ≠ [] ∧
      n.requests 3 1 = [] ∧ n.requests 3 2 = [] ∧ n.replies 3 1 = [] ∧ n.replies 3 2 = [] ∧
      ∃ n', Step Server.smallConfig smallPlugin n n' := by
  obtain ⟨p, ag₃, ag₄, s₁, s₂, n, hp, hrange, hnum, howner, howner', hag₃, hag₄, hs₁, hs₂, hrun,
      hheld₁, hheld₂, hnothing⟩ :
      ∃ p ag₃ ag₄ s₁ s₂ n,
        Partition.initializePartition 10 2 [0, 4] = .ok p ∧ p.keyRange = 10 ∧ p.serverNum = 2 ∧
        p.getServerByKey 2 = 0 ∧ p.getServerByKey 7 = 1 ∧
        Agent.initializeAgent "10.0.0.1:80" 3 Server.smallConfig Agent.noPairs Agent.noPairs
          = .ok ag₃ ∧
        Agent.initializeAgent "10.0.0.1:80" 4 Server.smallConfig Agent.noPairs Agent.noPairs
          = .ok ag₄ ∧
        Server.initializeServer (F := Int) "10.0.0.1:80" 1 Server.smallConfig = .ok s₁ ∧
        Server.initializeServer (F := Int) "10.0.0.1:80" 2 Server.smallConfig = .ok s₂ ∧
        (smallEpoch 3 ++ (smallEpoch 3).take 3).foldlM
          (fun n e ↦ n.next Server.smallConfig smallPlugin e)
          (start (fun a ↦ if a = 3 then ag₃ else ag₄) fun i ↦ if i = 0 then s₁ else s₂)
          = some n ∧ (n.servers 0).pullRequest = [⟨3, [2]⟩] ∧
        (n.servers 1).pullRequest = [⟨3, [7]⟩] ∧
        n.requests 3 1 = [] ∧ n.requests 3 2 = [] ∧ n.replies 3 1 = [] ∧ n.replies 3 2 = [] :=
    ⟨_, _, _, _, _, _, rfl, rfl, rfl, rfl, rfl, rfl, rfl, rfl, rfl, rfl, rfl, rfl, rfl, rfl, rfl,
      rfl⟩
  obtain ⟨hnone₁, hnone₂, hnone₃, hnone₄⟩ := hnothing
  have hn := reachable_of_run (known_smallEpochs rfl rfl fun e he ↦ .inl
    ((List.mem_append.1 he).elim (fun h ↦ h) List.mem_of_mem_take)) hrun
  exact ⟨_, _, n, hn, by simp [hheld₁], by simp [hheld₂], hnone₁, hnone₂, hnone₃, hnone₄,
    training_never_stuck Server.smallConfig_workersOk
      ⟨by constructor <;> decide, by decide, by decide⟩ (by decide) (by decide) hp
      (agents_small rfl hag₃ hag₄) (servers_small rfl hs₁ hs₂)
      (smallPlugin_fits hrange hnum howner howner') hn⟩

/-- **Training gets somewhere.**  In every run, whoever has taken the steps, the number of steps
bounds from below the number of rounds that each of the servers has completed. -/
theorem training_progresses (hc : config.WorkersOk) (hs : config.ServersOk)
    (htwo : 2 ≤ config.serverNum) (hsorted : config.partition.Pairwise (· ≤ ·))
    (hp : Partition.initializePartition config.keyRange config.serverNum config.partition = .ok p)
    (hagents : ∀ a ∈ config.workerId, ∃ gradients parameters,
      Agent.initializeAgent masterAddr a config gradients parameters = .ok (agents a))
    (hservers : ∀ i id, config.serverId[i]? = some id →
      Server.initializeServer masterAddr id config = .ok (s₀ i)) (hfits : pl.Fits p)
    {run : ℕ → TrainNet F} {T : ℕ} (hstart : run 0 = start agents s₀)
    (hstep : ∀ t < T, Step config pl (run t) (run (t + 1))) (hi : i < config.serverId.length) :
    T ≤ config.workerId.length * ((config.serverId.length + 1)
      * (3 * ((run T).rounds i + config.bound.toNat) + 2)) := by
  have h := begins_of_initialize hc hs htwo hsorted hp hagents hservers hfits
  obtain ⟨hinv, hwork⟩ := run_work h hstart hstep
  have htracks := hinv.server i _ (List.getElem?_eq_getElem hi)
  have hsum := List.sum_le_card_nsmul (config.workerId.map (work config (run T)))
    ((config.serverId.length + 1) * (3 * ((run T).rounds i + config.bound.toNat) + 2)) (by
      intro x hx
      obtain ⟨a, ha, rfl⟩ := List.mem_map.1 hx
      exact work_le htracks ha)
  rw [List.length_map, smul_eq_mul] at hsum
  omega

/-- A schedule as a run. -/
theorem exists_run {es : List Event} : ∀ {n n' : TrainNet F}, (∀ e ∈ es, e.Known config) →
    es.foldlM (fun n e ↦ n.next config pl e) n = some n' →
    ∃ run : ℕ → TrainNet F, run 0 = n ∧ run es.length = n' ∧
      ∀ t < es.length, Step config pl (run t) (run (t + 1)) := by
  induction es with
  | nil =>
    rintro n n' - h
    obtain rfl := Option.some.inj h
    exact ⟨fun _ ↦ n, rfl, rfl, by simp⟩
  | cons e es ih =>
    intro n n' hknown h
    rw [List.foldlM_cons, Option.bind_eq_bind, Option.bind_eq_some_iff] at h
    obtain ⟨n₁, hfirst, hrest⟩ := h
    obtain ⟨run, hzero, hlast, hsteps⟩ := ih (fun e' he' ↦ hknown e' (List.mem_cons_of_mem _ he'))
      hrest
    refine ⟨fun t ↦ t.casesOn n run, rfl, hlast, fun t ht ↦ ?_⟩
    cases t with
    | zero =>
      show Step config pl n (run 0)
      rw [hzero]
      exact step_of_next (hknown e (List.mem_cons_self ..)) hfirst
    | succ t => exact hsteps t (Nat.lt_of_succ_lt_succ ht)

/-- After `27` steps there has been a round. -/
theorem training_progresses_small : ∃ (agents : Int → Agent Int) (s₀ : ℕ → Server Int)
    (run : ℕ → TrainNet Int), run 0 = start agents s₀ ∧
      (∀ t < 27, Step roomyConfig smallPlugin (run t) (run (t + 1))) ∧ (run 27).rounds 0 = 1 ∧
      27 ≤ 2 * (3 * (3 * ((run 27).rounds 0 + 2) + 2)) := by
  obtain ⟨p, ag₃, ag₄, s₁, s₂, n, hp, hrange, hnum, howner, howner', hag₃, hag₄, hs₁, hs₂, hrun,
      hrounds⟩ :
      ∃ p ag₃ ag₄ s₁ s₂ n,
        Partition.initializePartition 10 2 [1, 4] = .ok p ∧ p.keyRange = 10 ∧ p.serverNum = 2 ∧
        p.getServerByKey 2 = 0 ∧ p.getServerByKey 7 = 1 ∧
        Agent.initializeAgent "10.0.0.1:80" 3 roomyConfig Agent.noPairs Agent.noPairs = .ok ag₃ ∧
        Agent.initializeAgent "10.0.0.1:80" 4 roomyConfig Agent.noPairs Agent.noPairs = .ok ag₄ ∧
        Server.initializeServer (F := Int) "10.0.0.1:80" 1 roomyConfig = .ok s₁ ∧
        Server.initializeServer (F := Int) "10.0.0.1:80" 2 roomyConfig = .ok s₂ ∧
        (smallEpoch 3 ++ smallEpoch 3 ++ smallEpoch 4).foldlM
          (fun n e ↦ n.next roomyConfig smallPlugin e)
          (start (fun a ↦ if a = 3 then ag₃ else ag₄) fun i ↦ if i = 0 then s₁ else s₂)
          = some n ∧ n.rounds 0 = 1 :=
    ⟨_, _, _, _, _, _, rfl, rfl, rfl, rfl, rfl, rfl, rfl, rfl, rfl, rfl, rfl⟩
  obtain ⟨run, hzero, rfl, hsteps⟩ := exists_run (known_smallEpochs rfl rfl (by simp)) hrun
  have hle := training_progresses (i := 0) (by constructor <;> decide)
    ⟨by constructor <;> decide, by decide, by decide⟩ (by decide) (by decide) hp
    (agents_small rfl hag₃ hag₄) (servers_small rfl hs₁ hs₂)
    (smallPlugin_fits hrange hnum howner howner') hzero hsteps (by decide)
  exact ⟨_, _, run, hzero, hsteps, hrounds, hle⟩

end

end TrainNet

end Rpscc
