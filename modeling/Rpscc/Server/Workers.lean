import Rpscc.Server.Reconfigure
import Rpscc.Server.Requests
import Rpscc.Server.Runs

/-!
# Reconfiguring the workers

What a server remembers of its workers is spread over four members: `id_to_index_` says which queue
of `version_buffer_` is whose, `finish_count_` counts the queues that are longer than each version,
and `UpdateParameter` visits the first `agent_num_` queues.  `Reconfigure` rewrites them for the
workers of the new configuration: it empties the queues of those who are gone, and appends one for
each of those who come.

* `VersionsOf` and `Reworked` say what a reconfiguration should leave.
* `refreshAgents_index` says where the queues are after one, in any case.
* `Buffers` is what a run leaves, whatever the keys of its requests: queues and counters are those
  of some histories of the workers (`run_buffers`).
* `reconfigure_queueing` says what a reconfiguration does leave when nobody is gone.

The two loops of `Reconfigure` do not fit together.  A queue is only ever appended, while
`UpdateParameter` visits a beginning of them, so that the queue of a worker who is gone takes up a
place that nobody gets; and the loop that appends runs to the *old* number of workers.  Hence the
condition of `reconfigure_reworked_iff`.
-/

set_option autoImplicit false

namespace Rpscc

namespace Server

variable {F : Type} {config : ConfigMessage} {s₀ s s' : Server F}

/-! ## What the version state should be -/

/-- The updates worker `a` has in its version buffer. -/
def buffered (s : Server F) (a : Int) : List (KeyValueList F) :=
  ((s.bufferOf a).toOption).getD []

/-- The version state is that of the workers `ids`: each has a queue of its own among those
`UpdateParameter` visits, the counters count their updates, and no complete round is left. -/
structure VersionsOf (ids : List Int) (s : Server F) : Prop where
  mem_iff : ∀ a, a ∈ ids ↔ ∃ k, s.idToIndex a = some k
  injective : ∀ a b k, s.idToIndex a = some k → s.idToIndex b = some k → a = b
  lt_agentNum : ∀ a k, s.idToIndex a = some k → 0 ≤ k ∧ k < s.agentNum
  finishCount : ∀ (j : ℕ) (count : Int), s.finishCount[j]? = some count →
    count = ids.countP fun a ↦ decide (j < (s.buffered a).length)
  unfinished : ∃ count, s.finishCount[0]? = some count ∧ count < s.agentNum

/-- What a reconfiguration to the workers `ids` should leave of the server `s`: the version state is
theirs, who stays keeps its updates, and who comes has none. -/
structure Reworked (s : Server F) (ids : List Int) (s' : Server F) : Prop where
  versions : VersionsOf ids s'
  stays : ∀ a ∈ ids, a ∈ s.agentIds → s'.bufferOf a = s.bufferOf a
  comes : ∀ a ∈ ids, a ∉ s.agentIds → s'.bufferOf a = .ok []

/-! ## Giving the new workers a queue -/

/-- The server with one queue for everyone on the list. -/
def queueing (s : Server F) (ids : List Int) (queue : Int → List (KeyValueList F)) : Server F :=
  { s with
    idToIndex := Lists.placesOf ids
    versionBuffer := ids.map queue }

theorem queueing_eq_self {ids : List Int} {queue : Int → List (KeyValueList F)}
    (hplaces : s.idToIndex = Lists.placesOf ids) (hqueues : s.versionBuffer = ids.map queue) :
    s.queueing ids queue = s := by
  rw [queueing, ← hplaces, ← hqueues]

@[simp] theorem bufferOf_queueing {ids : List Int} {queue : Int → List (KeyValueList F)} {a : Int}
    (ha : a ∈ ids) : (s.queueing ids queue).bufferOf a = .ok (queue a) := by
  have hindex : (s.queueing ids queue).indexOf a = (s.queueing ids queue, (ids.idxOf a : Int)) := by
    rw [indexOf, show (s.queueing ids queue).idToIndex a = some (ids.idxOf a : Int) from if_pos ha]
  rw [bufferOf, hindex]
  exact Checked.get_natCast (Lists.getElem?_map_idxOf ha queue)

/-- One queue for each of the workers, and counters for them. -/
theorem versionsOf_queueing {ids workers : List Int} {queue : Int → List (KeyValueList F)}
    (hperm : ids.Perm workers) (hnum : s.agentNum = workers.length)
    (hcounts : ∀ (j : ℕ) (count : Int), s.finishCount[j]? = some count →
      count = workers.countP fun a ↦ decide (j < (queue a).length))
    (hunfinished : ∃ count, s.finishCount[0]? = some count ∧ count < s.agentNum) :
    VersionsOf workers (s.queueing ids queue) := by
  refine ⟨fun a ↦ ?_, fun a b k ha hb ↦ ?_, fun a k ha ↦ ?_, fun j count hj ↦ ?_, hunfinished⟩
  · rw [← hperm.mem_iff]
    exact ⟨fun ha ↦ ⟨_, if_pos ha⟩, fun ⟨k, hk⟩ ↦ (Lists.placesOf_eq_some.1 hk).1⟩
  · obtain ⟨hmem, rfl⟩ := Lists.placesOf_eq_some.1 ha
    obtain ⟨-, hab⟩ := Lists.placesOf_eq_some.1 hb
    exact (List.idxOf_inj hmem).1 (Int.ofNat_inj.1 hab)
  · obtain ⟨hmem, rfl⟩ := Lists.placesOf_eq_some.1 ha
    refine ⟨Int.natCast_nonneg _, ?_⟩
    show _ < s.agentNum
    rw [hnum, ← hperm.length_eq]
    exact Int.ofNat_lt.2 (List.idxOf_lt_length_of_mem hmem)
  · rw [hcounts j count hj]
    refine congrArg Nat.cast (List.countP_congr fun a ha ↦ ?_)
    rw [buffered, bufferOf_queueing (hperm.mem_iff.2 ha)]
    rfl

section

variable {ids : List Int} {queue : Int → List (KeyValueList F)} {i : ℕ}

theorem addAgent_of_mem (hi : i < config.workerId.length) (hmem : config.workerId[i] ∈ ids) :
    addAgent config (s.queueing ids queue) i = .ok (s.queueing ids queue) := by
  have hplace : (s.queueing ids queue).idToIndex config.workerId[i] = some _ := if_pos hmem
  rw [addAgent, Checked.get_natCast (List.getElem?_eq_getElem hi), Checked.ok_bind]
  simp only [hplace]

theorem addAgent_of_not_mem (hi : i < config.workerId.length) (hmem : config.workerId[i] ∉ ids)
    (hqueue : queue config.workerId[i] = []) :
    addAgent config (s.queueing ids queue) i
      = .ok (s.queueing (ids ++ [config.workerId[i]]) queue) := by
  have hplace : (s.queueing ids queue).idToIndex config.workerId[i] = none := if_neg hmem
  have hlength : (s.queueing ids queue).versionBuffer.length = ids.length := List.length_map ..
  rw [addAgent, Checked.get_natCast (List.getElem?_eq_getElem hi), Checked.ok_bind]
  simp only [hplace, hlength]
  rw [queueing, queueing, Lists.placesOf_concat hmem, List.map_append, List.map_singleton, hqueue]

/-- The loop that adds the workers: of the first `n` in the new configuration, those who have no
queue get one, in their order. -/
theorem addAgents_ok (hnd : config.workerId.Nodup)
    (hqueue : ∀ a ∈ config.workerId, a ∉ ids → queue a = []) {n : ℕ}
    (hn : n ≤ config.workerId.length) :
    (List.range n).foldlM (addAgent config) (s.queueing ids queue)
      = .ok (s.queueing (ids ++ (config.workerId.take n).filter (· ∉ ids)) queue) := by
  have hbody : ∀ i < n, ∀ t : Server F,
      t = s.queueing (ids ++ (config.workerId.take i).filter (· ∉ ids)) queue →
      ∃ t', addAgent config t i = .ok t' ∧
        t' = s.queueing (ids ++ (config.workerId.take (i + 1)).filter (· ∉ ids)) queue := by
    rintro i hi t rfl
    have hi' : i < config.workerId.length := lt_of_lt_of_le hi hn
    rw [List.take_succ_eq_append_getElem hi', List.filter_append]
    by_cases hmem : config.workerId[i] ∈ ids
    · rw [List.filter_cons_of_neg (by simpa using hmem), List.filter_nil, List.append_nil]
      exact ⟨_, addAgent_of_mem hi' (List.mem_append_left _ hmem), rfl⟩
    · rw [List.filter_cons_of_pos (by simpa using hmem), List.filter_nil, ← List.append_assoc]
      have hnot : config.workerId[i] ∉ ids ++ (config.workerId.take i).filter (· ∉ ids) := by
        intro h
        rcases List.mem_append.1 h with h | h
        · exact hmem h
        · exact Lists.getElem_notMem_take hnd hi' (List.mem_filter.1 h).1
      exact ⟨_, addAgent_of_not_mem hi' hnot (hqueue _ (List.getElem_mem hi') hmem), rfl⟩
  obtain ⟨t, ht, rfl⟩ := Checked.foldlM_range_ok (P := fun m (t : Server F) ↦
    t = s.queueing (ids ++ (config.workerId.take m).filter (· ∉ ids)) queue)
    (show s.queueing ids queue = _ by simp) hbody
  exact ht

end

/-! ## Where the queues are in any case -/

section

variable {t t' : Server F}

/-- Forgetting a worker moves nobody else and leaves the queue behind. -/
theorem dropAgent_keeps {id : Int} (h : dropAgent config t id = .ok t') :
    t'.agentNum = t.agentNum ∧ t'.versionBuffer.length = t.versionBuffer.length ∧
      ∀ a k, t'.idToIndex a = some k → t.idToIndex a = some k := by
  have hindex : ∃ places, (∀ a, a ≠ id → places a = t.idToIndex a) ∧
      (t.indexOf id).1 = { t with idToIndex := places } := by
    rw [indexOf]
    split
    · exact ⟨t.idToIndex, fun a _ ↦ rfl, rfl⟩
    · exact ⟨_, fun a ha ↦ Function.update_of_ne ha .., rfl⟩
  obtain ⟨places, hplaces, hindex⟩ := hindex
  rw [dropAgent] at h
  split at h
  · cases h
    exact ⟨rfl, rfl, fun a k hk ↦ hk⟩
  · dsimp only at h
    rw [Checked.bind_eq_ok] at h
    obtain ⟨buffer, -, h⟩ := h
    split at h
    · simp at h
    · cases h
      rw [hindex]
      refine ⟨rfl, List.length_set .., fun a k hk ↦ ?_⟩
      have hk' : Function.update places id none a = some k := hk
      by_cases ha : a = id
      · subst ha
        rw [Function.update_self] at hk'
        simp at hk'
      · rwa [Function.update_of_ne ha, hplaces a ha] at hk'

/-- Worker `i` of the new configuration has a queue, or is given one at the end. -/
theorem addAgent_keeps {i : ℕ} (h : addAgent config t i = .ok t') :
    i < config.workerId.length ∧ t.versionBuffer.length ≤ t'.versionBuffer.length ∧
      ∀ a k, t'.idToIndex a = some k → t.idToIndex a = some k ∨
        config.workerId[i]? = some a ∧ k = t.versionBuffer.length := by
  rw [addAgent, Checked.bind_eq_ok] at h
  obtain ⟨id, hid, h⟩ := h
  have hget : config.workerId[i]? = some id := by
    simpa using (Checked.get_eq_ok_iff.1 hid).2
  obtain ⟨hi, -⟩ := List.getElem?_eq_some_iff.1 hget
  split at h
  · cases h
    exact ⟨hi, le_refl _, fun a k hk ↦ .inl hk⟩
  · cases h
    refine ⟨hi, by simp, fun a k hk ↦ ?_⟩
    have hk' : Function.update t.idToIndex id (some (t.versionBuffer.length : Int)) a = some k := hk
    by_cases ha : a = id
    · subst ha
      rw [Function.update_self, Option.some.injEq] at hk'
      exact .inr ⟨hget, hk'.symm⟩
    · rw [Function.update_of_ne ha] at hk'
      exact .inl hk'

/-- **Where the queues are afterwards**: a worker is where it was, or it is among the first
`agent_num_` of the new configuration, counted by the old number, and its queue is a new one at the
end. -/
theorem refreshAgents_index (h : s.refreshAgents config = .ok t) :
    s.agentNum.toNat ≤ config.workerId.length ∧ ∀ a k, t.idToIndex a = some k →
      s.idToIndex a = some k ∨
        a ∈ config.workerId.take s.agentNum.toNat ∧ (s.versionBuffer.length : Int) ≤ k := by
  rw [refreshAgents, Checked.bind_eq_ok] at h
  obtain ⟨s₁, hdrop, h⟩ := h
  obtain ⟨hnum, hlen, hindex⟩ := Checked.foldlM_keeps (P := fun x : Server F ↦
    x.agentNum = s.agentNum ∧ x.versionBuffer.length = s.versionBuffer.length ∧
      ∀ a k, x.idToIndex a = some k → s.idToIndex a = some k) (fun x id y hx hy ↦ by
        obtain ⟨h1, h2, h3⟩ := dropAgent_keeps hy
        exact ⟨h1.trans hx.1, h2.trans hx.2.1, fun a k hk ↦ hx.2.2 a k (h3 a k hk)⟩)
    ⟨rfl, rfl, fun _ _ hk ↦ hk⟩ hdrop
  dsimp only at h
  rw [hnum] at h
  refine And.imp_right And.right (Checked.foldlM_range_inv (P := fun m (x : Server F) ↦
    m ≤ config.workerId.length ∧ s.versionBuffer.length ≤ x.versionBuffer.length ∧
      ∀ a k, x.idToIndex a = some k → s.idToIndex a = some k ∨
        a ∈ config.workerId.take m ∧ (s.versionBuffer.length : Int) ≤ k) ?_ ?_ h)
  · exact ⟨Nat.zero_le _, hlen.ge, fun a k hk ↦ .inl (hindex a k hk)⟩
  · rintro i - x y ⟨-, hle, hx⟩ hy
    obtain ⟨hi, hgrow, hindex'⟩ := addAgent_keeps hy
    refine ⟨hi, hle.trans hgrow, fun a k hk ↦ ?_⟩
    rcases hindex' a k hk with hk | ⟨ha, rfl⟩
    · exact (hx a k hk).imp_right (And.imp_left fun ha ↦
        List.take_subset_take_left _ (Nat.le_succ i) ha)
    · refine .inr ⟨?_, Int.ofNat_le.2 hle⟩
      rw [List.take_add_one, ha]
      exact List.mem_append_right _ (List.mem_singleton_self a)

/-- A `Reconfigure` that ends has answered the blocked pulls and refreshed the workers. -/
theorem reconfigure_refreshAgents (hr : config.RangesOk) {i : ℕ} (hi : i < config.serverId.length)
    (hlocal : s.localId = config.serverId[i]) {sent : List (Sent F)}
    (h : s.reconfigure config = .ok (s', sent)) :
    (∃ r, s.respondToAll = .ok r) ∧ ∃ l t,
      (({ s with pullRequest := [] }.relocate config l).readdress config).refreshAgents config
        = .ok t ∧ s'.idToIndex = t.idToIndex ∧ s'.agentNum = config.workerNum := by
  obtain ⟨l, -, -, -, heq⟩ := reconfigure_eq hr hi (rangeFits_of_reconfigure hr hi hlocal h) hlocal
  rw [heq, Checked.bind_eq_ok] at h
  obtain ⟨⟨s₁, msgs⟩, hrespond, h⟩ := h
  rw [Checked.bind_eq_ok] at h
  obtain ⟨t, hrefresh, h⟩ := h
  rw [Checked.bind_eq_ok] at h
  obtain ⟨t', hextend, h⟩ := h
  rw [extendParameter, Checked.bind_eq_ok] at hextend
  obtain ⟨parameters, -, hextend⟩ := hextend
  cases hextend
  cases h
  refine ⟨⟨_, hrespond⟩, l, t, ?_, rfl, rfl⟩
  obtain ⟨rfl, -⟩ := respondToAll_cases hrespond
  exact hrefresh

/-- If every worker has a queue among the first, nobody was taken out: the place of who was taken
out is given to nobody, so that the others cannot all have a place.  And nobody new is beyond the
first `agent_num_`. -/
theorem workers_of_refreshAgents {ids : List Int} (hplaces : s.idToIndex = Lists.placesOf ids)
    (hbuffers : s.versionBuffer.length = ids.length) (hnum : s.agentNum = ids.length)
    (hnd : config.workerId.Nodup) (h : s.refreshAgents config = .ok t) {s' : Server F}
    (hindex : s'.idToIndex = t.idToIndex) (hnum' : s'.agentNum = config.workerId.length)
    (hv : VersionsOf config.workerId s') :
    (∀ a ∈ ids, a ∈ config.workerId) ∧ ∀ a ∈ config.workerId.drop ids.length, a ∈ ids := by
  have hagents : s.agentNum.toNat = ids.length := by rw [hnum, Int.toNat_natCast]
  obtain ⟨hle, hwhere⟩ := refreshAgents_index h
  rw [hagents, hbuffers, hplaces] at *
  rw [← hindex] at hwhere
  constructor
  · intro r hr
    by_contra hgone
    -- everyone in the new configuration has a place of its own, so one of them has that of `r`
    choose! place hplace using fun a ↦ (hv.mem_iff a).1
    have hlt : ∀ a ∈ config.workerId, (place a).toNat < config.workerId.length := by
      intro a ha
      obtain ⟨hnonneg, hlt⟩ := hv.lt_agentNum a _ (hplace a ha)
      omega
    have hinj : ∀ a ∈ config.workerId, ∀ b ∈ config.workerId,
        (place a).toNat = (place b).toNat → a = b := by
      intro a ha b hb hab
      obtain ⟨hnonneg, -⟩ := hv.lt_agentNum a _ (hplace a ha)
      obtain ⟨hnonneg', -⟩ := hv.lt_agentNum b _ (hplace b hb)
      refine hv.injective a b _ (hplace a ha) ?_
      rw [hplace b hb, show place a = place b by omega]
    have hidx : ids.idxOf r < ids.length := List.idxOf_lt_length_of_mem hr
    obtain ⟨a, ha, hr'⟩ := Lists.exists_mem_eq hnd hlt hinj (lt_of_lt_of_le hidx hle)
    obtain ⟨hnonneg, -⟩ := hv.lt_agentNum a _ (hplace a ha)
    have hplace' : place a = ids.idxOf r := by omega
    rcases hwhere a _ (hplace a ha) with hk | ⟨-, hk⟩
    · obtain ⟨-, heq⟩ := Lists.placesOf_eq_some.1 hk
      have har : r = a := (List.idxOf_inj hr).1 (by omega)
      exact hgone (har ▸ ha)
    · omega
  · intro a ha
    obtain ⟨k, hk⟩ := (hv.mem_iff a).1 (List.mem_of_mem_drop ha)
    rcases hwhere a k hk with hk | ⟨htake, -⟩
    · exact (Lists.placesOf_eq_some.1 hk).1
    · exact absurd ha (List.disjoint_take_drop hnd (le_refl _) htake)

end

/-! ## What a run leaves, whatever the keys -/

/-- The server that started as `s₀`, with the buffers and the counters of the histories `st`. -/
def buffering (s₀ : Server F) (st : History config F) (parameters : List F) (bottomVersion : Int)
    (pullRequest : List PullInfo) : Server F :=
  { s₀ with
    parameters := parameters
    bottomVersion := bottomVersion
    versionBuffer := config.workerId.map st.pending
    finishCount := (List.range config.bound.toNat).map fun j ↦ (st.count j : Int)
    pullRequest := pullRequest }

/-- The buffers and the counters of the server are those of some histories of its workers, and it
has the parameters it should have. -/
def Buffers (config : ConfigMessage) (s₀ s : Server F) : Prop :=
  ∃ (st : History config F) (parameters : List F) (bottomVersion : Int)
    (pullRequest : List PullInfo), parameters.length = s₀.parameters.length ∧
      s = s₀.buffering st parameters bottomVersion pullRequest

variable [FloatOps F]

theorem Buffers.fresh (hf : Fresh config s₀) (hne : config.workerId ≠ []) :
    Buffers config s₀ s₀ := by
  refine ⟨Rounds.empty hne, s₀.parameters, s₀.bottomVersion, s₀.pullRequest, rfl, ?_⟩
  have h := ofRounds_empty hf hne
  have hbuf : config.workerId.map (Rounds.empty hne : History config F).pending
      = s₀.versionBuffer := congrArg versionBuffer h
  have hcount : (List.range config.bound.toNat).map (fun j ↦
      ((Rounds.empty hne : History config F).count j : Int)) = s₀.finishCount :=
    congrArg finishCount h
  rw [buffering, hbuf, hcount]

/-- No complete round is left over. -/
theorem Buffers.finishRound_idle (hf : Fresh config s₀) (hc : config.WorkersOk)
    {st : History config F} {parameters : List F} {bottomVersion : Int}
    {pullRequest : List PullInfo} {sent : List (Sent F)}
    (h : (s₀.buffering st parameters bottomVersion pullRequest).finishRound = .ok (s', sent)) :
    s' = s₀.buffering st parameters bottomVersion pullRequest := by
  obtain ⟨count, hcount, ⟨-, rfl, -⟩ | ⟨heq, -⟩⟩ := finishRound_cases h
  · rfl
  · have hpos := hc.bound
    have hget : Checked.get ((List.range config.bound.toNat).map fun j ↦ (st.count j : Int)) 0
        = .ok (st.count 0 : Int) :=
      Checked.get_natCast (n := 0)
        (by simp [List.getElem?_range (show 0 < config.bound.toNat by omega)])
    have hcount' : count = (st.count 0 : Int) := Except.ok.inj (hcount.symm.trans hget)
    have hnum : (s₀.buffering st parameters bottomVersion pullRequest).agentNum
        = config.workerId.length := hf.agentNum
    have hlt := st.count_zero_lt
    omega

/-- Once an update of worker `a` is stored, the round check leaves the buffers and the counters of
the longer histories. -/
theorem Buffers.finishRound_stored (hf : Fresh config s₀) (hc : config.WorkersOk)
    {st : History config F} {parameters : List F} {bottomVersion : Int}
    {pullRequest : List PullInfo} (hlen : parameters.length = s₀.parameters.length) {a : Int}
    (ha : a ∈ config.workerId) (hroom : (st.pending a).length < config.bound.toNat)
    {u : KeyValueList F} {sent : List (Sent F)}
    (h : { s₀.buffering st parameters bottomVersion pullRequest with
        versionBuffer := config.workerId.map (st.stored a u)
        finishCount := (List.range config.bound.toNat).map fun j ↦
          ((config.workerId.countP fun b ↦ decide (j < (st.stored a u b).length) : ℕ) : Int)
        }.finishRound = .ok (s', sent)) : Buffers config s₀ s' := by
  have hpos : 0 < config.bound.toNat := by have := hc.bound; omega
  obtain ⟨count, hcount, hcases⟩ := finishRound_cases h
  have hget : Checked.get ((List.range config.bound.toNat).map fun j ↦
      ((config.workerId.countP fun b ↦ decide (j < (st.stored a u b).length) : ℕ) : Int)) 0
      = .ok (config.workerId.countP fun b ↦ decide (0 < (st.stored a u b).length) : Int) :=
    Checked.get_natCast (n := 0) (by simp [List.getElem?_range hpos])
  have hcompletes : count = s₀.agentNum ↔ st.Completes a := by
    rw [Except.ok.inj (hcount.symm.trans hget), hf.agentNum, Rounds.completes_iff u]
    exact Int.ofNat_inj
  obtain ⟨hne, rfl, -⟩ | ⟨heq, parameters', msgs, backup, rfl, hlen', -⟩ := hcases
  · have hn : ¬ st.Completes a := fun hn ↦ hne (hcompletes.2 hn)
    refine ⟨st.push a u ha hroom, parameters, bottomVersion, pullRequest, hlen, ?_⟩
    have hbuf : config.workerId.map (st.push a u ha hroom).pending
        = config.workerId.map (st.stored a u) :=
      List.map_congr_left fun b hb ↦ Rounds.pending_push_of_not_completes hn hb
    rw [buffering, buffering, hbuf]
    simp only [Rounds.count_push_of_not_completes hn]
  · have hn : st.Completes a := hcompletes.1 heq
    refine ⟨st.push a u ha hroom, parameters', bottomVersion + 1, [], hlen'.trans hlen, ?_⟩
    have hnum : s₀.agentNum.toNat = (config.workerId.map (st.stored a u)).length := by
      rw [hf.agentNum, Int.toNat_natCast, List.length_map]
    have hbuf : config.workerId.map (st.push a u ha hroom).pending
        = (config.workerId.map (st.stored a u)).map List.tail := by
      rw [List.map_map]
      exact List.map_congr_left fun b hb ↦ Rounds.pending_push_of_completes hn hb
    have hbuf' : ((config.workerId.map (st.stored a u)).take s₀.agentNum.toNat).map List.tail
        ++ (config.workerId.map (st.stored a u)).drop s₀.agentNum.toNat
        = config.workerId.map (st.push a u ha hroom).pending := by
      rw [hnum, List.take_length, List.drop_length, List.append_nil, hbuf]
    have hcounts : ((List.range config.bound.toNat).map fun j ↦
        ((config.workerId.countP fun b ↦ decide (j < (st.stored a u b).length) : ℕ) : Int)).tail
          ++ [0] = (List.range config.bound.toNat).map fun j ↦
            ((st.push a u ha hroom).count j : Int) := Rounds.map_count_shift hn hpos
    simp only [roundDone, buffering, hbuf', hcounts]

/-- A push keeps the buffers and the counters in step. -/
theorem Buffers.push (hf : Fresh config s₀) (hc : config.WorkersOk) {a : Int}
    {request : RequestMessage F} {r : Response F} (h : Buffers config s₀ s)
    (hs : s.servePush a request = .ok (s', r)) : Buffers config s₀ s' := by
  obtain ⟨st, parameters, bottomVersion, pullRequest, hlen, rfl⟩ := h
  rw [servePush] at hs
  split at hs
  · cases hs
    exact ⟨st, parameters, bottomVersion, pullRequest, hlen, rfl⟩
  · rename_i hmem
    have ha : a ∈ config.workerId := (hf.mem_agentIds a).1 (not_not.1 hmem)
    have hindex : (s₀.buffering st parameters bottomVersion pullRequest).idToIndex a
        = some (config.workerId.idxOf a : Int) := hf.idToIndex a ha
    rw [Checked.bind_eq_ok] at hs
    obtain ⟨⟨s₁, o⟩, hstore, hs⟩ := hs
    rw [Checked.bind_eq_ok] at hs
    obtain ⟨⟨s₂, sent⟩, hfinish, hs⟩ := hs
    cases hs
    obtain rfl | ⟨buffer, count, u, hbuffer, hroom, hcount, rfl⟩ := storePush_cases hindex hstore
    · exact ⟨st, parameters, bottomVersion, pullRequest, hlen,
        Buffers.finishRound_idle hf hc hfinish⟩
    · have hpending : buffer = st.pending a := Except.ok.inj (hbuffer.symm.trans
        (Checked.get_natCast (Lists.getElem?_map_idxOf ha st.pending)))
      subst hpending
      have hroom' : (st.pending a).length < config.bound.toNat := by
        rw [sizeAtLeast, decide_eq_false_iff_not,
          show (s₀.buffering st parameters bottomVersion pullRequest).consistencyBound
            = config.bound from hf.bound] at hroom
        have := hc.bound
        omega
      have hcount' : count = (st.count (st.pending a).length : Int) :=
        Except.ok.inj (hcount.symm.trans
          (Checked.get_natCast (by simp [buffering, List.getElem?_range hroom'])))
      subst hcount'
      have hcounts := Rounds.map_count_set hc.nodup ha hroom' u
      have hbuf := Lists.map_set_idxOf hc.nodup a st.pending (st.pending a ++ [u])
      simp only [Int.toNat_natCast, buffering, hcounts, hbuf] at hfinish
      exact Buffers.finishRound_stored hf hc hlen ha hroom' hfinish

/-- Whatever the keys of its requests, a server that has not faulted holds the buffers and the
counters of some histories. -/
theorem run_buffers (hf : Fresh config s₀) (hc : config.WorkersOk) {calls : List (Call F)}
    {tr : List (Call F × Response F)} (h : s₀.run calls = .ok (s, tr)) : Buffers config s₀ s := by
  refine Checked.run_keeps (P := fun t _ ↦ Buffers config s₀ t) ?_ (Buffers.fresh hf hc.ne_nil) h
  intro t tr c t' r ht hs
  cases c with
  | push a request => exact ht.push hf hc hs
  | pull a request =>
    obtain ⟨st, parameters, bottomVersion, pullRequest, hlen, rfl⟩ := ht
    obtain ⟨rfl, -⟩ | ⟨rfl, -⟩ := servePull_cases hs
    · exact ⟨st, parameters, bottomVersion, pullRequest, hlen, rfl⟩
    · exact ⟨st, parameters, bottomVersion, _, hlen, rfl⟩

/-! ## When nobody is gone -/

/-- The workers of the old configuration, and those of the first `agent_num_` in the new one who
come to them. -/
def rosterAfter (config config' : ConfigMessage) : List Int :=
  config.workerId
    ++ (config'.workerId.take config.workerId.length).filter (· ∉ config.workerId)

/-- What is pending of an old worker; a new one has nothing. -/
def pendingAfter (st : History config F) (a : Int) : List (KeyValueList F) :=
  if a ∈ config.workerId then st.pending a else []

section

variable {config' : ConfigMessage} {st : History config F} {parameters : List F}
  {bottomVersion : Int} {pullRequest : List PullInfo}

/-- A fresh server gives every worker its place. -/
theorem Fresh.idToIndex_eq (hf : Fresh config s₀) :
    s₀.idToIndex = Lists.placesOf config.workerId := by
  funext a
  rw [Lists.placesOf]
  split
  · rename_i ha
    exact hf.idToIndex a ha
  · rename_i ha
    exact hf.idToIndex_none a ha

theorem bufferOf_buffering (hf : Fresh config s₀) {a : Int} (ha : a ∈ config.workerId) :
    (s₀.buffering st parameters bottomVersion pullRequest).bufferOf a = .ok (st.pending a) := by
  have h :
      (s₀.buffering st parameters bottomVersion pullRequest).queueing config.workerId st.pending
      = s₀.buffering st parameters bottomVersion pullRequest :=
    queueing_eq_self hf.idToIndex_eq rfl
  rw [← h, bufferOf_queueing ha]

/-- `RespondToAll` reads only parameters that exist exactly if it is asked for no other. -/
theorem exists_respondToAll_iff (hlen : s.parameters.length = s.parameterLength.toNat) :
    (∃ r, s.respondToAll = .ok r) ↔ ∀ p ∈ s.pullRequest, s.Owns p.keys := by
  have hreply : ∀ p : PullInfo, (∃ e, (do
      let values ← s.blockedValues p.keys
      Except.ok (s.reply p.id p.keys values)) = Except.ok e) ↔ s.Owns p.keys := by
    intro p
    constructor
    · rintro ⟨e, he⟩
      rw [Checked.bind_eq_ok] at he
      obtain ⟨values, hvalues, -⟩ := he
      intro key hkey
      obtain ⟨x, hx⟩ := Checked.exists_mapM_ok_iff.1 ⟨values, hvalues⟩ key hkey
      obtain ⟨h0, hget⟩ := Checked.get_eq_ok_iff.1 hx
      obtain ⟨hlt, -⟩ := List.getElem?_eq_some_iff.1 hget
      omega
    · intro hk
      exact ⟨_, by rw [blockedValues_eq hlen hk, Checked.ok_bind]⟩
  rw [← forall₂_congr fun p _ ↦ hreply p, ← Checked.exists_mapM_ok_iff]
  constructor
  · rintro ⟨r, hr⟩
    rw [respondToAll, Checked.bind_eq_ok] at hr
    obtain ⟨msgs, hmsgs, -⟩ := hr
    exact ⟨msgs, hmsgs⟩
  · rintro ⟨msgs, hmsgs⟩
    exact ⟨({ s with pullRequest := [] }, msgs), by rw [respondToAll, hmsgs, Checked.ok_bind]⟩

/-- **When no worker is gone** and the range stays, `Reconfigure` gives the first of the new
workers a queue each and leaves the rest of the version state as it is. -/
theorem reconfigure_queueing (hf : Fresh config s₀)
    (hlen : parameters.length = s₀.parameters.length) (hr : config'.RangesOk) {i : ℕ}
    (hi : i < config'.serverId.length) (hfits : config'.RangeFits i)
    (hlocal : s₀.localId = config'.serverId[i])
    (hlength : config'.lengthOf i = s₀.parameterLength) (hnd : config'.workerId.Nodup)
    (hnum : config.workerId.length ≤ config'.workerId.length)
    (hold : ∀ a ∈ config.workerId, a ∈ config'.workerId)
    (hkeys : ∀ p ∈ pullRequest, s₀.Owns p.keys) :
    ∃ (t : Server F) (sent : List (Sent F)),
      (s₀.buffering st parameters bottomVersion pullRequest).reconfigure config'
        = .ok (t.queueing (rosterAfter config config') (pendingAfter st), sent) ∧
      t.finishCount = (List.range config.bound.toNat).map (fun j ↦ (st.count j : Int)) ∧
      t.agentNum = config'.workerNum := by
  have hparams : parameters.length = s₀.parameterLength.toNat := by
    rw [hlen, hf.parameters, List.length_replicate]
  obtain ⟨⟨s₁, sent⟩, hrespond⟩ := (exists_respondToAll_iff
    (s := s₀.buffering st parameters bottomVersion pullRequest) hparams).2 hkeys
  obtain ⟨rfl, -⟩ := respondToAll_cases hrespond
  obtain ⟨l, -, hlength', -, heq⟩ := reconfigure_eq
    (s := s₀.buffering st parameters bottomVersion pullRequest) hr hi hfits hlocal
  let s₁ : Server F := ({ s₀.buffering st parameters bottomVersion pullRequest with
    pullRequest := [] }.relocate config' l).readdress config'
  let s₂ : Server F := { s₁ with
    agentIds := config'.workerId.foldl (fun ids id ↦ ids.insert id) [] }
  have hdrop : s₁.agentIds.foldlM (dropAgent config') s₁ = .ok s₁ := by
    refine Checked.foldlM_eq_self fun a ha ↦ ?_
    rw [dropAgent, if_pos (hold a ((hf.mem_agentIds a).1 ha))]
  have hqueues : s₂.queueing config.workerId (pendingAfter st) = s₂ :=
    queueing_eq_self hf.idToIndex_eq (List.map_congr_left fun a ha ↦ (if_pos ha).symm)
  have hrefresh : s₁.refreshAgents config'
      = .ok (s₂.queueing (rosterAfter config config') (pendingAfter st)) := by
    have hagents : s₁.agentNum.toNat = config.workerId.length := by
      show s₀.agentNum.toNat = _
      rw [hf.agentNum, Int.toNat_natCast]
    rw [refreshAgents, hdrop, Checked.ok_bind]
    show (List.range s₁.agentNum.toNat).foldlM (addAgent config') s₂ = _
    rw [hagents, ← hqueues]
    exact addAgents_ok hnd (fun a _ ha ↦ if_neg ha) hnum
  have hextend : (s₂.queueing (rosterAfter config config') (pendingAfter st)).extendParameter
      = .ok (s₂.queueing (rosterAfter config config') (pendingAfter st)) := by
    refine extendParameter_eq_self ?_
    show (parameters.length : Int) = l.parameterLength
    rw [hlength', hlength, hparams, Int.toNat_of_nonneg (hlength ▸ Layout.lengthOf_nonneg hr hi)]
  refine ⟨{ s₂ with agentNum := config'.workerNum }, sent, ?_, rfl, rfl⟩
  rw [heq, hrespond, Checked.ok_bind, hrefresh, Checked.ok_bind, hextend, Checked.ok_bind]
  rfl

/-- If besides everyone beyond the first `agent_num_` is an old worker, nobody is missing. -/
theorem rosterAfter_perm (hc : config.WorkersOk) (hnd : config'.workerId.Nodup)
    (hold : ∀ a ∈ config.workerId, a ∈ config'.workerId)
    (hrest : ∀ a ∈ config'.workerId.drop config.workerId.length, a ∈ config.workerId) :
    (rosterAfter config config').Perm config'.workerId := by
  have hnodup : (rosterAfter config config').Nodup := by
    rw [rosterAfter, List.nodup_append]
    refine ⟨hc.nodup, (hnd.sublist (List.take_sublist ..)).filter _, fun a ha b hb hab ↦ ?_⟩
    subst hab
    simpa [ha] using (List.mem_filter.1 hb).2
  refine (List.perm_ext_iff_of_nodup hnodup hnd).2 fun a ↦ ?_
  rw [rosterAfter, List.mem_append, List.mem_filter, decide_eq_true_iff]
  constructor
  · rintro (ha | ⟨ha, -⟩)
    · exact hold a ha
    · exact List.mem_of_mem_take ha
  · intro ha
    by_cases hmem : a ∈ config.workerId
    · exact .inl hmem
    · rw [← List.take_append_drop config.workerId.length config'.workerId, List.mem_append] at ha
      rcases ha with ha | ha
      · exact .inr ⟨ha, hmem⟩
      · exact absurd (hrest a ha) hmem

omit [FloatOps F] in
/-- Nobody new is counted. -/
theorem countP_rosterAfter (hperm : (rosterAfter config config').Perm config'.workerId) (j : ℕ) :
    (config'.workerId.countP fun a ↦ decide (j < (pendingAfter st a).length)) = st.count j := by
  have hnew : (((config'.workerId.take config.workerId.length).filter (· ∉ config.workerId)).countP
      fun a ↦ decide (j < (pendingAfter st a).length)) = 0 := by
    rw [List.countP_eq_zero]
    intro a ha
    rw [pendingAfter, if_neg (by simpa using (List.mem_filter.1 ha).2)]
    simp
  rw [← hperm.countP_eq, rosterAfter, List.countP_append, hnew, Nat.add_zero, Rounds.count]
  refine List.countP_congr fun a ha ↦ ?_
  rw [pendingAfter, if_pos ha]

/-- With a queue for each of the new workers, and the old counters, the version state is right. -/
theorem reworked_queueing (hf : Fresh config s₀) (hc : config.WorkersOk)
    (hw : config'.workerNum = config'.workerId.length)
    (hperm : (rosterAfter config config').Perm config'.workerId) {t : Server F}
    (hcounts : t.finishCount = (List.range config.bound.toNat).map fun j ↦ (st.count j : Int))
    (hagents : t.agentNum = config'.workerNum) :
    Reworked (s₀.buffering st parameters bottomVersion pullRequest) config'.workerId
      (t.queueing (rosterAfter config config') (pendingAfter st)) := by
  have hpos : 0 < config.bound.toNat := by have := hc.bound; omega
  have hle : config.workerId.length ≤ config'.workerId.length := by
    rw [← hperm.length_eq, rosterAfter, List.length_append]
    exact Nat.le_add_right ..
  refine ⟨versionsOf_queueing hperm (hagents.trans hw) (fun j count hj ↦ ?_) ?_,
    fun a ha hold ↦ ?_, fun a ha hnew ↦ ?_⟩
  · rw [hcounts, List.getElem?_map, Option.map_eq_some_iff] at hj
    obtain ⟨j', hrange, rfl⟩ := hj
    obtain ⟨hlt, rfl⟩ := List.getElem?_eq_some_iff.1 hrange
    rw [countP_rosterAfter hperm, List.getElem_range]
  · refine ⟨st.count 0, ?_, ?_⟩
    · rw [hcounts, List.getElem?_map, List.getElem?_range hpos, Option.map_some]
    · rw [hagents, hw]
      exact Int.ofNat_lt.2 (lt_of_lt_of_le st.count_zero_lt hle)
  · have hmem : a ∈ config.workerId := (hf.mem_agentIds a).1 hold
    rw [bufferOf_queueing (hperm.mem_iff.2 ha), bufferOf_buffering hf hmem, pendingAfter,
      if_pos hmem]
  · have hmem : a ∉ config.workerId := fun h ↦ hnew ((hf.mem_agentIds a).2 h)
    rw [bufferOf_queueing (hperm.mem_iff.2 ha), pendingAfter, if_neg hmem]

end

/-! ## Main result -/

/-- **When the version state survives a reconfiguration of the workers.**  From any state that
pushes and pulls lead to, and for any configuration with distinct workers that leaves the server
the length of its range: `Reconfigure` ends, and with the version state of the new workers, exactly
if it can compute that length, no worker is taken out, everyone beyond the first `agent_num_` of the
new configuration (by the old number) is an old worker, and the blocked pulls ask for keys of the
server. -/
theorem reconfigure_reworked_iff {masterIpPort : String} {localId : Int} {calls : List (Call F)}
    {tr : List (Call F × Response F)} {config' : ConfigMessage}
    (h₀ : initializeServer masterIpPort localId config = .ok s₀) (hc : config.WorkersOk)
    (hrun : s₀.run calls = .ok (s, tr)) (hw : config'.workerNum = config'.workerId.length)
    (hnd : config'.workerId.Nodup) (hr : config'.RangesOk) {i : ℕ}
    (hi : i < config'.serverId.length) (hlocal : s.localId = config'.serverId[i])
    (hlength : config'.lengthOf i = s.parameterLength) :
    (∃ s' sent, s.reconfigure config' = .ok (s', sent) ∧ Reworked s config'.workerId s') ↔
      config'.RangeFits i ∧
      (∀ a ∈ s.agentIds, a ∈ config'.workerId) ∧
      (∀ a ∈ config'.workerId.drop s.agentNum.toNat, a ∈ s.agentIds) ∧
      ∀ p ∈ s.pullRequest, s.Owns p.keys := by
  have hf := initializeServer_fresh hc h₀
  obtain ⟨st, parameters, bottomVersion, pullRequest, hlen, rfl⟩ := run_buffers hf hc hrun
  have hparams : parameters.length = s₀.parameterLength.toNat := by
    rw [hlen, hf.parameters, List.length_replicate]
  have hagents : s₀.agentNum.toNat = config.workerId.length := by
    rw [hf.agentNum, Int.toNat_natCast]
  have hkeys := exists_respondToAll_iff
    (s := s₀.buffering st parameters bottomVersion pullRequest) hparams
  constructor
  · rintro ⟨s', sent, hs', hre⟩
    obtain ⟨hrespond, l, t, hrefresh, hindex, hnum⟩ := reconfigure_refreshAgents hr hi hlocal hs'
    obtain ⟨hold, hrest⟩ : (∀ a ∈ config.workerId, a ∈ config'.workerId) ∧
        ∀ a ∈ config'.workerId.drop config.workerId.length, a ∈ config.workerId := by
      refine workers_of_refreshAgents ?_ ?_ ?_ hnd hrefresh hindex (hnum.trans hw) hre.versions
      · exact hf.idToIndex_eq
      · exact List.length_map ..
      · exact hf.agentNum
    refine ⟨rangeFits_of_reconfigure hr hi hlocal hs',
      fun a ha ↦ hold a ((hf.mem_agentIds a).1 ha), fun a ha ↦ ?_, hkeys.1 hrespond⟩
    exact (hf.mem_agentIds a).2 (hrest a (hagents ▸ ha))
  · rintro ⟨hfits, hold, hrest, howns⟩
    have hold' : ∀ a ∈ config.workerId, a ∈ config'.workerId := fun a ha ↦
      hold a ((hf.mem_agentIds a).2 ha)
    have hrest' : ∀ a ∈ config'.workerId.drop config.workerId.length, a ∈ config.workerId :=
      fun a ha ↦ (hf.mem_agentIds a).1 (hrest a (hagents.symm ▸ ha))
    have hperm := rosterAfter_perm hc hnd hold' hrest'
    have hnum : config.workerId.length ≤ config'.workerId.length :=
      (List.subperm_of_subset hc.nodup hold').length_le
    obtain ⟨t, sent, ht, hcounts, hnum'⟩ := reconfigure_queueing hf hlen hr hi hfits hlocal hlength
      hnd hnum hold' howns
    exact ⟨_, sent, ht, reworked_queueing hf hc hw hperm hcounts hnum'⟩

/-- A worker that comes in front of the old ones is given a queue. -/
theorem reconfigure_reworked_joined : ∃ (s₀ s : Server Int) (tr : List (Call Int × Response Int)),
    initializeServer "10.0.0.1:80" 1 smallConfig = .ok s₀ ∧
    s₀.run [.push 3 ⟨.keyValue, [0, 2], [10, 30]⟩] = .ok (s, tr) ∧
    ∃ s' sent, s.reconfigure { smallConfig with workerNum := 3, workerId := [5, 3, 4] }
      = .ok (s', sent) ∧ Reworked s [5, 3, 4] s' := by
  obtain ⟨s₀, s, tr, h₀, hrun, hlocal, hlength, hagents, hnum, hpulls⟩ :
      ∃ (s₀ s : Server Int) (tr : List (Call Int × Response Int)),
        initializeServer "10.0.0.1:80" 1 smallConfig = .ok s₀ ∧
        s₀.run [.push 3 ⟨.keyValue, [0, 2], [10, 30]⟩] = .ok (s, tr) ∧ s.localId = 1 ∧
        s.parameterLength = 4 ∧ s.agentIds = [4, 3] ∧ s.agentNum = 2 ∧ s.pullRequest = [] :=
    ⟨_, _, _, rfl, rfl, rfl, rfl, rfl, rfl, rfl⟩
  refine ⟨s₀, s, tr, h₀, hrun, (reconfigure_reworked_iff h₀ smallConfig_workersOk hrun
    (by decide) (by decide) ⟨by decide, by decide, by decide, by decide⟩ (i := 0) (by decide) hlocal
    (by rw [hlength]; decide)).2 ⟨by decide, ?_, ?_, ?_⟩⟩
  · simp [hagents]
  · simp [hagents, hnum]
  · simp [hpulls]

/-- The configuration without the second worker. -/
def oneWorker : ConfigMessage := { smallConfig with workerNum := 1, workerId := [3] }

/-- When one of two workers is taken out, the loop that adds workers reads a second one that is not
there. -/
theorem removed_worker_still_read : ∃ s₀ : Server Int,
    initializeServer "10.0.0.1:80" 1 smallConfig = .ok s₀ ∧ oneWorker.WorkersOk ∧
    oneWorker.RangesOk ∧ oneWorker.serverId[0]? = some s₀.localId ∧
    oneWorker.startOf 0 = s₀.startKey ∧ oneWorker.lengthOf 0 = s₀.parameterLength ∧
    s₀.reconfigure oneWorker = .error .outOfRange ∧
    ¬ ∃ s' sent, s₀.reconfigure oneWorker = .ok (s', sent) ∧ Reworked s₀ oneWorker.workerId s' := by
  obtain ⟨s₀, h₀, hlocal, hstart, hlength, herror⟩ : ∃ s₀ : Server Int,
      initializeServer "10.0.0.1:80" 1 smallConfig = .ok s₀ ∧
        oneWorker.serverId[0]? = some s₀.localId ∧ oneWorker.startOf 0 = s₀.startKey ∧
        oneWorker.lengthOf 0 = s₀.parameterLength ∧
        s₀.reconfigure oneWorker = .error .outOfRange := ⟨_, rfl, rfl, rfl, rfl, rfl⟩
  refine ⟨s₀, h₀, ⟨by decide, by decide, by decide, by decide⟩,
    ⟨by decide, by decide, by decide, by decide⟩, hlocal, hstart, hlength, herror, ?_⟩
  rintro ⟨s', sent, hs', -⟩
  rw [herror] at hs'
  simp at hs'

/-- When it is replaced by another, that one gets a third queue, which is not among the two that
`UpdateParameter` visits. -/
example : ∃ (s₀ s' : Server Int) (sent : List (Sent Int)),
    initializeServer "10.0.0.1:80" 1 smallConfig = .ok s₀ ∧
    s₀.reconfigure { smallConfig with workerId := [3, 5] } = .ok (s', sent) ∧
    s'.idToIndex 5 = some 2 ∧ s'.agentNum = 2 :=
  ⟨_, _, _, rfl, rfl, rfl, rfl⟩

end Server

end Rpscc
