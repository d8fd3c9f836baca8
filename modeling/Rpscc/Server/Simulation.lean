import Rpscc.Lib.Lists
import Rpscc.Lib.Rounds
import Rpscc.Server.Merge

/-!
# The server implements the rounds of a bounded-staleness barrier

The server keeps three redundant records of the same thing: per-agent queues, a deque of counters
that is shifted when a round is merged, and the version number.  All three, and the parameters
themselves, are functions of what every agent has pushed so far.  `Server.ofRounds s₀ st q` is the
server that started as `s₀`, with the histories `st` and the blocked pulls `q`, and the results
here say that it is closed under the two handlers:

* `servePush_unknown`, `servePush_overfilled`: a rejected push changes nothing;
* `servePush_stored`: a push that completes no round takes `st` to `st.push`;
* `servePush_completes`: a push that completes one takes `st` to `st.push` and empties `q`, with
  one reply for each blocked pull;
* `servePull_unknown`, `servePull_blocked`, `servePull_answered`.

`Server.Valid` collects what the handlers need to know about `st` and `q`: the keys are in range,
and a blocked pull belongs to an agent that is a full bound ahead.

`Server.Step` puts the seven cases into one relation, which is the server as a specification: a
machine whose state is a history and a queue of blocked pulls.  `Server.serve_step` says that
serving a request whose keys are in range is a step of it, and `Server.Step.valid` that a step
keeps `Valid`.  Everything about runs is proved from these two.
-/

set_option autoImplicit false

namespace Rpscc

/-- The histories of a server's agents. -/
abbrev History (config : ConfigMessage) (F : Type) :=
  Rounds config.workerId config.bound.toNat (KeyValueList F)

namespace Server

variable {F : Type} [FloatOps F] {config : ConfigMessage}

/-- The server that started as `s₀`, with the given histories and blocked pulls. -/
def ofRounds (s₀ : Server F) (st : History config F) (q : List PullInfo) : Server F :=
  { s₀ with
    parameters := st.total s₀.mergeRound s₀.parameters
    bottomVersion := st.bottom
    versionBuffer := config.workerId.map st.pending
    finishCount := (List.range config.bound.toNat).map fun j ↦ (st.count j : Int)
    pullRequest := q }

/-- What the handlers rely on: pushed keys are in range, and so are those of a blocked pull, whose
agent is a full bound ahead. -/
structure Valid (s₀ : Server F) (st : History config F) (q : List PullInfo) : Prop where
  owns : ∀ a ∈ config.workerId, ∀ u ∈ st.hist a, s₀.Owns (u.map Prod.fst)
  known : ∀ r ∈ q, r.id ∈ config.workerId
  full : ∀ r ∈ q, (st.pending r.id).length = config.bound.toNat
  keys : ∀ r ∈ q, s₀.Owns r.keys

variable {s₀ : Server F}

/-- A fresh server has empty histories and no blocked pull. -/
theorem ofRounds_empty (hf : Fresh config s₀) (hne : config.workerId ≠ []) :
    s₀.ofRounds (Rounds.empty hne) [] = s₀ := by
  have hbuf : config.workerId.map (Rounds.empty hne : History config F).pending
      = s₀.versionBuffer := by
    rw [hf.versionBuffer]
    exact List.eq_replicate_iff.2 ⟨by simp, by simp [Rounds.pending, Rounds.empty]⟩
  have hcount : (List.range config.bound.toNat).map (fun j ↦
      ((Rounds.empty hne : History config F).count j : Int)) = s₀.finishCount := by
    rw [hf.finishCount]
    exact List.eq_replicate_iff.2 ⟨by simp, by simp [Rounds.count, Rounds.pending, Rounds.empty]⟩
  have hbottom : ((Rounds.empty hne : History config F).bottom : Int) = s₀.bottomVersion := by
    rw [hf.bottomVersion]
    rfl
  rw [ofRounds, hbuf, hcount, hbottom, ← hf.pullRequest]
  rfl

theorem length_parameters (hf : Fresh config s₀) (st : History config F) (q : List PullInfo) :
    (s₀.ofRounds st q).parameters.length = (s₀.ofRounds st q).parameterLength.toNat := by
  show (Rounds.fold config.workerId st.hist s₀.mergeRound s₀.parameters st.bottom).length
    = s₀.parameterLength.toNat
  induction st.bottom with
  | zero => rw [Rounds.fold, hf.parameters, List.length_replicate]
  | succ n ih => exact length_mergeRound s₀ _ ih

/-! ## Pushes -/

variable (hf : Fresh config s₀) (hc : config.WorkersOk)

include hf

theorem servePush_unknown {st : History config F} {q : List PullInfo} {a : Int}
    (ha : a ∉ config.workerId) (request : RequestMessage F) :
    (s₀.ofRounds st q).servePush a request = .ok (s₀.ofRounds st q, ⟨.unknown, []⟩) := by
  rw [servePush, if_pos]
  exact fun h ↦ ha ((hf.mem_agentIds a).1 h)

theorem servePush_of_store {st : History config F} {q : List PullInfo} {a : Int}
    (ha : a ∈ config.workerId) {request : RequestMessage F} {s s' : Server F} {o : Outcome}
    {sent : List (Sent F)} (hstore : (s₀.ofRounds st q).storePush a request = .ok (s, o))
    (hround : s.finishRound = .ok (s', sent)) :
    (s₀.ofRounds st q).servePush a request = .ok (s', ⟨o, sent⟩) := by
  have hmem : ¬ a ∉ (s₀.ofRounds st q).agentIds := not_not_intro ((hf.mem_agentIds a).2 ha)
  rw [servePush, if_neg hmem, hstore, Checked.ok_bind, hround, Checked.ok_bind]

theorem get_versionBuffer (st : History config F) (q : List PullInfo) {a : Int}
    (ha : a ∈ config.workerId) :
    (s₀.ofRounds st q).indexOf a = (s₀.ofRounds st q, (config.workerId.idxOf a : Int)) ∧
      Checked.get (s₀.ofRounds st q).versionBuffer (config.workerId.idxOf a)
        = .ok (st.pending a) := by
  refine ⟨?_, Checked.get_natCast (Lists.getElem?_map_idxOf ha st.pending)⟩
  rw [indexOf, show (s₀.ofRounds st q).idToIndex a = some (config.workerId.idxOf a : Int) from
    hf.idToIndex a ha]

theorem bufferOf_ofRounds {st : History config F} {q : List PullInfo} {a : Int}
    (ha : a ∈ config.workerId) : (s₀.ofRounds st q).bufferOf a = .ok (st.pending a) := by
  obtain ⟨hidx, hget⟩ := get_versionBuffer hf st q ha
  rw [bufferOf, hidx, hget]

include hc

theorem sizeAtLeast_bound (n : ℕ) (st : History config F) (q : List PullInfo) :
    sizeAtLeast n (s₀.ofRounds st q).consistencyBound = decide (config.bound.toNat ≤ n) := by
  have hbound : (s₀.ofRounds st q).consistencyBound = config.bound := hf.bound
  have hpos := hc.bound
  rw [sizeAtLeast, hbound, decide_eq_decide]
  omega

/-- The round check finds nothing to do: no complete round is ever left over. -/
theorem finishRound_idle (st : History config F) (q : List PullInfo) :
    (s₀.ofRounds st q).finishRound = .ok (s₀.ofRounds st q, []) := by
  have hpos := hc.bound
  have hget : Checked.get (s₀.ofRounds st q).finishCount 0 = .ok (st.count 0 : Int) :=
    Checked.get_natCast (n := 0)
      (by simp [ofRounds, List.getElem?_range (show 0 < config.bound.toNat by omega)])
  rw [finishRound, hget, Checked.ok_bind, if_neg]
  rw [show (s₀.ofRounds st q).agentNum = config.workerId.length from hf.agentNum]
  have hlt := st.count_zero_lt
  omega

theorem servePush_overfilled {st : History config F} {q : List PullInfo} {a : Int}
    (ha : a ∈ config.workerId) (hfull : config.bound.toNat ≤ (st.pending a).length)
    (request : RequestMessage F) :
    (s₀.ofRounds st q).servePush a request = .ok (s₀.ofRounds st q, ⟨.overfilled, []⟩) := by
  obtain ⟨hidx, hget⟩ := get_versionBuffer hf st q ha
  have hstore : (s₀.ofRounds st q).storePush a request = .ok (s₀.ofRounds st q, .overfilled) := by
    rw [storePush, hidx]
    simp only [hget, Checked.ok_bind, sizeAtLeast_bound hf hc, decide_eq_true hfull, if_true]
  exact servePush_of_store hf ha hstore (finishRound_idle hf hc st q)

omit hf hc in
/-- The server once the update `u` of agent `a` is in its version buffer, before the round
check. -/
def ofStored (s₀ : Server F) (st : History config F) (q : List PullInfo) (a : Int)
    (u : KeyValueList F) : Server F :=
  { s₀.ofRounds st q with
    versionBuffer := config.workerId.map (st.stored a u)
    finishCount := (List.range config.bound.toNat).map fun j ↦
      ((config.workerId.countP fun b ↦ decide (j < (st.stored a u b).length) : ℕ) : Int) }

theorem storePush_stored {st : History config F} {q : List PullInfo} {a : Int}
    (ha : a ∈ config.workerId) (hroom : (st.pending a).length < config.bound.toNat)
    {request : RequestMessage F} (hlen : request.keys.length ≤ request.values.length) :
    (s₀.ofRounds st q).storePush a request
      = .ok (s₀.ofStored st q a (request.keys.zip request.values), .stored) := by
  obtain ⟨hidx, hget⟩ := get_versionBuffer hf st q ha
  have hcount : Checked.get (s₀.ofRounds st q).finishCount (st.pending a).length
      = .ok (st.count (st.pending a).length : Int) :=
    Checked.get_natCast (by simp [ofRounds, List.getElem?_range hroom])
  have hset : (s₀.ofRounds st q).finishCount.set (st.pending a).length
      ((st.count (st.pending a).length : Int) + 1)
      = (s₀.ofStored st q a (request.keys.zip request.values)).finishCount :=
    Rounds.map_count_set hc.nodup ha hroom _
  rw [storePush, hidx]
  simp only [hget, Checked.ok_bind, sizeAtLeast_bound hf hc, decide_eq_false (not_le.2 hroom),
    hcount, Checked.zip_eq hlen, hset, Int.toNat_natCast]
  rw [if_neg (by simp), show (s₀.ofRounds st q).versionBuffer.set (config.workerId.idxOf a)
    (st.pending a ++ [request.keys.zip request.values]) = config.workerId.map (st.stored a _) from
    Lists.map_set_idxOf hc.nodup a st.pending _]
  rfl

omit hf hc in
/-- A push that completes no round leaves the server with the longer histories. -/
theorem ofStored_of_not_completes {st : History config F} {q : List PullInfo} {a : Int}
    {u : KeyValueList F} {ha : a ∈ config.workerId}
    {hroom : (st.pending a).length < config.bound.toNat} (hn : ¬ st.Completes a) :
    s₀.ofStored st q a u = s₀.ofRounds (st.push a u ha hroom) q := by
  have hbuf : config.workerId.map (st.push a u ha hroom).pending
      = config.workerId.map (st.stored a u) :=
    List.map_congr_left fun b hb ↦ Rounds.pending_push_of_not_completes hn hb
  have hbottom : (st.push a u ha hroom).bottom = st.bottom := by
    rw [Rounds.push_bottom, if_neg hn]
  rw [ofStored, ofRounds, ofRounds, Rounds.total_push_of_not_completes hn, hbuf, hbottom]
  simp only [Rounds.count_push_of_not_completes hn]

/-- The round check after a push, by the counters and by the histories. -/
theorem finishCount_eq_iff (st : History config F) (q : List PullInfo) (a : Int)
    (u : KeyValueList F) :
    ∃ n : Int, Checked.get (s₀.ofStored st q a u).finishCount 0 = .ok n ∧
      (n = (s₀.ofStored st q a u).agentNum ↔ st.Completes a) := by
  have hpos : 0 < config.bound.toNat := by have := hc.bound; omega
  refine ⟨_, Checked.get_natCast (n := 0) (by simp [ofStored, List.getElem?_range hpos]; rfl), ?_⟩
  rw [show (s₀.ofStored st q a u).agentNum = (config.workerId.length : Int) from hf.agentNum,
    Rounds.completes_iff u]
  exact Int.ofNat_inj

theorem finishRound_not_completes {st : History config F} {q : List PullInfo} {a : Int}
    (u : KeyValueList F) (hn : ¬ st.Completes a) :
    (s₀.ofStored st q a u).finishRound = .ok (s₀.ofStored st q a u, []) := by
  obtain ⟨n, hget, hiff⟩ := finishCount_eq_iff hf hc st q a u
  rw [finishRound, hget, Checked.ok_bind, if_neg fun h ↦ hn (hiff.1 h)]

/-- **A push that completes no round** only makes the history of its agent longer. -/
theorem servePush_stored {st : History config F} {q : List PullInfo} {a : Int}
    {ha : a ∈ config.workerId} {hroom : (st.pending a).length < config.bound.toNat}
    (hn : ¬ st.Completes a) {request : RequestMessage F}
    (hlen : request.keys.length ≤ request.values.length) :
    (s₀.ofRounds st q).servePush a request
      = .ok (s₀.ofRounds (st.push a (request.keys.zip request.values) ha hroom) q,
          ⟨.stored, []⟩) := by
  rw [← ofStored_of_not_completes hn]
  exact servePush_of_store hf ha (storePush_stored hf hc ha hroom hlen)
    (finishRound_not_completes hf hc _ hn)

omit hf hc in
/-- The replies to the blocked pulls `q`. -/
def blockedReplies (s : Server F) (q : List PullInfo) : List (Sent F) :=
  q.map fun r ↦ s.reply r.id r.keys (s.valuesAt r.keys)

omit hc in
theorem respondToAll_eq (st : History config F) {q : List PullInfo}
    (hq : ∀ r ∈ q, s₀.Owns r.keys) :
    (s₀.ofRounds st q).respondToAll
      = .ok (s₀.ofRounds st [], (s₀.ofRounds st []).blockedReplies q) := by
  have hmap : (q.mapM fun request ↦ do
      let values ← (s₀.ofRounds st q).blockedValues request.keys
      Except.ok ((s₀.ofRounds st q).reply request.id request.keys values))
      = Except.ok ((s₀.ofRounds st []).blockedReplies q) := by
    refine Checked.mapM_ok fun r hr ↦ ?_
    rw [blockedValues_eq (length_parameters hf st q) (hq r hr), Checked.ok_bind]
    rfl
  rw [respondToAll]
  exact congrArg (· >>= _) hmap

omit hf hc in
/-- The message `RequestBackup` sends to the server `j + 1` places before this one. -/
def backupRequest (s : Server F) (j : ℕ) : Sent F :=
  let id := (s.serverIds[((s.localIndex - (j + 1) + s.serverNum) % s.serverNum).toNat]?).getD 0
  ⟨id, { sendId := s.localId, recvId := id, messageType := .request }⟩

omit hc in
theorem requestBackup_eq :
    s₀.requestBackup = .ok ((List.range s₀.backupSize.toNat).map s₀.backupRequest) := by
  rw [requestBackup]
  refine Checked.mapM_ok fun j hj ↦ ?_
  have hj' := List.mem_range.1 hj
  have hb := hf.backupSize
  have hl := hf.localIndex
  have hids := hf.serverIds
  have hnonneg : 0 ≤ s₀.localIndex - (j + 1) + s₀.serverNum := by omega
  have hlt : ((s₀.localIndex - (j + 1) + s₀.serverNum) % s₀.serverNum).toNat
      < s₀.serverIds.length := by
    have h1 := Int.emod_nonneg (s₀.localIndex - (j + 1) + s₀.serverNum)
      (show s₀.serverNum ≠ 0 by omega)
    have h2 := Int.emod_lt_of_pos (s₀.localIndex - (j + 1) + s₀.serverNum)
      (show 0 < s₀.serverNum by omega)
    omega
  have hget : Checked.get s₀.serverIds ((s₀.localIndex - (j + 1) + s₀.serverNum) % s₀.serverNum)
      = .ok ((s₀.serverIds[((s₀.localIndex - (j + 1) + s₀.serverNum) % s₀.serverNum).toNat]?).getD
          0) := by
    rw [Checked.get_eq_ok_iff, List.getElem?_eq_getElem hlt]
    exact ⟨Int.emod_nonneg _ (by omega), rfl⟩
  rw [Checked.tmod_of_nonneg hnonneg (by omega), Checked.ok_bind, hget, Checked.ok_bind]
  rfl

omit [FloatOps F] hf hc in
theorem owns_stored {st : History config F} {q : List PullInfo} (hv : s₀.Valid st q) {a b : Int}
    {u v : KeyValueList F} (hu : s₀.Owns (u.map Prod.fst)) (hb : b ∈ config.workerId)
    (h : v ∈ st.stored a u b) : s₀.Owns (v.map Prod.fst) := by
  by_cases hba : b = a
  · subst hba
    rw [Rounds.stored, Function.update_self, List.mem_append, List.mem_singleton] at h
    rcases h with h | rfl
    · exact hv.owns b hb v (List.mem_of_mem_drop h)
    · exact hu
  · rw [Rounds.stored, Function.update_of_ne hba] at h
    exact hv.owns b hb v (List.mem_of_mem_drop h)

/-- Shifting the counters and merging the fronts of the queues is consuming one round. -/
theorem updateParameter_completes {st : History config F} {q : List PullInfo}
    (hv : s₀.Valid st q) {a : Int} {ha : a ∈ config.workerId}
    {hroom : (st.pending a).length < config.bound.toNat} (hn : st.Completes a)
    {u : KeyValueList F} (hu : s₀.Owns (u.map Prod.fst)) :
    updateParameter { s₀.ofStored st q a u with
        finishCount := (s₀.ofStored st q a u).finishCount.tail ++ [0] }
      = .ok (s₀.ofRounds (st.push a u ha hroom) q) := by
  have hpos : 0 < config.bound.toNat := by have := hc.bound; omega
  have hbuf : config.workerId.map (st.push a u ha hroom).pending
      = config.workerId.map fun b ↦ (st.stored a u b).tail :=
    List.map_congr_left fun b hb ↦ Rounds.pending_push_of_completes hn hb
  have hbottom : ((st.push a u ha hroom).bottom : Int) = st.bottom + 1 := by
    rw [Rounds.push_bottom, if_pos hn]
    rfl
  have hcount : (s₀.ofStored st q a u).finishCount.tail ++ [0]
      = (List.range config.bound.toNat).map fun j ↦ ((st.push a u ha hroom).count j : Int) :=
    Rounds.map_count_shift hn hpos
  have hup := updateParameter_eq config.workerId (st.stored a u) (s := { s₀.ofStored st q a u with
    finishCount := (s₀.ofStored st q a u).finishCount.tail ++ [0] }) rfl hf.agentNum
      (length_parameters hf st q)
    (fun b hb ↦ Rounds.stored_ne_nil hn hb) (fun b hb v hv' ↦ owns_stored hv hu hb hv')
  refine hup.trans (congrArg Except.ok ?_)
  rw [ofRounds, hbuf, hbottom, Rounds.total_push_of_completes hn, ← hcount]
  rfl

omit [FloatOps F] hf hc in
theorem owns_zip {keys : List Int} (values : List F) (h : s₀.Owns keys) :
    s₀.Owns ((keys.zip values).map Prod.fst) := by
  intro k hk
  obtain ⟨p, hp, rfl⟩ := List.mem_map.1 hk
  exact h p.1 (List.of_mem_zip hp).1

/-- **A push that completes a round** merges it, answers every blocked pull from the new
parameters, and asks for the backups. -/
theorem servePush_completes {st : History config F} {q : List PullInfo} (hv : s₀.Valid st q)
    {a : Int} {ha : a ∈ config.workerId} {hroom : (st.pending a).length < config.bound.toNat}
    (hn : st.Completes a) {request : RequestMessage F}
    (hlen : request.keys.length ≤ request.values.length) (hk : s₀.Owns request.keys) :
    (s₀.ofRounds st q).servePush a request
      = .ok (s₀.ofRounds (st.push a (request.keys.zip request.values) ha hroom) [],
          ⟨.stored, (s₀.ofRounds (st.push a (request.keys.zip request.values) ha hroom)
              []).blockedReplies q ++ (List.range s₀.backupSize.toNat).map s₀.backupRequest⟩) := by
  refine servePush_of_store hf ha (storePush_stored hf hc ha hroom hlen) ?_
  obtain ⟨n, hget, hiff⟩ := finishCount_eq_iff hf hc st q a (request.keys.zip request.values)
  rw [finishRound, hget, Checked.ok_bind, if_pos (hiff.2 hn),
    updateParameter_completes hf hc hv hn (owns_zip _ hk), Checked.ok_bind,
    respondToAll_eq hf _ hv.keys, Checked.ok_bind]
  exact congrArg (· >>= _) (requestBackup_eq hf)

/-! ## Pulls -/

omit hc in
theorem servePull_unknown {st : History config F} {q : List PullInfo} {a : Int}
    (ha : a ∉ config.workerId) (request : RequestMessage F) :
    (s₀.ofRounds st q).servePull a request = .ok (s₀.ofRounds st q, ⟨.unknown, []⟩) := by
  rw [servePull, show (s₀.ofRounds st q).idToIndex a = none from hf.idToIndex_none a ha]

theorem servePull_blocked {st : History config F} {q : List PullInfo} {a : Int}
    (ha : a ∈ config.workerId) (hfull : config.bound.toNat ≤ (st.pending a).length)
    (request : RequestMessage F) :
    (s₀.ofRounds st q).servePull a request
      = .ok (s₀.ofRounds st (q ++ [⟨a, request.keys⟩]), ⟨.blocked, []⟩) := by
  rw [servePull, show (s₀.ofRounds st q).idToIndex a = _ from hf.idToIndex a ha]
  simp only [(get_versionBuffer hf st q ha).2, Checked.ok_bind, sizeAtLeast_bound hf hc,
    decide_eq_true hfull, if_true]
  rfl

theorem servePull_answered {st : History config F} {q : List PullInfo} {a : Int}
    (ha : a ∈ config.workerId) (hroom : (st.pending a).length < config.bound.toNat)
    {request : RequestMessage F} (hk : s₀.Owns request.keys) :
    (s₀.ofRounds st q).servePull a request
      = .ok (s₀.ofRounds st q, ⟨.answered, [(s₀.ofRounds st q).reply a request.keys
          ((s₀.ofRounds st q).valuesAt request.keys)]⟩) := by
  rw [servePull, show (s₀.ofRounds st q).idToIndex a = _ from hf.idToIndex a ha]
  simp only [(get_versionBuffer hf st q ha).2, Checked.ok_bind, sizeAtLeast_bound hf hc,
    decide_eq_false (not_le.2 hroom), pullValues_eq (length_parameters hf st q) hk]
  rfl

/-! ## The server as a specification -/

omit hf hc

/-- The keys of the request lie in the range of the server, and a push has a value for each. -/
def Call.InRange (s₀ : Server F) : Call F → Prop
  | .push _ request => request.keys.length ≤ request.values.length ∧ s₀.Owns request.keys
  | .pull _ request => s₀.Owns request.keys

/-- What serving one request does to the histories and the blocked pulls. -/
inductive Step (s₀ : Server F) : History config F → List PullInfo → Call F →
    History config F → List PullInfo → Response F → Prop
  | pushUnknown {st : History config F} {q : List PullInfo} {a : Int}
      {request : RequestMessage F} (ha : a ∉ config.workerId) :
      Step s₀ st q (.push a request) st q ⟨.unknown, []⟩
  | pushOverfilled {st : History config F} {q : List PullInfo} {a : Int}
      {request : RequestMessage F} (ha : a ∈ config.workerId)
      (hfull : config.bound.toNat ≤ (st.pending a).length) :
      Step s₀ st q (.push a request) st q ⟨.overfilled, []⟩
  | pushStored {st : History config F} {q : List PullInfo} {a : Int}
      {request : RequestMessage F} (ha : a ∈ config.workerId)
      (hroom : (st.pending a).length < config.bound.toNat) (hn : ¬ st.Completes a) :
      Step s₀ st q (.push a request) (st.push a (request.keys.zip request.values) ha hroom) q
        ⟨.stored, []⟩
  | pushCompletes {st : History config F} {q : List PullInfo} {a : Int}
      {request : RequestMessage F} (ha : a ∈ config.workerId)
      (hroom : (st.pending a).length < config.bound.toNat) (hn : st.Completes a) :
      Step s₀ st q (.push a request) (st.push a (request.keys.zip request.values) ha hroom) []
        ⟨.stored, (s₀.ofRounds (st.push a (request.keys.zip request.values) ha hroom)
          []).blockedReplies q ++ (List.range s₀.backupSize.toNat).map s₀.backupRequest⟩
  | pullUnknown {st : History config F} {q : List PullInfo} {a : Int}
      {request : RequestMessage F} (ha : a ∉ config.workerId) :
      Step s₀ st q (.pull a request) st q ⟨.unknown, []⟩
  | pullBlocked {st : History config F} {q : List PullInfo} {a : Int}
      {request : RequestMessage F} (ha : a ∈ config.workerId)
      (hfull : config.bound.toNat ≤ (st.pending a).length) :
      Step s₀ st q (.pull a request) st (q ++ [⟨a, request.keys⟩]) ⟨.blocked, []⟩
  | pullAnswered {st : History config F} {q : List PullInfo} {a : Int}
      {request : RequestMessage F} (ha : a ∈ config.workerId)
      (hroom : (st.pending a).length < config.bound.toNat) :
      Step s₀ st q (.pull a request) st q ⟨.answered, [(s₀.ofRounds st q).reply a request.keys
        ((s₀.ofRounds st q).valuesAt request.keys)]⟩

/-- **The server refines the specification**: serving a request whose keys are in range does not
fault, and is a step of it. -/
theorem serve_step (hf : Fresh config s₀) (hc : config.WorkersOk) {st : History config F}
    {q : List PullInfo} (hv : s₀.Valid st q) {c : Call F} (hin : c.InRange s₀) :
    ∃ st' q' r, (s₀.ofRounds st q).serve c = .ok (s₀.ofRounds st' q', r) ∧
      Step s₀ st q c st' q' r := by
  cases c with
  | push a request =>
    by_cases ha : a ∈ config.workerId
    · rcases Nat.lt_or_ge (st.pending a).length config.bound.toNat with hroom | hfull
      · by_cases hn : st.Completes a
        · exact ⟨_, _, _, servePush_completes hf hc hv hn hin.1 hin.2, .pushCompletes ha hroom hn⟩
        · exact ⟨_, _, _, servePush_stored hf hc hn hin.1, .pushStored ha hroom hn⟩
      · exact ⟨_, _, _, servePush_overfilled hf hc ha hfull request, .pushOverfilled ha hfull⟩
    · exact ⟨_, _, _, servePush_unknown hf ha request, .pushUnknown ha⟩
  | pull a request =>
    by_cases ha : a ∈ config.workerId
    · rcases Nat.lt_or_ge (st.pending a).length config.bound.toNat with hroom | hfull
      · exact ⟨_, _, _, servePull_answered hf hc ha hroom hin, .pullAnswered ha hroom⟩
      · exact ⟨_, _, _, servePull_blocked hf hc ha hfull request, .pullBlocked ha hfull⟩
    · exact ⟨_, _, _, servePull_unknown hf ha request, .pullUnknown ha⟩

omit [FloatOps F] in
/-- An update in range keeps the histories in range. -/
theorem owns_push {st : History config F} {q : List PullInfo} (hv : s₀.Valid st q) {a : Int}
    {u : KeyValueList F} {ha : a ∈ config.workerId}
    {hroom : (st.pending a).length < config.bound.toNat} (hu : s₀.Owns (u.map Prod.fst)) :
    ∀ b ∈ config.workerId, ∀ v ∈ (st.push a u ha hroom).hist b, s₀.Owns (v.map Prod.fst) := by
  intro b hb v hvb
  rw [Rounds.push_hist] at hvb
  by_cases hba : b = a
  · subst hba
    rw [Function.update_self, List.mem_append, List.mem_singleton] at hvb
    rcases hvb with hvb | rfl
    · exact hv.owns b hb v hvb
    · exact hu
  · rw [Function.update_of_ne hba] at hvb
    exact hv.owns b hb v hvb

/-- A step keeps what the next one relies on. -/
theorem Step.valid {st st' : History config F} {q q' : List PullInfo} {c : Call F}
    {r : Response F} (h : Step s₀ st q c st' q' r) (hv : s₀.Valid st q) (hin : c.InRange s₀) :
    s₀.Valid st' q' := by
  cases h with
  | pushUnknown ha => exact hv
  | pushOverfilled ha hfull => exact hv
  | @pushStored a _ ha hroom hn =>
    refine ⟨owns_push hv (owns_zip _ hin.2), hv.known, fun p hp ↦ ?_, hv.keys⟩
    -- the agent of a blocked pull has no room, so it is not the one that pushes
    have hne : p.id ≠ a := fun heq ↦ by
      have hfull := hv.full p hp
      rw [heq] at hfull
      omega
    rw [Rounds.pending_push_of_not_completes hn (hv.known p hp), Rounds.length_stored, if_neg hne,
      hv.full p hp]
    rfl
  | pushCompletes ha hroom hn =>
    exact ⟨owns_push hv (owns_zip _ hin.2), by simp, by simp, by simp⟩
  | pullUnknown ha => exact hv
  | pullBlocked ha hfull =>
    have hlen := le_antisymm (Rounds.length_pending_le st ha) hfull
    refine ⟨hv.owns, ?_, ?_, ?_⟩
    all_goals
      intro p hp
      rcases List.mem_append.1 hp with hp | hp
    · exact hv.known p hp
    · rw [List.mem_singleton.1 hp]; exact ha
    · exact hv.full p hp
    · rw [List.mem_singleton.1 hp]; exact hlen
    · exact hv.keys p hp
    · rw [List.mem_singleton.1 hp]; exact hin
  | pullAnswered ha hroom => exact hv

end Server

end Rpscc
