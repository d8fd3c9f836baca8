import Rpscc.Server.Simulation

/-!
# Runs of the server

What holds after every sequence of pushes and pulls, from a server that `Initialize` has just
built.  The keys of all requests lie in the range of the server; senders may be anyone, in any
order, known to the server or not.

A run leaves a trace, and the trace says what every agent has had accepted (`accepted`), has asked
for (`pullsOf`) and has been told (`repliesTo`).  `Represents s₀ s tr` connects the three with the
state: the state is `Server.ofRounds` of the accepted updates, and the pulls of an agent are those
answered, in order, followed by those waiting.  `run_represents` proves it of every run, and the
main results read it off:

* `version_counters`: the version number, the version buffers and the deque of counters all say
  the same thing, and no run takes the front of an empty queue;
* `bounded_staleness`: every pull is answered exactly once, in order, and never from parameters
  that are a full bound behind the agent;
* `some_agent_unblocked`: never do all the agents wait;
* `rejected_push_inert`: a push that is turned away changes nothing, although it goes on to the
  round check.
-/

set_option autoImplicit false

namespace Rpscc

namespace Server

variable {F : Type}

/-! ## Reading a trace -/

/-- The update a step of the trace put into the version buffer of agent `a`. -/
def acceptedOf (a : Int) : Call F × Response F → Option (KeyValueList F)
  | (.push id request, r) =>
    if id = a ∧ r.outcome = .stored then some (request.keys.zip request.values) else none
  | (.pull _ _, _) => none

/-- The accepted updates of agent `a`, in push order. -/
def accepted (a : Int) (tr : List (Call F × Response F)) : List (KeyValueList F) :=
  tr.filterMap (acceptedOf a)

/-- The keys a step of the trace asks for on behalf of agent `a`. -/
def pullOf (a : Int) : Call F × Response F → Option (List Int)
  | (.push _ _, _) => none
  | (.pull id request, _) => if id = a then some request.keys else none

/-- The pulls of agent `a`, each as the keys it asks for. -/
def pullsOf (a : Int) (tr : List (Call F × Response F)) : List (List Int) :=
  tr.filterMap (pullOf a)

/-- The keys a message brings to agent `a`, if it is a reply to one of its pulls. -/
def replyKeys (a : Int) (m : Sent F) : Option (List Int) :=
  match m.msg.requestMsg with
  | some request => if m.dst = a then some request.keys else none
  | none => none

/-- The replies agent `a` has been sent, each as the keys it carries. -/
def repliesTo (a : Int) (tr : List (Call F × Response F)) : List (List Int) :=
  tr.flatMap fun e ↦ e.2.sent.filterMap (replyKeys a)

/-- The blocked pulls of agent `a`. -/
def waiting (a : Int) (q : List PullInfo) : List (List Int) :=
  q.filterMap fun p ↦ if p.id = a then some p.keys else none

@[simp, grind =]
theorem accepted_concat (a : Int) (tr : List (Call F × Response F)) (e : Call F × Response F) :
    accepted a (tr ++ [e]) = accepted a tr ++ (acceptedOf a e).toList := by
  rw [accepted, List.filterMap_append, accepted]
  cases h : acceptedOf a e <;> simp [h]

@[simp, grind =]
theorem pullsOf_concat (a : Int) (tr : List (Call F × Response F)) (e : Call F × Response F) :
    pullsOf a (tr ++ [e]) = pullsOf a tr ++ (pullOf a e).toList := by
  rw [pullsOf, List.filterMap_append, pullsOf]
  cases h : pullOf a e <;> simp [h]

@[simp, grind =]
theorem repliesTo_concat (a : Int) (tr : List (Call F × Response F)) (e : Call F × Response F) :
    repliesTo a (tr ++ [e]) = repliesTo a tr ++ e.2.sent.filterMap (replyKeys a) := by
  rw [repliesTo, List.flatMap_append, List.flatMap_singleton, repliesTo]

@[simp, grind =] theorem waiting_concat (a : Int) (q : List PullInfo) (p : PullInfo) :
    waiting a (q ++ [p]) = waiting a q ++ if p.id = a then [p.keys] else [] := by
  rw [waiting, List.filterMap_append, waiting]
  by_cases h : p.id = a <;> simp [h]

@[simp] theorem replyKeys_reply (s : Server F) (a b : Int) (keys : List Int) (values : List F) :
    replyKeys a (s.reply b keys values) = if b = a then some keys else none := rfl

@[simp] theorem replyKeys_backupRequest (s : Server F) (a : Int) (j : ℕ) :
    replyKeys a (s.backupRequest j) = none := rfl

variable [FloatOps F] {config : ConfigMessage} {s₀ : Server F}

@[simp] theorem filterMap_blockedReplies (s : Server F) (a : Int) (q : List PullInfo) :
    (s.blockedReplies q).filterMap (replyKeys a) = waiting a q := by
  rw [blockedReplies, List.filterMap_map, waiting]
  rfl

/-! ## The invariant of runs -/

/-- The state `s` after the trace `tr` of a server that started as `s₀`. -/
def Represents (config : ConfigMessage) (s₀ s : Server F) (tr : List (Call F × Response F)) :
    Prop :=
  ∃ (st : History config F) (q : List PullInfo), s = s₀.ofRounds st q ∧ s₀.Valid st q ∧
    (∀ a ∈ config.workerId, st.hist a = accepted a tr) ∧
    ∀ a ∈ config.workerId, pullsOf a tr = repliesTo a tr ++ waiting a q

/-- A step extends the history of the agent whose update it stores, and no other. -/
theorem Step.hist {st st' : History config F} {q q' : List PullInfo} {c : Call F}
    {r : Response F} (h : Step s₀ st q c st' q' r) (a : Int) :
    st'.hist a = st.hist a ++ (acceptedOf a (c, r)).toList := by
  cases h with
  | pushUnknown ha => simp [acceptedOf]
  | pushOverfilled ha hfull => simp [acceptedOf]
  | @pushStored b _ ha hroom hn | @pushCompletes b _ ha hroom hn =>
    rw [Rounds.push_hist]
    by_cases hab : a = b
    · subst hab
      simp [acceptedOf]
    · have hba : b ≠ a := fun h ↦ hab h.symm
      simp [acceptedOf, hab, hba]
  | pullUnknown ha => simp [acceptedOf]
  | pullBlocked ha hfull => simp [acceptedOf]
  | pullAnswered ha hroom => simp [acceptedOf]

/-- A step answers the blocked pulls of an agent, or blocks one more, or answers one at once, in
which case none is blocked. -/
theorem Step.pulls {st st' : History config F} {q q' : List PullInfo} {c : Call F}
    {r : Response F} (h : Step s₀ st q c st' q' r) (hv : s₀.Valid st q) {a : Int}
    (ha : a ∈ config.workerId) :
    waiting a q ++ (pullOf a (c, r)).toList
      = r.sent.filterMap (replyKeys a) ++ waiting a q' := by
  cases h with
  | pushUnknown hb => simp [pullOf]
  | pushOverfilled hb hfull => simp [pullOf]
  | pushStored hb hroom hn => simp [pullOf]
  | pushCompletes hb hroom hn =>
    have hnone : ((List.range s₀.backupSize.toNat).map s₀.backupRequest).filterMap (replyKeys a)
        = [] := by
      rw [List.filterMap_map]
      exact List.filterMap_eq_nil_iff.2 fun j _ ↦ replyKeys_backupRequest s₀ a j
    rw [List.filterMap_append, filterMap_blockedReplies, hnone]
    simp [pullOf, waiting]
  | @pullUnknown b _ hb =>
    have hne : b ≠ a := fun h ↦ hb (h ▸ ha)
    simp [pullOf, hne]
  | @pullBlocked b request hb hfull =>
    rw [waiting_concat]
    by_cases hba : b = a <;> simp [pullOf, hba]
  | @pullAnswered b request hb hroom =>
    by_cases hba : b = a
    · subst hba
      -- an agent with room has no blocked pull
      have hnil : waiting b q = [] := by
        refine List.filterMap_eq_nil_iff.2 fun p hp ↦ if_neg fun hpb ↦ ?_
        have hfull := hv.full p hp
        rw [hpb] at hfull
        omega
      simp [pullOf, hnil]
    · simp [pullOf, hba]

/-- A reply goes to an agent with room, and carries the values of the state it is sent from. -/
theorem Step.reply {st st' : History config F} {q q' : List PullInfo} {c : Call F}
    {r : Response F} (h : Step s₀ st q c st' q' r) (hv : s₀.Valid st q) {a : Int} {m : Sent F}
    (hm : m ∈ r.sent) {keys : List Int} (hkeys : replyKeys a m = some keys) :
    a ∈ config.workerId ∧ (st'.pending a).length < config.bound.toNat ∧
      m = (s₀.ofRounds st' q').reply a keys ((s₀.ofRounds st' q').valuesAt keys) := by
  cases h with
  | pushUnknown hb | pushOverfilled hb hfull | pushStored hb hroom hn | pullUnknown hb
  | pullBlocked hb hfull => exact absurd hm List.not_mem_nil
  | pushCompletes hb hroom hn =>
    rcases List.mem_append.1 hm with hm | hm
    · obtain ⟨p, hp, rfl⟩ := List.mem_map.1 hm
      rw [replyKeys_reply] at hkeys
      split at hkeys
      · rename_i hpa
        cases hkeys
        subst hpa
        exact ⟨hv.known p hp, Rounds.length_pending_push_lt hn (hv.known p hp), rfl⟩
      · simp at hkeys
    · obtain ⟨j, -, rfl⟩ := List.mem_map.1 hm
      rw [replyKeys_backupRequest] at hkeys
      simp at hkeys
  | pullAnswered hb hroom =>
    rw [List.mem_singleton.1 hm, replyKeys_reply] at hkeys
    split at hkeys
    · rename_i hba
      cases hkeys
      subst hba
      exact ⟨hb, hroom, List.mem_singleton.1 hm⟩
    · simp at hkeys

theorem Represents.step (hf : Fresh config s₀) (hc : config.WorkersOk) {s : Server F}
    {tr : List (Call F × Response F)} (h : Represents config s₀ s tr) {c : Call F}
    (hin : c.InRange s₀) :
    ∃ s' r, s.serve c = .ok (s', r) ∧ Represents config s₀ s' (tr ++ [(c, r)]) := by
  obtain ⟨st, q, rfl, hv, hhist, hpull⟩ := h
  obtain ⟨st', q', r, hserve, hstep⟩ := serve_step hf hc hv hin
  refine ⟨_, r, hserve, st', q', rfl, hstep.valid hv hin, fun a ha ↦ ?_, fun a ha ↦ ?_⟩
  · rw [hstep.hist, hhist a ha, accepted_concat]
  · rw [pullsOf_concat, repliesTo_concat, hpull a ha, List.append_assoc, hstep.pulls hv ha,
      List.append_assoc]

/-- **No run faults, and the state is a function of the accepted updates.** -/
theorem run_represents (hf : Fresh config s₀) (hc : config.WorkersOk) {calls : List (Call F)}
    (hin : ∀ c ∈ calls, c.InRange s₀) :
    ∃ s tr, s₀.run calls = .ok (s, tr) ∧ Represents config s₀ s tr := by
  refine Checked.run_invariant (fun c ↦ c.InRange s₀) ?_ ?_ calls hin
  · refine ⟨Rounds.empty hc.ne_nil, [], (ofRounds_empty hf hc.ne_nil).symm,
      ⟨by simp [Rounds.empty], by simp, by simp, by simp⟩, fun a _ ↦ rfl, fun a _ ↦ rfl⟩
  · intro s tr c hin h
    exact h.step hf hc hin

/-! ## Main results -/

/-- Two servers, two agents and ten keys, for running the model. -/
def smallConfig : ConfigMessage where
  workerNum := 2
  serverNum := 2
  keyRange := 10
  nodeIpPort := ["10.0.0.1:80", "10.0.0.2:80", "10.0.0.3:80", "10.0.0.4:80", "10.0.0.5:80"]
  partition := [0, 4]
  backupSize := 1
  serverId := [1, 2]
  workerId := [3, 4]
  masterId := [0]
  bound := 1

theorem smallConfig_workersOk : smallConfig.WorkersOk := by
  constructor <;> decide

/-- Requests of both agents and of a stranger to the server of the keys `0` to `3`: agent `3` runs
ahead, is blocked and pushes too much; agent `4` completes the round. -/
def smallCalls : List (Call Int) :=
  [.push 3 ⟨.keyValue, [0, 2], [10, 30]⟩, .pull 3 ⟨.key, [2], []⟩, .push 3 ⟨.keyValue, [1], [5]⟩,
    .push 9 ⟨.keyValue, [1], [5]⟩, .push 4 ⟨.keyValue, [2], [10]⟩, .pull 4 ⟨.key, [0, 3], []⟩]

theorem smallConfig_initialized : ∃ s₀ : Server Int,
    initializeServer "10.0.0.1:80" 1 smallConfig = .ok s₀ ∧ ∀ c ∈ smallCalls, c.InRange s₀ := by
  obtain ⟨s₀, h₀, hstart, hlen⟩ : ∃ s₀ : Server Int,
      initializeServer "10.0.0.1:80" 1 smallConfig = .ok s₀ ∧ s₀.startKey = 0 ∧
        s₀.parameterLength = 4 := ⟨_, rfl, rfl, rfl⟩
  exact ⟨s₀, h₀, by simp [smallCalls, Call.InRange, Owns, hstart, hlen]⟩

section

variable {masterIpPort : String} {localId : Int} {calls : List (Call F)}

/-- **The version counters agree.**  After any run, with `accepted a tr` the pushes of agent `a`
that were neither unknown nor overfilled: the version number is the least number of accepted
pushes; the version buffer of `a` holds its accepted pushes from there on; the deque of counters
has one entry a version in the bound, which counts the agents with more updates buffered than
that; and no buffer exceeds the bound.  The run is `.ok`, so in particular it never takes the
front of an empty queue. -/
theorem version_counters (h₀ : initializeServer masterIpPort localId config = .ok s₀)
    (hc : config.WorkersOk) (hin : ∀ c ∈ calls, c.InRange s₀) :
    ∃ s tr, s₀.run calls = .ok (s, tr) ∧
      IsLeast {n : Int | ∃ a ∈ config.workerId, n = (accepted a tr).length} s.bottomVersion ∧
      (∀ a ∈ config.workerId,
        s.bufferOf a = .ok ((accepted a tr).drop s.bottomVersion.toNat)) ∧
      (s.finishCount.length : Int) = s.consistencyBound ∧
      (∀ j < s.finishCount.length, s.finishCount[j]? = some (config.workerId.countP fun a ↦
        decide (j < ((accepted a tr).drop s.bottomVersion.toNat).length) : Int)) ∧
      ∀ buffer ∈ s.versionBuffer, (buffer.length : Int) ≤ s.consistencyBound := by
  have hf := initializeServer_fresh hc h₀
  have hpos := hc.bound
  have hbound : s₀.consistencyBound = config.bound := hf.bound
  obtain ⟨s, tr, hrun, st, q, rfl, hv, hhist, -⟩ := run_represents hf hc hin
  have hpending : ∀ a ∈ config.workerId, st.pending a = (accepted a tr).drop st.bottom :=
    fun a ha ↦ by rw [Rounds.pending, hhist a ha]
  refine ⟨_, tr, hrun, ⟨?_, ?_⟩, fun a ha ↦ ?_, ?_, fun j hj ↦ ?_, fun buffer hb ↦ ?_⟩
  · obtain ⟨a, ha, hlen⟩ := st.exists_eq
    exact ⟨a, ha, by rw [← hhist a ha, hlen]; rfl⟩
  · rintro n ⟨a, ha, rfl⟩
    rw [← hhist a ha]
    exact Int.ofNat_le.2 (st.bottom_le a ha)
  · rw [bufferOf_ofRounds hf ha, hpending a ha]
    rfl
  · show (((List.range config.bound.toNat).map _).length : Int) = s₀.consistencyBound
    rw [List.length_map, List.length_range, hbound]
    omega
  · have hj' : j < config.bound.toNat := by simpa [ofRounds] using hj
    show ((List.range config.bound.toNat).map fun j ↦ (st.count j : Int))[j]? = _
    rw [List.getElem?_map, List.getElem?_range hj', Option.map_some, Rounds.count]
    refine congrArg (fun n : ℕ ↦ some (n : Int)) (List.countP_congr fun a ha ↦ ?_)
    rw [hpending a ha]
    rfl
  · obtain ⟨a, ha, rfl⟩ := List.mem_map.1 hb
    have hle := st.length_pending_le ha
    show ((st.pending a).length : Int) ≤ s₀.consistencyBound
    omega

theorem version_counters_smallCalls :
    ∃ (s₀ s : Server Int) (tr : List (Call Int × Response Int)),
      initializeServer "10.0.0.1:80" 1 smallConfig = .ok s₀ ∧ s₀.run smallCalls = .ok (s, tr) ∧
      IsLeast {n : Int | ∃ a ∈ smallConfig.workerId, n = (accepted a tr).length}
        s.bottomVersion := by
  obtain ⟨s₀, h₀, hin⟩ := smallConfig_initialized
  obtain ⟨s, tr, hrun, hleast, -⟩ := version_counters h₀ smallConfig_workersOk hin
  exact ⟨s₀, s, tr, h₀, hrun, hleast⟩

/-- **Bounded staleness.**  After any run the pulls of a known agent are the ones answered, in
order and with the keys they asked for, followed by the ones still in `pull_request_`.  And
whatever is served next, a reply to agent `a` is sent from a state in which the accepted pushes of
`a` are ahead of the version number by less than the bound, and carries the values of that
state. -/
theorem bounded_staleness (h₀ : initializeServer masterIpPort localId config = .ok s₀)
    (hc : config.WorkersOk) (hin : ∀ c ∈ calls, c.InRange s₀) :
    ∃ s tr, s₀.run calls = .ok (s, tr) ∧
      (∀ a ∈ config.workerId, pullsOf a tr = repliesTo a tr ++ waiting a s.pullRequest) ∧
      ∀ c : Call F, c.InRange s₀ → ∃ s' r, s.serve c = .ok (s', r) ∧
        ∀ a ∈ config.workerId, ∀ m ∈ r.sent, ∀ keys, replyKeys a m = some keys →
          m = s'.reply a keys (s'.valuesAt keys) ∧
          0 ≤ ((accepted a (tr ++ [(c, r)])).length : Int) - s'.bottomVersion ∧
          ((accepted a (tr ++ [(c, r)])).length : Int) - s'.bottomVersion
            < s'.consistencyBound := by
  have hf := initializeServer_fresh hc h₀
  obtain ⟨s, tr, hrun, st, q, rfl, hv, hhist, hpull⟩ := run_represents hf hc hin
  refine ⟨_, tr, hrun, hpull, fun c hc' ↦ ?_⟩
  obtain ⟨st', q', r, hserve, hstep⟩ := serve_step hf hc hv hc'
  refine ⟨_, r, hserve, fun a ha m hm keys hkeys ↦ ?_⟩
  obtain ⟨-, hroom, hreply⟩ := hstep.reply hv hm hkeys
  have hlen : ((accepted a (tr ++ [(c, r)])).length : Int)
      = st'.bottom + (st'.pending a).length := by
    rw [accepted_concat, ← hhist a ha, ← hstep.hist, st'.length_hist ha]
    rfl
  have hbound : s₀.consistencyBound = config.bound := hf.bound
  refine ⟨hreply, ?_, ?_⟩
  · show 0 ≤ _ - (st'.bottom : Int)
    omega
  · show _ - (st'.bottom : Int) < s₀.consistencyBound
    omega

theorem bounded_staleness_smallCalls :
    ∃ (s₀ s : Server Int) (tr : List (Call Int × Response Int)),
      initializeServer "10.0.0.1:80" 1 smallConfig = .ok s₀ ∧ s₀.run smallCalls = .ok (s, tr) ∧
      ∀ a ∈ smallConfig.workerId, pullsOf a tr = repliesTo a tr ++ waiting a s.pullRequest := by
  obtain ⟨s₀, h₀, hin⟩ := smallConfig_initialized
  obtain ⟨s, tr, hrun, hpull, -⟩ := bounded_staleness h₀ smallConfig_workersOk hin
  exact ⟨s₀, s, tr, h₀, hrun, hpull⟩

/-- **The consistency protocol cannot deadlock.**  After any run some agent has an empty version
buffer, an agent with a blocked pull has a full one, and so there is an agent none of whose pulls
is blocked. -/
theorem some_agent_unblocked (h₀ : initializeServer masterIpPort localId config = .ok s₀)
    (hc : config.WorkersOk) (hin : ∀ c ∈ calls, c.InRange s₀) :
    ∃ s tr, s₀.run calls = .ok (s, tr) ∧
      (∃ a ∈ config.workerId, s.bufferOf a = .ok []) ∧
      (∀ p ∈ s.pullRequest, ∃ buffer, s.bufferOf p.id = .ok buffer ∧
        (buffer.length : Int) = s.consistencyBound) ∧
      (∃ a ∈ config.workerId, ∀ p ∈ s.pullRequest, p.id ≠ a) ∧
      ¬ ∀ a ∈ config.workerId, ∃ p ∈ s.pullRequest, p.id = a := by
  have hf := initializeServer_fresh hc h₀
  have hpos := hc.bound
  have hbound : s₀.consistencyBound = config.bound := hf.bound
  obtain ⟨s, tr, hrun, st, q, rfl, hv, -, -⟩ := run_represents hf hc hin
  obtain ⟨a, ha, hnil⟩ := st.exists_pending_nil
  have hfree : ∀ p ∈ q, p.id ≠ a := by
    rintro p hp rfl
    have hfull := hv.full p hp
    rw [hnil, List.length_nil] at hfull
    omega
  refine ⟨_, tr, hrun, ⟨a, ha, ?_⟩, fun p hp ↦ ⟨st.pending p.id, ?_, ?_⟩, ⟨a, ha, hfree⟩,
    fun hall ↦ ?_⟩
  · rw [bufferOf_ofRounds hf ha, hnil]
  · exact bufferOf_ofRounds hf (hv.known p hp)
  · have hfull := hv.full p hp
    show ((st.pending p.id).length : Int) = s₀.consistencyBound
    omega
  · obtain ⟨p, hp, hpa⟩ := hall a ha
    exact hfree p hp hpa

theorem some_agent_unblocked_smallCalls :
    ∃ (s₀ s : Server Int) (tr : List (Call Int × Response Int)),
      initializeServer "10.0.0.1:80" 1 smallConfig = .ok s₀ ∧ s₀.run smallCalls = .ok (s, tr) ∧
      ∃ a ∈ smallConfig.workerId, ∀ p ∈ s.pullRequest, p.id ≠ a := by
  obtain ⟨s₀, h₀, hin⟩ := smallConfig_initialized
  obtain ⟨s, tr, hrun, -, -, hfree, -⟩ := some_agent_unblocked h₀ smallConfig_workersOk hin
  exact ⟨s₀, s, tr, h₀, hrun, hfree⟩

/-- **A rejected push changes nothing.**  After any run a push of an agent the server does not know,
or of one whose version buffer already holds a full bound of updates, leaves every member of the
server as it was and sends nothing, whatever its keys.  The second kind goes on to the round check,
which finds no complete round: `finish_count_[0]` stays below the number of agents. -/
theorem rejected_push_inert (h₀ : initializeServer masterIpPort localId config = .ok s₀)
    (hc : config.WorkersOk) (hin : ∀ c ∈ calls, c.InRange s₀) :
    ∃ s tr, s₀.run calls = .ok (s, tr) ∧
      (∀ a ∉ s.agentIds, ∀ request : RequestMessage F,
        s.servePush a request = .ok (s, ⟨.unknown, []⟩)) ∧
      ∀ a ∈ s.agentIds, ∀ buffer, s.bufferOf a = .ok buffer →
        s.consistencyBound ≤ buffer.length → ∀ request : RequestMessage F,
          s.servePush a request = .ok (s, ⟨.overfilled, []⟩) := by
  have hf := initializeServer_fresh hc h₀
  obtain ⟨s, tr, hrun, st, q, rfl, -, -, -⟩ := run_represents hf hc hin
  refine ⟨_, tr, hrun, fun a ha request ↦ ?_, fun a ha buffer hbuffer hfull request ↦ ?_⟩
  · exact servePush_unknown hf (fun h ↦ ha ((hf.mem_agentIds a).2 h)) request
  · have hmem : a ∈ config.workerId := (hf.mem_agentIds a).1 ha
    rw [bufferOf_ofRounds hf hmem] at hbuffer
    cases hbuffer
    have hbound : (s₀.ofRounds st q).consistencyBound = config.bound := hf.bound
    exact servePush_overfilled hf hc hmem (by omega) request

/-- Agent `3` has pushed once, which is the bound; agent `9` is a stranger. -/
theorem rejected_push_inert_smallCalls :
    ∃ (s₀ s : Server Int) (tr : List (Call Int × Response Int)),
      initializeServer "10.0.0.1:80" 1 smallConfig = .ok s₀ ∧
      s₀.run [.push 3 ⟨.keyValue, [0, 2], [10, 30]⟩] = .ok (s, tr) ∧
      s.servePush 9 ⟨.keyValue, [7], [5]⟩ = .ok (s, ⟨.unknown, []⟩) ∧
      s.servePush 3 ⟨.keyValue, [7], [5]⟩ = .ok (s, ⟨.overfilled, []⟩) := by
  obtain ⟨s₀, s₁, tr₁, h₀, hstart, hlen, hrun₁, h9, h3, hbuffer, hbound⟩ :
      ∃ (s₀ s₁ : Server Int) (tr₁ : List (Call Int × Response Int)),
      initializeServer "10.0.0.1:80" 1 smallConfig = .ok s₀ ∧ s₀.startKey = 0 ∧
      s₀.parameterLength = 4 ∧
      s₀.run [.push 3 ⟨.keyValue, [0, 2], [10, 30]⟩] = .ok (s₁, tr₁) ∧ 9 ∉ s₁.agentIds ∧
      3 ∈ s₁.agentIds ∧ s₁.bufferOf 3 = .ok [[(0, 10), (2, 30)]] ∧ s₁.consistencyBound = 1 :=
    ⟨_, _, _, rfl, rfl, rfl, rfl, by decide, by decide, rfl, rfl⟩
  have hin : ∀ c ∈ [(Call.push 3 ⟨.keyValue, [0, 2], [10, 30]⟩ : Call Int)], c.InRange s₀ := by
    simp [Call.InRange, Owns, hstart, hlen]
  obtain ⟨s, tr, hrun, hunknown, hfull⟩ := rejected_push_inert h₀ smallConfig_workersOk hin
  obtain ⟨rfl, rfl⟩ := Prod.mk.inj (Except.ok.inj (hrun.symm.trans hrun₁))
  exact ⟨s₀, s, tr, h₀, hrun, hunknown 9 h9 _, hfull 3 h3 _ hbuffer (by rw [hbound]; rfl) _⟩

end

end Server

end Rpscc
