import Mathlib.Logic.Relation
import Rpscc.Server.Runs

/-!
# No update of a well-behaved agent is dropped

A push that finds the version buffer of its agent full is thrown away, and nobody is told.  What
keeps this from happening is the pull: the worker behind an agent pulls, waits for the reply,
computes, and pushes, so an agent never has two pushes under way, and the server answers a pull
only when there is room for the push that will follow.

`Network` is a server with its agents: the place of every agent in its loop (`Phase`), its requests
on their way to the server and the replies on their way back, both first in, first out.
`Network.Step` interleaves the agents and the server in any order.  `Network.Stage` lists what the
requests and replies of one agent can look like, and says where there is room in its version
buffer: from the moment the server answers until the push is served.  `Network.Inv` holds in every
reachable state, and `push_never_overfilled` is read off it.
-/

set_option autoImplicit false

namespace Rpscc

/-- Where an agent is in the loop of `AgentWork`: it pulls, waits for the reply, and pushes. -/
inductive Phase
  | pull
  | wait
  | push
deriving DecidableEq, Repr

/-- One server, its agents, and the messages between them, the oldest first. -/
structure Network (F : Type) where
  server : Server F
  phase : Int → Phase
  requests : Int → List (Server.Call F)
  replies : Int → List (Sent F)

namespace Network

open Server (Call replyKeys waiting pullOf)

variable {F : Type}

/-- Nothing is on its way, and every agent is about to pull. -/
def start (s₀ : Server F) : Network F where
  server := s₀
  phase := fun _ ↦ .pull
  requests := fun _ ↦ []
  replies := fun _ ↦ []

/-- The messages that are replies to pulls of agent `a`. -/
def repliesFor (a : Int) (sent : List (Sent F)) : List (Sent F) :=
  sent.filter fun m ↦ (replyKeys a m).isSome

/-- The agent a request comes from. -/
def sender : Call F → Int
  | .push a _ => a
  | .pull a _ => a

variable [FloatOps F]

/-- A step of an agent, or of the server, which takes the oldest request of some agent. -/
inductive Step (config : ConfigMessage) (s₀ : Server F) : Network F → Network F → Prop
  | sendPull {n : Network F} {a : Int} {request : RequestMessage F} (ha : a ∈ config.workerId)
      (hp : n.phase a = .pull) (hin : (Call.pull a request).InRange s₀) :
      Step config s₀ n { n with
        phase := Function.update n.phase a .wait
        requests := Function.update n.requests a (n.requests a ++ [.pull a request]) }
  | receive {n : Network F} {a : Int} {m : Sent F} {rest : List (Sent F)}
      (ha : a ∈ config.workerId) (hp : n.phase a = .wait) (hm : n.replies a = m :: rest) :
      Step config s₀ n { n with
        phase := Function.update n.phase a .push
        replies := Function.update n.replies a rest }
  | sendPush {n : Network F} {a : Int} {request : RequestMessage F} (ha : a ∈ config.workerId)
      (hp : n.phase a = .push) (hin : (Call.push a request).InRange s₀) :
      Step config s₀ n { n with
        phase := Function.update n.phase a .pull
        requests := Function.update n.requests a (n.requests a ++ [.push a request]) }
  | serve {n : Network F} {a : Int} {c : Call F} {rest : List (Call F)} {s' : Server F}
      {r : Response F} (ha : a ∈ config.workerId) (hc : n.requests a = c :: rest)
      (hs : n.server.serve c = .ok (s', r)) :
      Step config s₀ n { n with
        server := s'
        requests := Function.update n.requests a rest
        replies := fun b ↦ n.replies b ++ repliesFor b r.sent }

/-! ## What is on its way -/

/-- The requests and replies of agent `a` on their way, and its blocked pulls, by the place of the
agent in its loop.  `room` says that its version buffer has room. -/
inductive Stage (a : Int) (room : Prop) :
    Phase → List (Call F) → List (Sent F) → List (List Int) → Prop
  | idle : Stage a room .pull [] [] []
  | pushing (request : RequestMessage F) (hroom : room) :
      Stage a room .pull [.push a request] [] []
  | pushingAhead (request request' : RequestMessage F) (hroom : room) :
      Stage a room .wait [.push a request, .pull a request'] [] []
  | pulling (request : RequestMessage F) : Stage a room .wait [.pull a request] [] []
  | blocked (keys : List Int) : Stage a room .wait [] [] [keys]
  | answered (m : Sent F) (hroom : room) : Stage a room .wait [] [m] []
  | working (hroom : room) : Stage a room .push [] [] []

section

variable {a : Int} {room : Prop} {p : Phase} {requests : List (Call F)} {replies : List (Sent F)}
  {blocked : List (List Int)}

omit [FloatOps F]

theorem Stage.mono {room' : Prop} (h : Stage a room p requests replies blocked)
    (hroom : room → room') : Stage a room' p requests replies blocked := by
  cases h with
  | idle => exact .idle
  | pushing request hr => exact .pushing request (hroom hr)
  | pushingAhead request request' hr => exact .pushingAhead request request' (hroom hr)
  | pulling request => exact .pulling request
  | blocked keys => exact .blocked keys
  | answered m hr => exact .answered m (hroom hr)
  | working hr => exact .working (hroom hr)

/-- At most one pull is blocked, and then nothing is on its way. -/
theorem Stage.blocked_cases (h : Stage a room p requests replies blocked) :
    blocked = [] ∨ ∃ keys, p = .wait ∧ requests = [] ∧ replies = [] ∧ blocked = [keys] := by
  cases h with
  | blocked keys => exact .inr ⟨keys, rfl, rfl, rfl, rfl⟩
  | idle | pushing request hr | pushingAhead request request' hr | pulling request
  | answered m hr | working hr => exact .inl rfl

/-- The oldest request of an agent is its own, and there is room for it if it is a push. -/
theorem Stage.head {c : Call F} {rest : List (Call F)}
    (h : Stage a room p (c :: rest) replies blocked) :
    sender c = a ∧ ∀ request, c = .push a request → room := by
  cases h with
  | pushing request hroom => exact ⟨rfl, fun _ _ ↦ hroom⟩
  | pushingAhead request request' hroom => exact ⟨rfl, fun _ _ ↦ hroom⟩
  | pulling request => exact ⟨rfl, fun _ h ↦ by cases h⟩

theorem Stage.sendPull (h : Stage a room .pull requests replies blocked)
    (request : RequestMessage F) :
    Stage a room .wait (requests ++ [.pull a request]) replies blocked := by
  cases h with
  | idle => exact .pulling request
  | pushing request' hroom => exact .pushingAhead request' request hroom

theorem Stage.receive {m : Sent F} {rest : List (Sent F)}
    (h : Stage a room .wait requests (m :: rest) blocked) :
    Stage a room .push requests rest blocked := by
  cases h with
  | answered m hroom => exact .working hroom

theorem Stage.sendPush (h : Stage a room .push requests replies blocked)
    (request : RequestMessage F) :
    Stage a room .pull (requests ++ [.push a request]) replies blocked := by
  cases h with
  | working hroom => exact .pushing request hroom

end

/-- The invariant: the server is the one of some histories, and every agent is at a stage. -/
def Inv (config : ConfigMessage) (s₀ : Server F) (n : Network F) : Prop :=
  ∃ (st : History config F) (q : List PullInfo), n.server = s₀.ofRounds st q ∧
    s₀.Valid st q ∧ (∀ a ∈ config.workerId, ∀ c ∈ n.requests a, c.InRange s₀) ∧
    ∀ a ∈ config.workerId, Stage a ((st.pending a).length < config.bound.toNat) (n.phase a)
      (n.requests a) (n.replies a) (waiting a q)

/-! ## One step -/

section

variable {config : ConfigMessage} {s₀ : Server F} {st st' : History config F}
  {q q' : List PullInfo} {c : Call F} {r : Response F}

omit [FloatOps F] in
theorem length_repliesFor (a : Int) (sent : List (Sent F)) :
    (repliesFor a sent).length = (sent.filterMap (replyKeys a)).length := by
  rw [List.length_filterMap_eq_countP, List.countP_eq_length_filter]
  rfl

omit [FloatOps F] in
theorem pullOf_of_sender_ne {a : Int} (hne : a ≠ sender c) : pullOf a (c, r) = none := by
  cases c with
  | push b request => rfl
  | pull b request => exact if_neg fun h ↦ hne h.symm

/-- Serving a request leaves every other agent the room it has. -/
theorem room_of_sender_ne (h : Server.Step s₀ st q c st' q' r) {a : Int}
    (ha : a ∈ config.workerId) (hne : a ≠ sender c)
    (hroom : (st.pending a).length < config.bound.toNat) :
    (st'.pending a).length < config.bound.toNat := by
  cases h with
  | pushStored hb hroom' hn | pushCompletes hb hroom' hn =>
    exact lt_of_le_of_lt (Rounds.length_pending_push_le ha hne) hroom
  | pushUnknown hb | pushOverfilled hb hfull | pullUnknown hb | pullBlocked hb hfull
  | pullAnswered hb hroom' => exact hroom

variable (h : Server.Step s₀ st q c st' q' r) (hv : s₀.Valid st q) {a : Int}
  (ha : a ∈ config.workerId)

include h hv ha

/-- Without a pull to answer, an agent is sent nothing. -/
theorem serve_nothing (hnil : waiting a q ++ (pullOf a (c, r)).toList = []) :
    repliesFor a r.sent = [] ∧ waiting a q' = [] := by
  rw [h.pulls hv ha, List.append_eq_nil_iff] at hnil
  refine ⟨List.eq_nil_of_length_eq_zero ?_, hnil.2⟩
  rw [length_repliesFor, hnil.1, List.length_nil]

/-- A pull is answered, and then there is room, or it keeps waiting. -/
theorem serve_waiting {keys : List Int} (hone : waiting a q ++ (pullOf a (c, r)).toList = [keys]) :
    ((∃ m, repliesFor a r.sent = [m]) ∧ waiting a q' = [] ∧
      (st'.pending a).length < config.bound.toNat) ∨
      repliesFor a r.sent = [] ∧ waiting a q' = [keys] := by
  rw [h.pulls hv ha, List.append_eq_singleton_iff] at hone
  rcases hone with ⟨hsent, hwait⟩ | ⟨hsent, hwait⟩
  · refine .inr ⟨List.eq_nil_of_length_eq_zero ?_, hwait⟩
    rw [length_repliesFor, hsent, List.length_nil]
  · obtain ⟨m, hm, hkeys⟩ := List.mem_filterMap.1 (hsent ▸ List.mem_singleton_self keys)
    refine .inl ⟨List.length_eq_one_iff.1 ?_, hwait, (h.reply hv hm hkeys).2.1⟩
    rw [length_repliesFor, hsent, List.length_singleton]

/-- Serving the request of another agent leaves an agent at its stage, or answers its blocked
pull. -/
theorem Stage.serve_other {p : Phase} {requests : List (Call F)} {replies : List (Sent F)}
    (hs : Stage a ((st.pending a).length < config.bound.toNat) p requests replies (waiting a q))
    (hne : a ≠ sender c) :
    Stage a ((st'.pending a).length < config.bound.toNat) p requests
      (replies ++ repliesFor a r.sent) (waiting a q') := by
  have hall : waiting a q ++ (pullOf a (c, r)).toList = waiting a q := by
    rw [pullOf_of_sender_ne hne, Option.toList_none, List.append_nil]
  rcases hs.blocked_cases with hnil | ⟨keys, rfl, rfl, rfl, hkeys⟩
  · obtain ⟨hm, hwait⟩ := serve_nothing h hv ha (hall.trans hnil)
    rw [hm, List.append_nil, hwait, ← hnil]
    exact hs.mono (room_of_sender_ne h ha hne)
  · rcases serve_waiting h hv ha (hall.trans hkeys) with ⟨⟨m, hm⟩, hwait, hroom⟩ | ⟨hm, hwait⟩
    · rw [hm, hwait]
      exact .answered m hroom
    · rw [hm, hwait]
      exact .blocked keys

/-- Serving the oldest request of an agent takes it to the next stage. -/
theorem Stage.serve_self {p : Phase} {rest : List (Call F)} {replies : List (Sent F)}
    (hs : Stage a ((st.pending a).length < config.bound.toNat) p (c :: rest) replies
      (waiting a q)) :
    Stage a ((st'.pending a).length < config.bound.toNat) p rest
      (replies ++ repliesFor a r.sent) (waiting a q') := by
  generalize hw : waiting a q = blocked at hs
  cases hs with
  | pushing request hr =>
    obtain ⟨hm, hwait⟩ := serve_nothing h hv ha (by rw [hw]; rfl)
    rw [hm, hwait]
    exact .idle
  | pushingAhead request request' hr =>
    obtain ⟨hm, hwait⟩ := serve_nothing h hv ha (by rw [hw]; rfl)
    rw [hm, hwait]
    exact .pulling request'
  | pulling request =>
    have hone : waiting a q ++ (pullOf a (.pull a request, r)).toList = [request.keys] := by
      rw [hw]
      simp [pullOf]
    rcases serve_waiting h hv ha hone with ⟨⟨m, hm⟩, hwait, hroom⟩ | ⟨hm, hwait⟩
    · rw [hm, hwait]
      exact .answered m hroom
    · rw [hm, hwait]
      exact .blocked request.keys

end

/-! ## Every reachable state -/

section

variable {config : ConfigMessage} {s₀ : Server F} {n n' : Network F}

theorem inv_start (hf : s₀.Fresh config) (hc : config.WorkersOk) : Inv config s₀ (start s₀) :=
  ⟨Rounds.empty hc.ne_nil, [], (Server.ofRounds_empty hf hc.ne_nil).symm,
    ⟨by simp [Rounds.empty], by simp, by simp, by simp⟩, by simp [start], fun _ _ ↦ .idle⟩

omit [FloatOps F] in
theorem inRange_send {requests : Int → List (Call F)} {a : Int} {c : Call F}
    (hin : ∀ b ∈ config.workerId, ∀ d ∈ requests b, d.InRange s₀) (hc : c.InRange s₀) :
    ∀ b ∈ config.workerId, ∀ d ∈ Function.update requests a (requests a ++ [c]) b,
      d.InRange s₀ := by
  intro b hb d hd
  by_cases hba : b = a
  · subst hba
    rw [Function.update_self, List.mem_append, List.mem_singleton] at hd
    rcases hd with hd | rfl
    · exact hin b hb d hd
    · exact hc
  · rw [Function.update_of_ne hba] at hd
    exact hin b hb d hd

/-- A step keeps the invariant. -/
theorem Inv.step (hf : s₀.Fresh config) (hc : config.WorkersOk) (h : Inv config s₀ n)
    (hstep : Step config s₀ n n') : Inv config s₀ n' := by
  obtain ⟨st, q, hserver, hv, hin, hstage⟩ := h
  cases hstep with
  | @sendPull a request ha hp hin' =>
    refine ⟨st, q, hserver, hv, inRange_send hin hin', fun b hb ↦ ?_⟩
    simp only [Function.update_apply]
    split
    · subst b
      exact Stage.sendPull (hp ▸ hstage a ha) request
    · exact hstage b hb
  | @receive a m rest ha hp hm =>
    refine ⟨st, q, hserver, hv, hin, fun b hb ↦ ?_⟩
    simp only [Function.update_apply]
    split
    · subst b
      exact Stage.receive (hm ▸ hp ▸ hstage a ha)
    · exact hstage b hb
  | @sendPush a request ha hp hin' =>
    refine ⟨st, q, hserver, hv, inRange_send hin hin', fun b hb ↦ ?_⟩
    simp only [Function.update_apply]
    split
    · subst b
      exact Stage.sendPush (hp ▸ hstage a ha) request
    · exact hstage b hb
  | @serve a c rest s' r ha hcall hs =>
    have hin' : c.InRange s₀ := hin a ha c (by simp [hcall])
    obtain ⟨st', q', r', hserve, hstep⟩ := Server.serve_step hf hc hv hin'
    rw [hserver, hserve] at hs
    obtain ⟨rfl, rfl⟩ := Prod.mk.inj (Except.ok.inj hs)
    have hown : Stage a _ (n.phase a) (c :: rest) (n.replies a) (waiting a q) :=
      hcall ▸ hstage a ha
    refine ⟨st', q', rfl, hstep.valid hv hin', fun b hb d hd ↦ ?_, fun b hb ↦ ?_⟩
    · simp only [Function.update_apply] at hd
      split at hd
      · subst b
        exact hin a ha d (by simp [hcall, hd])
      · exact hin b hb d hd
    · simp only [Function.update_apply]
      split
      · subst b
        exact hown.serve_self hstep hv ha
      · rename_i hba
        exact (hstage b hb).serve_other hstep hv hb (hown.head.1 ▸ hba)

theorem Inv.reachable (hf : s₀.Fresh config) (hc : config.WorkersOk)
    (h : Relation.ReflTransGen (Step config s₀) (start s₀) n) : Inv config s₀ n := by
  induction h with
  | refl => exact inv_start hf hc
  | tail _ hstep ih => exact ih.step hf hc hstep

/-- **No update of a well-behaved agent is dropped.**  Whatever the interleaving, when the oldest
request of an agent is a push, the server finds the version buffer of the agent shorter than the
bound, and stores the update. -/
theorem push_never_overfilled {masterIpPort : String} {localId : Int}
    (h₀ : Server.initializeServer masterIpPort localId config = .ok s₀) (hc : config.WorkersOk)
    (hn : Relation.ReflTransGen (Step config s₀) (start s₀) n) {a : Int}
    (ha : a ∈ config.workerId) {request : RequestMessage F} {rest : List (Call F)}
    (hnext : n.requests a = .push a request :: rest) :
    ∃ buffer s' r, n.server.bufferOf a = .ok buffer ∧
      (buffer.length : Int) < n.server.consistencyBound ∧
      n.server.serve (.push a request) = .ok (s', r) ∧ r.outcome = .stored := by
  have hf := Server.initializeServer_fresh hc h₀
  have hpos := hc.bound
  obtain ⟨st, q, hserver, hv, hin, hstage⟩ := Inv.reachable hf hc hn
  have hroom : (st.pending a).length < config.bound.toNat :=
    Stage.head (hnext ▸ hstage a ha) |>.2 request rfl
  obtain ⟨st', q', r, hserve, hstep⟩ :=
    Server.serve_step hf hc hv (hin a ha _ (hnext ▸ List.mem_cons_self))
  rw [hserver]
  refine ⟨_, _, r, Server.bufferOf_ofRounds hf ha, ?_, hserve, ?_⟩
  · rw [show (s₀.ofRounds st q).consistencyBound = config.bound from hf.bound]
    omega
  · cases hstep with
    | pushUnknown hb => exact absurd ha hb
    | pushOverfilled hb hfull => omega
    | pushStored hb hroom' hn | pushCompletes hb hroom' hn => rfl

theorem push_never_overfilled_first :
    ∃ (s₀ : Server Int) (n : Network Int),
      Server.initializeServer "10.0.0.1:80" 1 Server.smallConfig = .ok s₀ ∧
      Relation.ReflTransGen (Step Server.smallConfig s₀) (start s₀) n ∧
      n.requests 3 = [.push 3 ⟨.keyValue, [2], [7]⟩] ∧
      ∃ s' r, n.server.serve (.push 3 ⟨.keyValue, [2], [7]⟩) = .ok (s', r) ∧
        r.outcome = .stored := by
  obtain ⟨s₀, s, h₀, hstart, hlen, hserve⟩ : ∃ s₀ s : Server Int,
      Server.initializeServer "10.0.0.1:80" 1 Server.smallConfig = .ok s₀ ∧ s₀.startKey = 0 ∧
      s₀.parameterLength = 4 ∧
      s₀.serve (.pull 3 ⟨.key, [2], []⟩) = .ok (s, ⟨.answered, [s₀.reply 3 [2] [0]]⟩) :=
    ⟨_, _, rfl, rfl, rfl, rfl⟩
  have hpull : (Call.pull 3 ⟨.key, [2], []⟩ : Call Int).InRange s₀ := by
    simp [Call.InRange, Server.Owns, hstart, hlen]
  have hpush : (Call.push 3 ⟨.keyValue, [2], [7]⟩ : Call Int).InRange s₀ := by
    simp [Call.InRange, Server.Owns, hstart, hlen]
  have h3 : (3 : Int) ∈ Server.smallConfig.workerId := by decide
  have hn := Relation.ReflTransGen.refl (a := start s₀) |>.tail (Step.sendPull h3 rfl hpull)
    |>.tail (Step.serve h3 rfl hserve) |>.tail (Step.receive h3 rfl rfl)
    |>.tail (Step.sendPush h3 rfl hpush)
  obtain ⟨buffer, s', r, -, -, hstored⟩ :=
    push_never_overfilled h₀ Server.smallConfig_workersOk hn h3 rfl
  exact ⟨s₀, _, h₀, hn, rfl, s', r, hstored⟩

end

end Network

end Rpscc
