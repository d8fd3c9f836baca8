import Rpscc.Agent.Agent
import Rpscc.Master.Detection
import Rpscc.Server.Start

/-!
# Heartbeats, from the master to the nodes

`DeliverHeartbeat` sends a heartbeat to every agent and server of the configuration; a configuration
that has changed travels with it.  Every node listens for requests on the port it has registered and
for heartbeats on the next one, and the master's address book has the second port of node `id` under
`id + max_cluster_node`.  The heartbeats for the agents go there.  Those for the servers go to `id`,
where `Server::Start` is waiting for something else.

An agent answers, and keeps a configuration for `Reconfigurate`, which `AgentWork` calls before it
looks at the next signal.  But `Reconfigurate` asks for one boundary more than there are.

The main result is `heartbeat_reaches_iff`: a heartbeat reaches its node, and what comes with it, if
the node is an agent and nothing comes with it.
-/

set_option autoImplicit false

namespace Rpscc

/-! ## The agent -/

/-- An agent with the thread of `HeartBeat`: the `send_id` that is set before its loop, and the
message that waits for `Reconfigurate`. -/
structure AgentNode (F : Type) where
  agent : Agent F
  heartbeatId : Int
  reconfigMsg : Option (Message F)

/-- `ExtractSubrange(0, num, ...)`: the first `num` elements, which have to be there. -/
def extractSubrange (xs : List Int) (num : Int) : Except Fault (List Int) :=
  if 0 ≤ num ∧ num ≤ xs.length then .ok (xs.take num.toNat) else .error .outOfRange

variable {F : Type}

/-- `Agent::Reconfigurate`, on the configuration of the message it has kept for `recvId`. -/
def Agent.reconfigurate (ag : Agent F) (recvId : Int) (config : ConfigMessage) :
    Except Fault (Agent F) := do
  let serverIds ← (List.range config.serverNum.toNat).mapM fun (i : ℕ) ↦
    Checked.get config.serverId i
  let partVec ← extractSubrange config.partition (config.serverNum + 1)
  let partition ← Partition.initializePartition config.keyRange config.serverNum partVec
  .ok { ag with
    localId := recvId
    agentNum := config.workerNum
    serverNum := config.serverNum
    keyRange := config.keyRange
    serverIds := serverIds
    masterIds := config.masterId
    sender := Server.refreshAddresses ag.sender config.nodeIpPort
    partition := partition
    epochNum := 0 }

namespace AgentNode

/-- One pass of the loop of `Agent::HeartBeat`. -/
def heartBeat (n : AgentNode F) (m : Message F) : AgentNode F × Sent F :=
  ({ n with reconfigMsg := if m.configMsg.isSome then some m else n.reconfigMsg },
    ⟨0, { sendId := n.heartbeatId, recvId := m.sendId, messageType := .heartbeat,
          heartbeatMsg := some ⟨true, n.agent.epochNum⟩ }⟩)

/-- What `AgentWork` does before it looks at a signal. -/
def checkReconfig (n : AgentNode F) : Except Fault (AgentNode F) :=
  match n.reconfigMsg with
  | none => .ok n
  | some m => do
    let agent ← n.agent.reconfigurate m.recvId (m.configMsg.getD .absent)
    .ok { n with agent := agent, reconfigMsg := none }

end AgentNode

/-! ## The nodes and their ports -/

/-- The two ports of a node. -/
inductive Port
  | requests | heartbeats
deriving DecidableEq, Repr

/-- Where the master's address book sends a message: to the port of its receiver, or to the next
one. -/
def Sent.port (maxClusterNode : Int) (s : Sent F) : Option Port :=
  if s.dst = s.msg.recvId then some .requests
  else if s.dst = s.msg.recvId + maxClusterNode then some .heartbeats
  else none

/-- A node of the cluster. -/
inductive Node (F : Type)
  | agent (n : AgentNode F)
  | server (s : Server F)

namespace Node

/-- `local_id_`. -/
def id : Node F → Int
  | .agent n => n.agent.localId
  | .server s => s.localId

/-- The master has the node in its list. -/
def Listed (t : TaskConfig) : Node F → Prop
  | .agent n => n.agent.localId ∈ t.agentId ∧ n.heartbeatId = n.agent.localId
  | .server s => s.localId ∈ t.serverId

/-- The node by the time it serves its next request. -/
def beforeRequest : Node F → Except Fault (Node F)
  | .agent n => do
    let n ← n.checkReconfig
    .ok (.agent n)
  | .server s => .ok (.server s)

/-- The servers, the key range and the boundaries are those of a configuration.  A server keeps no
boundaries but its own. -/
def Follows (config : ConfigMessage) : Node F → Prop
  | .agent n => n.agent.serverIds = config.serverId ∧ n.agent.keyRange = config.keyRange ∧
      n.agent.partition.partVec = config.partition
  | .server s => s.serverIds = config.serverId ∧ s.keyRange = config.keyRange ∧
      Checked.get config.serverId s.localIndex = .ok s.localId ∧
      Layout.rangeOf config s.localIndex = .ok (s.startKey, s.parameterLength)

variable [FloatOps F]

/-- What the code that reads a port does with a heartbeat.  An agent reads its first port only
inside `Pull`, which goes on waiting. -/
def receive : Node F → Port → Message F → Except Fault (Node F × List (Sent F))
  | .agent n, .requests, _ => .ok (.agent n, [])
  | .agent n, .heartbeats, m => .ok (.agent (n.heartBeat m).1, [(n.heartBeat m).2])
  | .server s, .requests, m => do
    let r ← s.start m
    .ok (.server r.1, r.2)
  | .server s, .heartbeats, m => .ok (.server s, [s.heartBeat m])

/-- A sign of life of the node `id`, for the master. -/
def SignOfLife (id : Int) (s : Sent F) : Prop :=
  s.dst = 0 ∧ s.msg.messageType = .heartbeat ∧ s.msg.sendId = id ∧
    ∃ heartbeat, s.msg.heartbeatMsg = some heartbeat ∧ heartbeat.isLive = true

/-- The message that `DeliverHeartbeat` sends for the node is answered with a sign of life, and a
configuration that comes with it is followed from the next request on. -/
def Reached (m : Master) (maxClusterNode : Int) (node : Node F) : Prop :=
  ∃ (m' : Master) (sent : List (Sent F)) (s : Sent F) (port : Port) (node' : Node F)
    (replies : List (Sent F)),
    m.deliverHeartbeat maxClusterNode = .ok (m', sent) ∧ s ∈ sent ∧ s.msg.recvId = node.id ∧
    s.port maxClusterNode = some port ∧ node.receive port s.msg = .ok (node', replies) ∧
    (∃ r ∈ replies, SignOfLife node.id r) ∧
    ∀ config, s.msg.configMsg = some config →
      ∃ node'', node'.beforeRequest = .ok node'' ∧ node''.Follows config

end Node

/-! ## The master -/

namespace Master

variable {m m' : Master}

/-- What holds of the master's lists after the cluster has become ready. -/
structure Settled (m : Master) : Prop where
  detecting : m.detecting = true
  distinct : m.config.Distinct
  length : m.terminated = false → (m.config.partition.length : Int) ≤ m.config.serverNum

theorem getIp_settled (h : m.Settled) (alive : List (Int × Int)) (id : Int) :
    Settled { m with aliveNode := alive, config := (m.config.getIp id).1 } := by
  rw [TaskConfig.getIp]
  split
  · exact ⟨h.detecting, h.distinct, h.length⟩
  · exact ⟨h.detecting, ⟨h.distinct.lt, h.distinct.nodup⟩, h.length⟩

/-- Looking up addresses only ever adds addresses. -/
theorem foldl_getIp_eq (ids : List Int) : ∀ t : TaskConfig, ∃ addrs,
    ids.foldl (fun t id ↦ (t.getIp id).1) t = { t with idToAddr := addrs } := by
  induction ids with
  | nil => exact fun t ↦ ⟨t.idToAddr, rfl⟩
  | cons id ids ih =>
    intro t
    have hfirst : ∃ addrs, (t.getIp id).1 = { t with idToAddr := addrs } := by
      rw [TaskConfig.getIp]
      split
      · exact ⟨t.idToAddr, rfl⟩
      · exact ⟨_, rfl⟩
    obtain ⟨addrs, hfirst⟩ := hfirst
    obtain ⟨addrs', hrest⟩ := ih { t with idToAddr := addrs }
    exact ⟨addrs', by rw [List.foldl_cons, hfirst, hrest]⟩

theorem Settled.watch {heartbeatTimeout : Int} {b : Beat F} {dead : List Int} (h : m.Settled)
    (hstep : m.watch heartbeatTimeout b = .ok (m', dead)) : m'.Settled := by
  obtain ⟨-, rfl⟩ | ⟨hlive, ⟨msg, now, rfl, rfl⟩ | ⟨r, sent, rfl, hreg⟩ | ⟨n, rfl, rfl⟩ |
    ⟨now, rfl, hpass⟩⟩ := watch_cases hstep
  · exact h
  · exact getIp_settled h _ _
  · have hdistinct := processRegisterMsg_distinct h.distinct r.msg
    obtain ⟨hnum, -, hpart, -⟩ := processRegisterMsg_config m r.msg
    obtain ⟨-, rfl⟩ | ⟨-, rfl⟩ | ⟨msgs, -, -, rfl⟩ := register_cases hreg
    · refine ⟨h.detecting, hdistinct, fun _ ↦ ?_⟩
      rw [hpart, hnum]
      exact h.length hlive
    · exact ⟨h.detecting, ⟨hdistinct.lt, hdistinct.nodup⟩, fun hnot ↦ absurd hnot Bool.noConfusion⟩
    · rw [h.detecting, if_pos rfl]
      exact ⟨h.detecting, ⟨hdistinct.lt, hdistinct.nodup⟩, fun hnot ↦ absurd hnot Bool.noConfusion⟩
  · exact ⟨h.detecting, ⟨h.distinct.lt, h.distinct.nodup⟩, h.length⟩
  · rw [detectDeadNode] at hpass
    dsimp only at hpass
    split at hpass
    · cases hpass
      exact h
    · rw [Checked.bind_eq_ok] at hpass
      obtain ⟨config, hfix, hpass⟩ := hpass
      cases hpass
      obtain ⟨addrs, haddrs⟩ := foldl_getIp_eq (m.getDeadNode heartbeatTimeout now) m.config
      rw [haddrs] at hfix
      have hw := TaskConfig.fixConfig_without (t := { m.config with idToAddr := addrs })
        h.distinct.nodup hfix
      refine ⟨h.detecting, hw.distinct ⟨h.distinct.lt, h.distinct.nodup⟩, fun _ ↦ ?_⟩
      rw [hw.serverNum]
      exact le_trans (Int.ofNat_le.2 hw.partition.length_le) (h.length hlive)

theorem ReadyAt.settled {f : Flags} {masters : List String} {now : Int}
    (h : ReadyAt F f masters m now) : m.Settled := by
  obtain ⟨hdet, -, -⟩ := h.spec
  obtain ⟨rs, m₀, tr, r, sent, hrun, hzero, hstep, rfl⟩ := h
  obtain ⟨_, _, hrun', hreg⟩ := registrations_ok (F := F) f masters rs
  rw [hrun] at hrun'
  cases hrun'
  obtain ⟨m₁, sent₁, hreg₁, hsome, -, hterm, hconfig, hn⟩ :=
    register_ok (F := F) hreg.numbered r.draw r.now r.msg
  rw [handle, hreg₁] at hstep
  cases hstep
  obtain ⟨hnum, -, hpart, -⟩ := processRegisterMsg_config m₀ r.msg
  have hready : (m₀.processRegisterMsg r.msg).config.ready = true :=
    (Bool.and_eq_true_iff.1 (hsome.symm.trans Option.isSome_some)).1
  refine ⟨hdet, hn.toDistinct, fun hlive ↦ ?_⟩
  -- nothing has been drawn before, since the process goes on
  have hnew : (m₀.detecting || m₀.terminated) = false := by
    have hdet₀ : m₀.detecting = false := (waiting_of_readies hrun hzero).detecting
    rw [hlive, eq_comm, Bool.or_eq_false_iff] at hterm
    rw [hdet₀, hterm.1]
    rfl
  have hlen := hreg.length
  rw [hnew, if_neg Bool.false_ne_true] at hlen
  rw [hready, if_pos rfl] at hconfig
  rw [TaskConfig.ready, decide_eq_true_eq, hnum] at hready
  rw [hconfig, TaskConfig.length_generatePartition, hpart, hlen, Nat.zero_add, hnum]
  show ((m₀.config.serverNum.toNat : ℕ) : Int) ≤ (m₀.processRegisterMsg r.msg).config.serverNum
  rw [hnum, ← hready.1, Int.toNat_natCast]

/-- In every run after the cluster has become ready. -/
theorem settled_run {f : Flags} {masters : List String} {start heartbeatTimeout : Int}
    (hready : ReadyAt F f masters m start) {beats : List (Beat F)}
    {tr : List (Beat F × List Int)}
    (hrun : Checked.run (watch heartbeatTimeout) m beats = .ok (m', tr)) : m'.Settled :=
  Checked.run_keeps (P := fun m _ ↦ m.Settled) (fun _ _ _ _ _ h hstep ↦ h.watch hstep)
    hready.settled hrun

end Master

/-! ## What reaches the nodes -/

namespace Node

variable {m : Master} {maxClusterNode : Int}

@[simp] theorem mem_sendHeartbeat {t : TaskConfig} {config : Option ConfigMessage} {s : Sent F} :
    s ∈ Master.sendHeartbeat maxClusterNode t config ↔
      (∃ id ∈ t.agentId, s = ⟨id + maxClusterNode, Master.heartbeatMessage config id⟩) ∨
        ∃ id ∈ t.serverId, s = ⟨id, Master.heartbeatMessage config id⟩ := by
  rw [Master.sendHeartbeat, List.mem_append, List.mem_map, List.mem_map]
  simp only [eq_comm]

/-- The message for an agent. -/
theorem message_agent {t : TaskConfig} (h : t.Distinct) {config : Option ConfigMessage} {s : Sent F}
    (hs : s ∈ Master.sendHeartbeat maxClusterNode t config) (hid : s.msg.recvId ∈ t.agentId) :
    s = ⟨s.msg.recvId + maxClusterNode, Master.heartbeatMessage config s.msg.recvId⟩ := by
  rcases mem_sendHeartbeat.1 hs with ⟨id, -, rfl⟩ | ⟨id, hserver, rfl⟩
  · rfl
  · exact absurd hid ((List.nodup_append'.1 h.nodup).2.2 hserver)

/-- The message for a server. -/
theorem message_server {t : TaskConfig} (h : t.Distinct) {config : Option ConfigMessage}
    {s : Sent F}
    (hs : s ∈ Master.sendHeartbeat maxClusterNode t config) (hid : s.msg.recvId ∈ t.serverId) :
    s = ⟨s.msg.recvId, Master.heartbeatMessage config s.msg.recvId⟩ := by
  rcases mem_sendHeartbeat.1 hs with ⟨id, hagent, rfl⟩ | ⟨id, -, rfl⟩
  · exact absurd hagent ((List.nodup_append'.1 h.nodup).2.2 hid)
  · rfl

/-- As long as the ports can be told apart, an agent is sent to on the second. -/
theorem port_agent (hmax : maxClusterNode ≠ 0) (config : Option ConfigMessage) (id : Int) :
    Sent.port (F := F) maxClusterNode ⟨id + maxClusterNode, Master.heartbeatMessage config id⟩
      = some .heartbeats := by
  have hne : ¬ id + maxClusterNode = id := fun heq ↦ hmax (add_eq_left.1 heq)
  exact (if_neg hne).trans (if_pos rfl)

/-- What `DeliverHeartbeat` sends. -/
theorem deliverHeartbeat_cases {m' : Master} {sent : List (Sent F)}
    (h : m.deliverHeartbeat maxClusterNode = .ok (m', sent)) :
    ∃ config, sent = Master.sendHeartbeat maxClusterNode m.config config ∧
      (m.config.configChanged = true → ∃ c, config = some c ∧ m.config.toMessage = .ok c) ∧
      (m.config.configChanged = false → config = none) := by
  rw [Master.deliverHeartbeat] at h
  split at h
  · rename_i hflag
    rw [Checked.bind_eq_ok] at h
    obtain ⟨c, hc, h⟩ := h
    cases h
    exact ⟨some c, rfl, fun _ ↦ ⟨c, rfl, hc⟩,
      fun hnot ↦ absurd (hflag.symm.trans hnot) Bool.noConfusion⟩
  · rename_i hflag
    cases h
    exact ⟨none, rfl, fun hnot ↦ absurd hnot hflag, fun _ ↦ rfl⟩

variable [FloatOps F]

/-- A server does not answer. -/
theorem not_reached_server (h : m.Settled) {s : Server F} (hs : s.localId ∈ m.config.serverId) :
    ¬ Reached m maxClusterNode (.server s) := by
  rintro
    ⟨m', sent, e, port, node', replies, hdeliver, he, hrecv, hport, hreceive, ⟨r, hr, hlife⟩, -⟩
  obtain ⟨config, rfl, -, -⟩ := deliverHeartbeat_cases hdeliver
  have heq := message_server h.distinct he (hrecv.symm ▸ hs)
  rw [heq] at hport hreceive
  have hport' : some Port.requests = some port := (if_pos rfl).symm.trans hport
  cases hport'
  rw [receive, Checked.bind_eq_ok] at hreceive
  obtain ⟨⟨s', replies'⟩, hstart, hreceive⟩ := hreceive
  cases hreceive
  exact Server.start_heartbeat rfl rfl hstart r hr hlife.2.1

/-- An agent that is sent a configuration asks for a boundary that is not there. -/
theorem not_reached_agent (h : m.Settled) (hlive : m.terminated = false)
    (hflag : m.config.configChanged = true) {n : AgentNode F}
    (hn : n.agent.localId ∈ m.config.agentId) (hmax : maxClusterNode ≠ 0) :
    ¬ Reached m maxClusterNode (.agent n) := by
  rintro ⟨m', sent, e, port, node', replies, hdeliver, he, hrecv, hport, hreceive, -, hfollow⟩
  obtain ⟨config, rfl, hconfig, -⟩ := deliverHeartbeat_cases hdeliver
  obtain ⟨c, rfl, hc⟩ := hconfig hflag
  have heq := message_agent h.distinct he (hrecv.symm ▸ hn)
  rw [heq] at hport hreceive hfollow
  rw [port_agent hmax] at hport
  cases hport
  cases hreceive
  obtain ⟨node'', hbefore, -⟩ := hfollow c rfl
  rw [beforeRequest, Checked.bind_eq_ok] at hbefore
  obtain ⟨n', hcheck, -⟩ := hbefore
  have hcheck' : (n.agent.reconfigurate e.msg.recvId c >>= fun agent ↦
      (.ok ⟨agent, n.heartbeatId, none⟩ : Except Fault (AgentNode F))) = .ok n' := hcheck
  rw [Checked.bind_eq_ok] at hcheck'
  obtain ⟨agent, hreconfig, -⟩ := hcheck'
  rw [Agent.reconfigurate, Checked.bind_eq_ok] at hreconfig
  obtain ⟨serverIds, -, hreconfig⟩ := hreconfig
  rw [Checked.bind_eq_ok] at hreconfig
  obtain ⟨partVec, hextract, -⟩ := hreconfig
  -- the master has at most as many boundaries as it counts servers
  have hlen : ¬ c.serverNum + 1 ≤ (c.partition.length : Int) := by
    rw [TaskConfig.toMessage, Checked.bind_eq_ok] at hc
    obtain ⟨addrs, -, hc⟩ := hc
    cases hc
    exact not_le.2 (Int.lt_add_one_of_le (h.length hlive))
  rw [extractSubrange, if_neg fun hle ↦ hlen hle.2] at hextract
  cases hextract

/-- An agent that is sent to on its first port does not answer either. -/
theorem not_reached_of_zero (h : m.Settled) {n : AgentNode F}
    (hn : n.agent.localId ∈ m.config.agentId) : ¬ Reached m 0 (.agent n) := by
  rintro ⟨m', sent, e, port, node', replies, hdeliver, he, hrecv, hport, hreceive, ⟨r, hr, -⟩, -⟩
  obtain ⟨config, rfl, -, -⟩ := deliverHeartbeat_cases hdeliver
  have heq := message_agent h.distinct he (hrecv.symm ▸ hn)
  rw [heq] at hport hreceive
  have hport' : some Port.requests = some port := (if_pos (add_zero _)).symm.trans hport
  cases hport'
  cases hreceive
  exact absurd hr List.not_mem_nil

/-- An agent that is only asked for a sign of life gives one. -/
theorem reached_agent (hmax : maxClusterNode ≠ 0) (hflag : m.config.configChanged = false)
    {n : AgentNode F} (hn : n.agent.localId ∈ m.config.agentId)
    (hid : n.heartbeatId = n.agent.localId) : Reached m maxClusterNode (.agent n) := by
  have hdeliver : m.deliverHeartbeat maxClusterNode
      = .ok (m, Master.sendHeartbeat (F := F) maxClusterNode m.config none) := by
    rw [Master.deliverHeartbeat, if_neg (by rw [hflag]; exact Bool.noConfusion)]
  refine ⟨m, _, _, .heartbeats, _, _, hdeliver, mem_sendHeartbeat.2 (.inl ⟨_, hn, rfl⟩), rfl,
    port_agent hmax none _, rfl, ⟨_, List.mem_singleton.2 rfl, rfl, rfl, hid, _, rfl, rfl⟩,
    fun config hconfig ↦ ?_⟩
  cases hconfig

/-- **Heartbeats reach the agents, and nothing else reaches anybody.**  In every state of the master
after the cluster has become ready, the heartbeat for a node of its lists is answered with a sign of
life, and a configuration that comes with it followed from the next request on, if and only if the
node is an agent, the configuration has not changed and the address book can tell the two ports
apart. -/
theorem heartbeat_reaches_iff {f : Flags} {masters : List String} {start heartbeatTimeout : Int}
    {m₀ : Master} (hready : Master.ReadyAt F f masters m₀ start) {beats : List (Master.Beat F)}
    {tr : List (Master.Beat F × List Int)}
    (hrun : Checked.run (Master.watch heartbeatTimeout) m₀ beats = .ok (m, tr))
    (hlive : m.terminated = false) (maxClusterNode : Int) {node : Node F}
    (hnode : node.Listed m.config) :
    Reached m maxClusterNode node ↔
      node.id ∈ m.config.agentId ∧ m.config.configChanged = false ∧ maxClusterNode ≠ 0 := by
  have h := Master.settled_run hready hrun
  cases node with
  | server s =>
    refine ⟨fun hreached ↦ absurd hreached (not_reached_server h hnode), fun hagent ↦ ?_⟩
    exact absurd hagent.1 ((List.nodup_append'.1 h.distinct.nodup).2.2 hnode)
  | agent n =>
    constructor
    · intro hreached
      have hmax : maxClusterNode ≠ 0 := by
        rintro rfl
        exact not_reached_of_zero h hnode.1 hreached
      refine ⟨hnode.1, ?_, hmax⟩
      cases hflag : m.config.configChanged with
      | false => rfl
      | true => exact absurd hreached (not_reached_agent h hlive hflag hnode.1 hmax)
    · exact fun hcond ↦ reached_agent hcond.2.2 hcond.2.1 hnode.1 hnode.2

/-- The agent of a small cluster is heard of. -/
theorem heartbeat_reaches_iff_agent : ∃ (m : Master) (n : AgentNode Int),
    Master.ReadyAt Int Master.smallFlags ["10.0.0.1:16666"] m 0 ∧ n.agent.localId = 2 ∧
    Reached m 10000 (.agent n) := by
  have hcluster : ∃ (m : Master) (c : ConfigMessage) (ag : Agent Int),
      Master.ReadyAt Int Master.smallFlags ["10.0.0.1:16666"] m 0 ∧ m.terminated = false ∧
      m.config.configChanged = false ∧ m.config.toMessage = .ok c ∧
      Agent.initializeAgent "10.0.0.1:16666" 2 c Agent.noPairs Agent.noPairs = .ok ag ∧
      ag.localId = 2 ∧ ag.localId ∈ m.config.agentId :=
    ⟨_, _, _, ⟨[Master.smallServer 1, Master.smallAgent 2], _, _, Master.smallServer 3, _, rfl, rfl,
      rfl, rfl⟩, rfl, rfl, rfl, rfl, rfl, by decide⟩
  obtain ⟨m, c, ag, hready, hlive, hflag, -, -, hid, hlisted⟩ := hcluster
  have hrun : Checked.run (Master.watch (F := Int) 10) m [] = .ok (m, []) := rfl
  have hnode : Listed m.config (.agent ⟨ag, 2, none⟩) := ⟨hlisted, hid.symm⟩
  exact ⟨m, ⟨ag, 2, none⟩, hready, hid,
    (heartbeat_reaches_iff hready hrun hlive 10000 hnode).2 ⟨hlisted, hflag, by decide⟩⟩

/-- A server of a small cluster is not reached, and neither is the agent once a node has been found
dead. -/
theorem heartbeat_misses_server : ∃ (m m' : Master) (c : ConfigMessage) (s : Server Int)
    (ag : Agent Int) (tr : List (Master.Beat Int × List Int)),
    Master.ReadyAt Int Master.smallFlags ["10.0.0.1:16666"] m 0 ∧ m.config.toMessage = .ok c ∧
    Server.initializeServer "10.0.0.1:16666" 1 c = .ok s ∧
    Agent.initializeAgent "10.0.0.1:16666" 2 c Agent.noPairs Agent.noPairs = .ok ag ∧
    s.localId ∈ m.config.serverId ∧ ¬ Reached m 10000 (.server s) ∧
    Checked.run (Master.watch 10) m [.heartbeat (Master.heartbeatFrom 1) 8,
      .heartbeat (Master.heartbeatFrom 2) 8, .detect 11] = .ok (m', tr) ∧
    ag.localId ∈ m'.config.agentId ∧ ¬ Reached m' 10000 (.agent ⟨ag, 2, none⟩) := by
  have hcluster : ∃ (m m' : Master) (c : ConfigMessage) (s : Server Int) (ag : Agent Int)
      (tr : List (Master.Beat Int × List Int)),
      Master.ReadyAt Int Master.smallFlags ["10.0.0.1:16666"] m 0 ∧ m.config.toMessage = .ok c ∧
      Server.initializeServer "10.0.0.1:16666" 1 c = .ok s ∧
      Agent.initializeAgent "10.0.0.1:16666" 2 c Agent.noPairs Agent.noPairs = .ok ag ∧
      s.localId ∈ m.config.serverId ∧
      Checked.run (Master.watch 10) m [.heartbeat (Master.heartbeatFrom 1) 8,
        .heartbeat (Master.heartbeatFrom 2) 8, .detect 11] = .ok (m', tr) ∧
      ag.localId ∈ m'.config.agentId ∧ m'.terminated = false ∧ m'.config.configChanged = true :=
    ⟨_, _, _, _, _, _, ⟨[Master.smallServer 1, Master.smallAgent 2], _, _, Master.smallServer 3, _,
      rfl, rfl, rfl, rfl⟩, rfl, rfl, rfl, by decide, rfl, by decide, rfl, rfl⟩
  obtain ⟨m, m', c, s, ag, tr, hready, hc, hs, hag, hserver, hrun, hagent, hlive, hflag⟩ := hcluster
  exact ⟨m, m', c, s, ag, tr, hready, hc, hs, hag, hserver,
    not_reached_server hready.settled hserver, hrun, hagent,
    not_reached_agent (n := ⟨ag, 2, none⟩) (Master.settled_run hready hrun) hlive hflag hagent
      (by decide)⟩

end Node

end Rpscc
