import Rpscc.Master.Addresses

/-!
# What the master writes down

The ids of the nodes follow from the order in which they have registered: the masters come first,
and then every node has the next id, in the list of the servers or in that of the agents.  `Roster`
says so of a configuration; registering keeps it, and it determines what the nodes are told when the
cluster is ready and the ports can be read from all addresses (`roster_handle`).
-/

set_option autoImplicit false

namespace Rpscc

/-- The address of a node, as `AppendServer` and `AppendAgent` write it. -/
def RegisterMessage.address (r : RegisterMessage) : String := r.ip ++ ":" ++ toString r.port

namespace TaskConfig

/-- The ids of the servers among the nodes that have registered, or of the agents, when the first
node has got the id `first`. -/
def idsOf (first : ℕ) (isServer : Bool) (regs : List RegisterMessage) : List Int :=
  (regs.zipIdx first).filterMap fun e ↦ if e.1.isServer = isServer then some (e.2 : Int) else none

variable {first : ℕ} {isServer : Bool} {regs : List RegisterMessage}

@[simp] theorem idsOf_concat (first : ℕ) (isServer : Bool) (regs : List RegisterMessage)
    (r : RegisterMessage) : idsOf first isServer (regs ++ [r]) = idsOf first isServer regs
      ++ if r.isServer = isServer then [((first + regs.length : ℕ) : Int)] else [] := by
  rw [idsOf, idsOf, List.zipIdx_append, List.filterMap_append, Nat.add_comm first]
  split <;> simp [*]

@[simp, grind =] theorem mem_idsOf {id : Int} : id ∈ idsOf first isServer regs ↔
    ∃ (i : ℕ) (r : RegisterMessage), regs[i]? = some r ∧ r.isServer = isServer ∧
      id = (first + i : ℕ) := by
  rw [idsOf, List.mem_filterMap]
  constructor
  · rintro ⟨⟨r, k⟩, hmem, hid⟩
    obtain ⟨hle, hget⟩ := List.mem_zipIdx_iff_le_and_getElem?_sub.1 hmem
    split at hid
    · rename_i hkind
      refine ⟨k - first, r, hget, hkind, ?_⟩
      rw [← Option.some.inj hid, Nat.add_sub_cancel' hle]
    · cases hid
  · rintro ⟨i, r, hget, hkind, rfl⟩
    refine ⟨(r, first + i), List.mem_zipIdx_iff_le_and_getElem?_sub.2 ⟨Nat.le_add_right .., ?_⟩,
      if_pos hkind⟩
    rwa [Nat.add_sub_cancel_left]

@[simp, grind =] theorem length_idsOf (first : ℕ) (isServer : Bool) (regs : List RegisterMessage) :
    (idsOf first isServer regs).length = regs.countP fun r ↦ r.isServer = isServer := by
  induction regs using List.reverseRecOn with
  | nil => rfl
  | append_singleton regs r ih =>
    rw [idsOf_concat, List.length_append, ih, List.countP_append, List.countP_singleton]
    simp only [decide_eq_true_eq]
    split <;> rfl

/-- What a configuration holds when these nodes have registered, in this order, with a master that
has been started with the given flags and list of masters. -/
structure Roster (f : Flags) (masters : List String) (regs : List RegisterMessage)
    (t : TaskConfig) : Prop where
  numbered : t.Numbered
  addresses : t.idToAddr = numberAddrs (masters ++ regs.map RegisterMessage.address)
  serverId : t.serverId = idsOf masters.length true regs
  agentId : t.agentId = idsOf masters.length false regs
  masterId : t.masterId.length = masters.length
  flags : Flags.mk t.workerNum t.serverNum t.keyRange t.bound t.backupSize = f

variable {f : Flags} {masters : List String} {t : TaskConfig}

/-- The next address goes to the end. -/
theorem Numbered.idToAddr_appendAddr (hn : t.Numbered) {addrs : List String}
    (h : t.idToAddr = numberAddrs addrs) (addr : String) :
    (t.appendAddr addr).idToAddr = numberAddrs (addrs ++ [addr]) := by
  show Lists.assign t.idToAddr t.nodeId addr = _
  rw [Lists.assign_of_not_mem hn.not_mem, hn.nodeId, numberAddrs_concat, h, length_numberAddrs]

theorem roster_initializeMaster (f : Flags) (masters : List String) :
    Roster f masters [] (Master.initializeMaster f masters).config := by
  have hconfig : (Master.initializeMaster f masters).config.idToAddr = numberAddrs masters ∧
      (Master.initializeMaster f masters).config.serverId = [] ∧
      (Master.initializeMaster f masters).config.agentId = [] ∧
      (Master.initializeMaster f masters).config.masterId.length = masters.length ∧
      Flags.mk (Master.initializeMaster f masters).config.workerNum
        (Master.initializeMaster f masters).config.serverNum
        (Master.initializeMaster f masters).config.keyRange
        (Master.initializeMaster f masters).config.bound
        (Master.initializeMaster f masters).config.backupSize = f := by
    induction masters using List.reverseRecOn with
    | nil => exact ⟨rfl, rfl, rfl, rfl, rfl⟩
    | append_singleton masters ipPort ih =>
      have hconcat : (Master.initializeMaster f (masters ++ [ipPort])).config
          = (Master.initializeMaster f masters).config.appendMaster ipPort :=
        List.foldl_concat ..
      obtain ⟨haddr, hservers, hagents, hmasters, hflags⟩ := ih
      rw [hconcat]
      refine ⟨(numbered_initializeMaster f masters).idToAddr_appendAddr haddr ipPort, hservers,
        hagents, ?_, hflags⟩
      rw [List.length_append, ← hmasters]
      exact List.length_append
  obtain ⟨haddr, hservers, hagents, hmasters, hflags⟩ := hconfig
  refine ⟨numbered_initializeMaster f masters, ?_, hservers, hagents, hmasters, hflags⟩
  rw [haddr, List.map_nil, List.append_nil]

theorem Roster.nodeId (h : Roster f masters regs t) :
    t.nodeId = (masters.length + regs.length : ℕ) := by
  rw [h.numbered.nodeId, h.addresses, length_numberAddrs, List.length_append, List.length_map]

theorem Roster.appendServer (h : Roster f masters regs t) {r : RegisterMessage}
    (hr : r.isServer = true) : Roster f masters (regs ++ [r]) (t.appendServer r.ip r.port) where
  numbered := h.numbered.appendServer r.ip r.port
  addresses := by
    rw [List.map_append, ← List.append_assoc]
    exact h.numbered.idToAddr_appendAddr h.addresses r.address
  serverId := by
    rw [idsOf_concat, if_pos hr, ← h.serverId, ← h.nodeId]
    rfl
  agentId := by
    rw [idsOf_concat, if_neg (by simp [hr]), List.append_nil]
    exact h.agentId
  masterId := h.masterId
  flags := h.flags

theorem Roster.appendAgent (h : Roster f masters regs t) {r : RegisterMessage}
    (hr : r.isServer = false) : Roster f masters (regs ++ [r]) (t.appendAgent r.ip r.port) where
  numbered := h.numbered.appendAgent r.ip r.port
  addresses := by
    rw [List.map_append, ← List.append_assoc]
    exact h.numbered.idToAddr_appendAddr h.addresses r.address
  serverId := by
    rw [idsOf_concat, if_neg (by simp [hr]), List.append_nil]
    exact h.serverId
  agentId := by
    rw [idsOf_concat, if_pos hr, ← h.agentId, ← h.nodeId]
    rfl
  masterId := h.masterId
  flags := h.flags

theorem Roster.generatePartition (h : Roster f masters regs t) (draw : ℕ → Int) :
    Roster f masters regs (t.generatePartition draw) :=
  ⟨h.numbered.generatePartition draw, h.addresses, h.serverId, h.agentId, h.masterId, h.flags⟩

/-- The cluster is ready when there are as many servers and agents as the flags say. -/
theorem Roster.ready_iff (h : Roster f masters regs t) : t.ready = true ↔
    ((regs.countP fun r ↦ r.isServer = true : ℕ) : Int) = f.serverNum ∧
      ((regs.countP fun r ↦ r.isServer = false : ℕ) : Int) = f.workerNum := by
  rw [ready, decide_eq_true_eq, h.serverId, h.agentId, length_idsOf, length_idsOf, ← h.flags]

/-- What the nodes are told. -/
theorem Roster.toMessage_ok (h : Roster f masters regs t) : ∃ c, t.toMessage = .ok c ∧
    c.nodeIpPort = masters ++ regs.map RegisterMessage.address ∧
    c.serverId = idsOf masters.length true regs ∧ c.workerId = idsOf masters.length false regs ∧
    c.masterId.length = masters.length ∧ c.partition = t.partition ∧
    Flags.mk c.workerNum c.serverNum c.keyRange c.bound c.backupSize = f := by
  rw [toMessage, nodeIpPort_eq (.of_eq h.addresses), Checked.ok_bind]
  exact ⟨_, rfl, rfl, h.serverId, h.agentId, h.masterId, rfl, h.flags⟩

end TaskConfig

namespace Master

open TaskConfig (Roster)

variable {F : Type} {f : Flags} {masters : List String} {regs : List RegisterMessage} {m : Master}

/-- The message for one node. -/
def configMessage (c : ConfigMessage) (i : ℕ) : Sent F :=
  ⟨i, { sendId := 0, recvId := i, messageType := .config, configMsg := some c }⟩

theorem roster_processRegisterMsg (h : Roster f masters regs m.config) (r : RegisterMessage) :
    Roster f masters (regs ++ [r]) (m.processRegisterMsg r).config := by
  rw [processRegisterMsg]
  dsimp only
  split
  · rename_i hr
    exact h.appendServer hr
  · rename_i hr
    exact h.appendAgent (Bool.not_eq_true _ ▸ hr)

/-- `MainLoop` can work out all the addresses for the heartbeats. -/
def Addressed (masters : List String) (regs : List RegisterMessage) : Prop :=
  ∀ addr ∈ masters ++ regs.map RegisterMessage.address, ∃ next, heartbeatAddr addr = .ok next

theorem roster_addressed_iff (h : Roster f masters regs m.config) (r : RegisterMessage) :
    m.addressed r = true ↔ Addressed masters (regs ++ [r]) := by
  rw [addressed_iff, (roster_processRegisterMsg h r).addresses, Addressed]
  conv_rhs => rw [← TaskConfig.map_snd_numberAddrs (masters ++ _)]
  rw [List.forall_mem_map]

/-- A register message completes the cluster, and everybody is told, or it is only written down. -/
theorem roster_handle (h : Roster f masters regs m.config) (hnil : m.config.partition = [])
    (r : Registration) : ∃ m' sent, m.handle (F := F) r = .ok (m', sent) ∧
      Roster f masters (regs ++ [r.msg]) m'.config ∧
      ((m.processRegisterMsg r.msg).config.ready = false → sent = none ∧
        m'.config.partition = [] ∧ m'.terminated = m.terminated) ∧
      ((m.processRegisterMsg r.msg).config.ready = true → Addressed masters (regs ++ [r.msg]) →
        ∃ c, m'.config.toMessage = .ok c ∧
          c.partition = TaskConfig.drawnPartition f.serverNum.toNat r.draw ∧
          sent = some ((List.range (masters.length + (regs ++ [r.msg]).length)).map
            (configMessage c))) := by
  obtain ⟨m', sent, hreg, hsome, -, hterminated, hconfig, hn⟩ :=
    register_ok (F := F) h.numbered r.draw r.now r.msg
  have hroster := roster_processRegisterMsg h r.msg
  have hpart : (m.processRegisterMsg r.msg).config.partition = [] := by
    rw [(processRegisterMsg_config m r.msg).2.2.1, hnil]
  refine ⟨m', sent, hreg, ?_, fun hready ↦ ?_, fun hready haddr ↦ ?_⟩
  · rw [hconfig]
    split
    · exact hroster.generatePartition r.draw
    · exact hroster
  · rw [hready, Bool.false_and] at hsome
    rw [hready, Bool.false_and, Bool.or_false] at hterminated
    rw [hready, if_neg Bool.false_ne_true] at hconfig
    exact ⟨Option.isSome_eq_false_iff.1 hsome |> Option.isNone_iff_eq_none.1, hconfig ▸ hpart,
      hterminated⟩
  · rw [hready, (roster_addressed_iff h r.msg).2 haddr] at hsome
    rw [hready, if_pos rfl] at hconfig
    obtain ⟨c, hc, -, -, -, -, hparts, -⟩ := (hroster.generatePartition r.draw).toMessage_ok
    have hnum : (m.processRegisterMsg r.msg).config.serverNum = f.serverNum := by
      rw [← hroster.flags]
    refine ⟨c, hconfig ▸ hc, ?_, ?_⟩
    · rw [hparts, TaskConfig.generatePartition_partition hpart, hnum]
    · obtain ⟨rfl, -⟩ | ⟨rfl, -⟩ | ⟨msgs, rfl, hdeliver, -⟩ := register_cases hreg
      · cases hsome
      · cases hsome
      · have hlen : (m.drawn r.draw r.msg).config.idToAddr.length
            = masters.length + (regs ++ [r.msg]).length := by
          show (m.processRegisterMsg r.msg).config.idToAddr.length = _
          rw [hroster.addresses, TaskConfig.length_numberAddrs, List.length_append, List.length_map]
        rw [deliverConfig, hlen] at hdeliver
        have hc' : (m.drawn r.draw r.msg).config.toMessage = .ok c := hc
        rw [hc', Checked.ok_bind] at hdeliver
        rw [← Except.ok.inj hdeliver]
        rfl

end Master

end Rpscc
