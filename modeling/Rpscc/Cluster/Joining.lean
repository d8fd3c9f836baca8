import Mathlib.Algebra.Order.BigOperators.Group.Finset
import Mathlib.Data.Fintype.Card
import Rpscc.Cluster.Capacity
import Rpscc.Cluster.Heartbeats
import Rpscc.Cluster.Ownership
import Rpscc.Master.Book

/-!
# Joining the cluster

A server or an agent that starts registers with the master and waits for the configuration.  The
master counts them, and with the last one it draws the boundaries of the key space and tells
everybody.  `JoinNet` is all the nodes and the master, with the messages between them on their way;
the steps are interleaved in any order, so the nodes get their ids in any order, too.  Meanwhile
those that have joined send requests.

A step that the code does not come through is none.  A message has to fit into the buffers
(`Launch.room`), the ports have to be readable from the addresses (`Master.book`), and a node that
registers at another master than the one that leads is not heard of.  The command lines of a
`Cluster` see to all that.  And a node takes the first message it receives for the configuration,
so the runs are those in which no request overtakes it (`JoinNet.Orderly`).

`ConfigMessage.Announces` is what the nodes are told, and `ConfigMessage.Joined` what they make of
it: `Initialize` succeeds on a configuration that lists the node (`Announces.joined`).  The master
sends such a one when all nodes have registered (`JoinNet.Cluster.announces`), and it fits
(`JoinNet.Cluster.config_fits`).
-/

set_option autoImplicit false

namespace Rpscc

open Function (update)

variable {α F : Type}

/-- How far a node has got: it has not registered yet, it waits for the configuration, or
`Initialize` has returned and left the node like this. -/
inductive Joining (F : Type)
  | begin
  | waiting
  | joined (node : Node F)
  | failed (fault : Fault)

/-- The communicator of a node that sends. -/
def Node.sender : Node F → Communicator
  | .agent n => n.agent.sender
  | .server s => s.sender

/-- What a node is started with: its register message, the address of the master, and for an agent
the two blocks, which hold anything. -/
structure Joiner (F : Type) where
  host : RegisterMessage
  masterAddr : String
  gradients : Shmstruct F
  parameters : Shmstruct F

namespace Joiner

/-- The address that the master writes down for a node. -/
def address (p : Joiner F) : String := p.host.address

/-- What the node is. -/
def role (p : Joiner F) : Role := if p.host.isServer then .server else .agent

/-- The message that it registers with. -/
def registration (p : Joiner F) : Message F :=
  { sendId := -1, recvId := 0, messageType := .register, registerMsg := some p.host }

/-- The rest of `Initialize` of a node, from the message it receives on. -/
def initializeNode [FloatOps F] (p : Joiner F) (m : Message F) : Joining F :=
  if p.host.isServer then
    match Server.initializeServer p.masterAddr m.recvId (m.configMsg.getD .absent) with
    | .ok s => .joined (.server s)
    | .error fault => .failed fault
  else
    match Agent.initializeAgent p.masterAddr m.recvId (m.configMsg.getD .absent) p.gradients
        p.parameters with
    | .ok ag => .joined (.agent ⟨ag, ag.localId, none⟩)
    | .error fault => .failed fault

/-- A server that takes another message for the configuration gives up. -/
theorem initializeNode_absent [FloatOps F] {p : Joiner F} (hserver : p.host.isServer = true)
    {m : Message F} (hm : m.configMsg = none) :
    p.initializeNode m = .failed (.refused "backup_size_ is wrong") := by
  rw [initializeNode, if_pos hserver, hm]
  rfl

end Joiner

/-- What the processes are started with: the flags of the master, the list of the masters, the
address of the one that leads, and the size of the buffers of the servers. -/
structure Launch (α F : Type) where
  flags : Flags
  masters : List String
  lead : String
  maxClusterNode : Int
  bufferSize : ℕ
  joiner : α → Joiner F

/-- The size of the buffers of a node. -/
def Launch.buffer (l : Launch α F) (a : α) : ℕ := (l.joiner a).role.bufferSize l.bufferSize

/-- What fits into the smallest of the buffers fits into all. -/
theorem Launch.le_buffer {l : Launch α F} {k : ℕ} (h : k ≤ min 2048 l.bufferSize) (a : α) :
    k ≤ l.buffer a := by
  rw [buffer, Joiner.role]
  split
  · exact h.trans (min_le_right _ _)
  · exact h.trans (min_le_left _ _)

/-- The master, the nodes, the register messages on their way to the master, the messages it has
sent to the nodes, and all those that have arrived there. -/
structure JoinNet (α F : Type) where
  master : Master
  node : α → Joining F
  registers : α → List RegisterMessage
  wire : α → List (Message F)
  mail : α → List (Message F)

namespace JoinNet

/-- The messages that are sent to an address. -/
def mailTo (book : Communicator) (addr : String) (sent : List (Sent F)) : List (Message F) :=
  sent.filterMap fun s ↦ if book.idToAddr s.dst = some addr then some s.msg else none

/-- What can happen: a node registers, the master handles that, a message of the master arrives at a
node, the node receives it, or a request of `a` arrives at `b`. -/
inductive Event (α F : Type)
  | register (a : α)
  | handle (a : α)
  | arrive (a : α)
  | receive (a : α)
  | request (a b : α) (m : Message F)

/-- The event belongs to the start. -/
def Event.isStart : Event α F → Bool
  | .request _ _ _ => false
  | _ => true

/-- No request overtakes the configuration. -/
def Orderly (n : JoinNet α F) : Event α F → Prop
  | .request _ b _ => n.wire b = []
  | _ => True

variable [FloatOps F] [DecidableEq α]

/-- A step of a node or of the master. -/
inductive Step (l : Launch α F) : Event α F → JoinNet α F → JoinNet α F → Prop
  /-- Only the master that leads listens. -/
  | register {n : JoinNet α F} {a : α} (hbegin : n.node a = .begin)
      (hroom : (header 0).length + (l.joiner a).registration.wireSize ≤ l.buffer a) :
      Step l (.register a) n { n with
        node := update n.node a .waiting
        registers := if (l.joiner a).masterAddr = l.lead
          then update n.registers a (n.registers a ++ [(l.joiner a).host]) else n.registers }
  /-- The cluster is not ready yet, or the master comes to its end. -/
  | handle {n : JoinNet α F} {a : α} {r : Master.Registration} {rest : List RegisterMessage}
      {m' : Master} (hr : n.registers a = r.msg :: rest) (hrunning : n.master.terminated = false)
      (hroom : (l.joiner a).registration.wireSize ≤ Role.master.bufferSize l.bufferSize)
      (hdraw : n.master.config.DrawsOk r.draw) (hm : n.master.handle (F := F) r = .ok (m', none)) :
      Step l (.handle a) n { n with
        master := m'
        registers := update n.registers a rest }
  /-- It is, and everybody is told. -/
  | deliver {n : JoinNet α F} {a : α} {r : Master.Registration} {rest : List RegisterMessage}
      {m' : Master} {sent : List (Sent F)} {book : Communicator}
      (hr : n.registers a = r.msg :: rest) (hrunning : n.master.terminated = false)
      (hroom : (l.joiner a).registration.wireSize ≤ Role.master.bufferSize l.bufferSize)
      (hdraw : n.master.config.DrawsOk r.draw) (hm : n.master.handle r = .ok (m', some sent))
      (hbook : m'.book l.maxClusterNode = .ok book)
      (hfits : ∀ s ∈ sent, (header s.dst).length + s.msg.wireSize
        ≤ Role.master.bufferSize l.bufferSize) :
      Step l (.handle a) n { n with
        master := m'
        registers := update n.registers a rest
        wire := fun b ↦ n.wire b ++ mailTo book (l.joiner b).address sent }
  | arrive {n : JoinNet α F} {a : α} {m : Message F} {rest : List (Message F)}
      (hm : n.wire a = m :: rest) (hroom : m.wireSize ≤ l.buffer a) :
      Step l (.arrive a) n { n with
        wire := update n.wire a rest
        mail := update n.mail a (n.mail a ++ [m]) }
  | receive {n : JoinNet α F} {a : α} {m : Message F} {rest : List (Message F)}
      (hwaiting : n.node a = .waiting) (hm : n.mail a = m :: rest) :
      Step l (.receive a) n { n with
        node := update n.node a ((l.joiner a).initializeNode m)
        mail := update n.mail a rest }
  /-- A node that has joined sends to the nodes that it knows. -/
  | request {n : JoinNet α F} {a b : α} {node : Node F} {dst : Int} {m : Message F}
      (hjoined : n.node a = .joined node)
      (hknown : node.sender.idToAddr dst = some (l.joiner b).address)
      (htype : m.messageType = .request) :
      Step l (.request a b m) n { n with mail := update n.mail b (n.mail b ++ [m]) }

/-- Nobody has registered yet. -/
def start (l : Launch α F) : JoinNet α F where
  master := Master.initializeMaster l.flags l.masters
  node := fun _ ↦ .begin
  registers := fun _ ↦ []
  wire := fun _ ↦ []
  mail := fun _ ↦ []

/-- The events of a run from the start, and what it leads to. -/
inductive Run (l : Launch α F) : List (Event α F) → JoinNet α F → Prop
  | start : Run l [] (start l)
  | step {es : List (Event α F)} {n n' : JoinNet α F} {e : Event α F} (hrun : Run l es n)
      (horderly : n.Orderly e) (hstep : Step l e n n') : Run l (es ++ [e]) n'

omit [FloatOps F] [DecidableEq α] in
theorem Event.orderly {e : Event α F} (he : e.isStart = true) (n : JoinNet α F) : n.Orderly e := by
  cases e with
  | request _ _ _ => cases he
  | _ => trivial

theorem Run.tail {l : Launch α F} {es : List (Event α F)} {n n' : JoinNet α F} {e : Event α F}
    (hrun : Run l es n) (he : e.isStart = true) (hstep : Step l e n n') : Run l (es ++ [e]) n' :=
  hrun.step (e.orderly he n) hstep

end JoinNet

/-! ## What the nodes are told -/

/-- The configuration `c` lists the node `a` under the id `id a`, and nobody else, and has the
numbers of the command line of the master. -/
structure ConfigMessage.Announces (c : ConfigMessage) (f : Flags) (joiner : α → Joiner F)
    (id : α → ℕ) : Prop where
  pos : ∀ a, 0 < id a
  injective : Function.Injective id
  servers : ∀ a, (id a : Int) ∈ c.serverId ↔ (joiner a).host.isServer = true
  workers : ∀ a, (id a : Int) ∈ c.workerId ↔ (joiner a).host.isServer = false
  only : ∀ x ∈ c.serverId ++ c.workerId, ∃ a, x = id a
  address : ∀ a, c.nodeIpPort[id a]? = some (joiner a).address
  serversOk : c.ServersOk
  rangeFits : ∀ i < c.serverId.length, c.RangeFits i
  sorted : c.partition.Pairwise (· ≤ ·)
  workerNum : c.workerNum = c.workerId.length
  nodup : c.workerId.Nodup
  flags : Flags.mk c.workerNum c.serverNum c.keyRange c.bound c.backupSize = f

/-- A node `a` that has been initialised with its id.  A server knows the address of every node, an
agent those of the servers. -/
structure ConfigMessage.Joined [FloatOps F] (c : ConfigMessage) (joiner : α → Joiner F)
    (id : α → ℕ) (a : α) (node : Node F) : Prop where
  initialized : (joiner a).initializeNode (Master.configMessage c (id a)).msg = .joined node
  localId : node.id = id a
  follows : node.Follows c
  knows : ∀ b, (joiner a).host.isServer = true ∨ (joiner b).host.isServer = true →
    node.sender.idToAddr (id b) = some (joiner b).address

theorem Communicator.idToAddr_master (addr : String) {i : Int} (hi : i ≠ 0) :
    (Communicator.empty.addIdAddr 0 addr).idToAddr i = none := by
  rw [idToAddr_addIdAddr, if_neg hi]
  rfl

section Initialize

variable {f : Flags} {joiner : α → Joiner F} {c : ConfigMessage} {id : α → ℕ} {a : α}

theorem ConfigMessage.Announces.joined_server [FloatOps F] (h : c.Announces f joiner id)
    (hserver : (joiner a).host.isServer = true) :
    ∃ node, c.Joined joiner id a node := by
  obtain ⟨i, hi, hget⟩ := List.mem_iff_getElem.1 ((h.servers a).2 hserver)
  have hworkers : c.workerNum.toNat ≤ c.workerId.length := by
    rw [h.workerNum, Int.toNat_natCast]
  obtain ⟨s, hs⟩ := Server.initializeServer_ok (F := F) h.serversOk hworkers h.rangeFits
    (joiner a).masterAddr hi
  obtain ⟨-, hindex, hids, hstart, hlength⟩ :=
    Server.initializeServer_range h.serversOk.toRangesOk hi hs
  rw [hget] at hs
  obtain ⟨hlocal, hrange, hsender⟩ := Server.initializeServer_members hs
  refine ⟨.server s, ?_, hlocal, ⟨hids, hrange, ?_, ?_⟩, fun b _ ↦ ?_⟩
  · rw [Joiner.initializeNode, if_pos hserver]
    simp only [Master.configMessage, Option.getD_some, hs]
  · rw [hindex, hlocal, Checked.get_natCast (List.getElem?_eq_getElem hi), hget]
  · rw [hindex, hstart, hlength,
      Layout.rangeOf_eq h.serversOk.toRangesOk hi (h.rangeFits i hi)]
  · have hpos := h.pos b
    show s.sender.idToAddr (id b) = _
    rw [hsender]
    exact Server.idToAddr_addAddresses hpos (Communicator.idToAddr_master _ (by omega))
      (h.address b)

theorem ConfigMessage.Announces.joined_agent [FloatOps F] (h : c.Announces f joiner id)
    (hagent : (joiner a).host.isServer = false) :
    ∃ node, c.Joined joiner id a node := by
  have hnum := h.serversOk.serverNum
  have haddr : ∀ x ∈ c.serverId, ∃ addr, Checked.get c.nodeIpPort x = .ok addr := by
    intro x hx
    obtain ⟨b, rfl⟩ := h.only x (List.mem_append_left _ hx)
    exact ⟨_, Checked.get_natCast (h.address b)⟩
  obtain ⟨es, hfold, hes, hget⟩ :=
    Agent.addServers_ok (c := Communicator.empty.addIdAddr 0 (joiner a).masterAddr) hnum haddr
  have hpos : 0 < c.serverNum := lt_of_le_of_lt h.serversOk.backup_nonneg h.serversOk.backup_lt
  have hlen : (c.partition.length : Int) = c.serverNum := by
    rw [h.serversOk.partition, hnum]
  obtain ⟨p, hp, hrange, -, hvec⟩ := Partition.initializePartition_ok c.keyRange hpos hlen
  have hag : ∃ ag : Agent F, Agent.initializeAgent (joiner a).masterAddr (id a) c
      (joiner a).gradients (joiner a).parameters = .ok ag ∧ ag.localId = id a ∧
      ag.serverIds = c.serverId ∧ ag.keyRange = c.keyRange ∧ ag.partition = p ∧
      ag.sender = (Communicator.empty.addIdAddr 0 (joiner a).masterAddr).addAll es := by
    rw [Agent.initializeAgent, hfold, Checked.ok_bind, hp, Checked.ok_bind]
    exact ⟨_, rfl, rfl, rfl, rfl, rfl, rfl⟩
  obtain ⟨ag, hag, hlocal, hids, hkeys, hpart, hsender⟩ := hag
  refine ⟨.agent ⟨ag, ag.localId, none⟩, ?_, hlocal, ⟨hids, hkeys, ?_⟩, fun b hb ↦ ?_⟩
  · rw [Joiner.initializeNode, if_neg (by rw [hagent]; exact Bool.false_ne_true)]
    simp only [Master.configMessage, Option.getD_some, hag]
  · rw [hpart, hvec]
  · -- the address of a server is in the list, and of no other id before it
    have hserver : (id b : Int) ∈ c.serverId :=
      (h.servers b).2 (hb.resolve_left (by rw [hagent]; exact Bool.false_ne_true))
    rw [← hes, List.mem_map] at hserver
    obtain ⟨e, he, heq⟩ := hserver
    have haddr : e.2 = (joiner b).address := by
      have hok := hget e he
      rw [heq, Checked.get_natCast (h.address b)] at hok
      exact (Except.ok.inj hok).symm
    have hnodup : (es.map Prod.fst).Nodup := hes ▸ h.serversOk.nodup
    have hposb := h.pos b
    show ag.sender.idToAddr (id b) = _
    rw [hsender, Communicator.idToAddr_addAll, Communicator.idToAddr_master _ (by omega),
      Option.none_or, ← heq, ← haddr]
    exact Lists.lookup_of_mem hnodup he

/-- `Initialize` succeeds on a configuration that lists the node. -/
theorem ConfigMessage.Announces.joined [FloatOps F] (h : c.Announces f joiner id) (a : α) :
    ∃ node, c.Joined joiner id a node := by
  cases hkind : (joiner a).host.isServer with
  | true => exact h.joined_server hkind
  | false => exact h.joined_agent hkind

end Initialize


/-! ## The configuration of the whole cluster -/

namespace JoinNet

/-- Of the messages that deliver the configuration, a node gets the one for its id. -/
theorem mailTo_configMessage {book : Communicator} {addrs : List String}
    (hbook : ∀ i < addrs.length, book.idToAddr (i : ℕ) = addrs[i]?) {c : ConfigMessage} {k : ℕ}
    {addr : String} (hk : addrs[k]? = some addr) (hunique : ∀ i, addrs[i]? = some addr → i = k) :
    mailTo book addr ((List.range addrs.length).map (Master.configMessage (F := F) c))
      = [(Master.configMessage c k).msg] := by
  have hlt : k < addrs.length := (List.getElem?_eq_some_iff.1 hk).1
  have hiff : ∀ i ∈ List.range addrs.length, book.idToAddr i = some addr ↔ i = k := by
    intro i hi
    rw [hbook i (List.mem_range.1 hi)]
    exact ⟨hunique i, fun heq ↦ heq ▸ hk⟩
  have hfilter : (List.range addrs.length).filter
      (fun i : ℕ ↦ decide (book.idToAddr i = some addr)) = [k] := by
    refine Sorted.filter_eq_singleton List.nodup_range (List.mem_range.2 hlt) ?_ ?_
    · exact decide_eq_true ((hiff k (List.mem_range.2 hlt)).2 rfl)
    · exact fun i hi hp ↦ (hiff i hi).1 (of_decide_eq_true hp)
  have hmail : ∀ is : List ℕ, mailTo book addr (is.map (Master.configMessage (F := F) c))
      = (is.filter fun i : ℕ ↦ decide (book.idToAddr i = some addr)).map
          fun i ↦ (Master.configMessage c i).msg := by
    intro is
    rw [mailTo, List.filterMap_map, ← List.filterMap_eq_map', ← List.filterMap_eq_filter,
      List.filterMap_filterMap]
    refine List.filterMap_congr fun i _ ↦ ?_
    by_cases hi : book.idToAddr i = some addr
    · simp [Master.configMessage, Option.guard, hi]
    · simp [Master.configMessage, Option.guard, hi]
  rw [hmail, hfilter]
  rfl

end JoinNet

/-- What the message with the configuration takes at most: the addresses with four bytes each, and
ten for every id and every boundary. -/
def Launch.room [Fintype α] (l : Launch α F) : ℕ :=
  98 + (l.masters.map fun addr ↦ addr.utf8ByteSize + 14).sum
    + ∑ a, ((l.joiner a).address.utf8ByteSize + if (l.joiner a).host.isServer then 24 else 14)

namespace JoinNet

/-- The nodes are as many servers and agents as the command line of the master says, and each has
an address of its own, which no master has.  The master can draw boundaries, and no sum of them and
the key range overflows.  It leads; the ports can be read from all addresses; there are enough ids;
and the messages fit into the buffers. -/
structure Cluster [Fintype α] (l : Launch α F) : Prop where
  servers : ((Finset.univ.filter fun a ↦ (l.joiner a).host.isServer = true).card : Int)
    = l.flags.serverNum
  workers : ((Finset.univ.filter fun a ↦ (l.joiner a).host.isServer = false).card : Int)
    = l.flags.workerNum
  backup_nonneg : 0 ≤ l.flags.backupSize
  backup_lt : l.flags.backupSize < l.flags.serverNum
  keyRange : 3 ≤ l.flags.keyRange ∧ l.flags.keyRange ≤ 1073741824
  master : l.masters ≠ []
  lead : ∀ a, (l.joiner a).masterAddr = l.lead
  injective : Function.Injective fun a ↦ (l.joiner a).address
  not_master : ∀ a, (l.joiner a).address ∉ l.masters
  masterPort : ∀ addr ∈ l.masters, ∃ next, Master.heartbeatAddr addr = .ok next
  port : ∀ a, ∃ next, Master.heartbeatAddr (l.joiner a).address = .ok next
  small : (l.masters.length + Fintype.card α : ℕ) ≤ l.maxClusterNode
  int32 : l.maxClusterNode + (l.masters.length + Fintype.card α : ℕ) ≤ 2147483648
  registration : ∀ a, (header 0).length + (l.joiner a).registration.wireSize
    ≤ min 2048 l.bufferSize
  room : l.room ≤ min 2048 l.bufferSize

/-- The register messages that the master has handled. -/
def regsOf (joiner : α → Joiner F) (order : List α) : List RegisterMessage :=
  order.map fun a ↦ (joiner a).host

/-- The addresses, with those of the masters in front. -/
def addrsOf (l : Launch α F) (order : List α) : List String :=
  l.masters ++ (regsOf l.joiner order).map RegisterMessage.address

/-- The id of a node that has registered. -/
def idOf [DecidableEq α] (masters : List String) (order : List α) (a : α) : ℕ :=
  masters.length + order.idxOf a

variable [Fintype α] [DecidableEq α] {l : Launch α F} {f : Flags} {masters : List String}
  {joiner : α → Joiner F} {order : List α} {t : TaskConfig} {c : ConfigMessage} {id : α → ℕ}
  {n n' : JoinNet α F}

omit [Fintype α] [DecidableEq α] in
theorem length_addrsOf (l : Launch α F) (order : List α) :
    (addrsOf l order).length = l.masters.length + (regsOf l.joiner order).length := by
  rw [addrsOf, List.length_append, List.length_map]

theorem length_regsOf (hnodup : order.Nodup) (hall : ∀ a, a ∈ order) :
    (regsOf joiner order).length = Fintype.card α := by
  rw [regsOf, List.length_map, ← List.toFinset_card_of_nodup hnodup,
    Finset.eq_univ_of_forall fun b ↦ List.mem_toFinset.2 (hall b), Finset.card_univ]

theorem countP_regsOf (hnodup : order.Nodup) (hall : ∀ a, a ∈ order) (isServer : Bool) :
    ((regsOf joiner order).countP fun r ↦ r.isServer = isServer)
      = (Finset.univ.filter fun a ↦ (joiner a).host.isServer = isServer).card := by
  have huniv : order.toFinset = Finset.univ :=
    Finset.eq_univ_of_forall fun a ↦ List.mem_toFinset.2 (hall a)
  rw [regsOf, List.countP_map, List.countP_eq_length_filter,
    ← List.toFinset_card_of_nodup (hnodup.filter _), List.toFinset_filter, huniv]
  simp

theorem length_idsOf (hnodup : order.Nodup) (hall : ∀ a, a ∈ order) (k : ℕ) (isServer : Bool) :
    (TaskConfig.idsOf k isServer (regsOf joiner order)).length
      = (Finset.univ.filter fun a ↦ (joiner a).host.isServer = isServer).card := by
  rw [TaskConfig.length_idsOf, countP_regsOf hnodup hall]

/-- The cluster is ready when all nodes have registered. -/
theorem Cluster.ready_iff (h : Cluster l) (hnodup : order.Nodup)
    (hroster : TaskConfig.Roster l.flags l.masters (regsOf l.joiner order) t) :
    t.ready = true ↔ ∀ a, a ∈ order := by
  rw [hroster.ready_iff, ← h.servers, ← h.workers, Nat.cast_inj, Nat.cast_inj]
  constructor
  · rintro ⟨hservers, hworkers⟩
    have hlen : (regsOf l.joiner order).length = Fintype.card α := by
      have hcount := List.length_eq_countP_add_countP (l := regsOf l.joiner order)
        fun r ↦ decide (r.isServer = true)
      have hcard := Finset.card_filter_add_card_filter_not (s := Finset.univ)
        fun a ↦ (l.joiner a).host.isServer = true
      simp only [decide_eq_true_eq, Bool.not_eq_true] at hcount hcard
      rw [hcount, hservers, hworkers, hcard, Finset.card_univ]
    have hcard : order.toFinset.card = Fintype.card α := by
      rw [List.toFinset_card_of_nodup hnodup, ← hlen, regsOf, List.length_map]
    intro a
    rw [← List.mem_toFinset, Finset.card_eq_iff_eq_univ _ |>.1 hcard]
    exact Finset.mem_univ a
  · exact fun hall ↦ ⟨countP_regsOf hnodup hall true, countP_regsOf hnodup hall false⟩

omit [Fintype α] in
theorem getElem?_regsOf {a : α} (ha : a ∈ order) :
    (regsOf joiner order)[order.idxOf a]? = some (joiner a).host := by
  rw [regsOf, List.getElem?_map, List.getElem?_idxOf ha]
  rfl

/-- A node is the only one with its address. -/
theorem Cluster.address_iff (h : Cluster l) (hnodup : order.Nodup) {a : α} (ha : a ∈ order)
    (i : ℕ) : (addrsOf l order)[i]? = some (l.joiner a).address ↔ i = idOf l.masters order a := by
  rw [addrsOf]
  constructor
  · intro hi
    rcases lt_or_ge i l.masters.length with hlt | hge
    · rw [List.getElem?_append_left hlt] at hi
      exact absurd (List.mem_of_getElem? hi) (h.not_master a)
    · rw [List.getElem?_append_right hge, regsOf, List.map_map, List.getElem?_map,
        Option.map_eq_some_iff] at hi
      obtain ⟨b, hb, heq⟩ := hi
      obtain rfl : b = a := h.injective heq
      obtain ⟨hlt, rfl⟩ := List.getElem?_eq_some_iff.1 hb
      rw [idOf, hnodup.idxOf_getElem, Nat.add_sub_cancel' hge]
  · rintro rfl
    rw [idOf, List.getElem?_append_right (Nat.le_add_right ..), Nat.add_sub_cancel_left,
      List.getElem?_map, getElem?_regsOf ha]
    rfl

omit [Fintype α] in
/-- The id of a node is among those of its kind. -/
theorem idOf_mem_iff {a : α} (ha : a ∈ order) (isServer : Bool) :
    (idOf masters order a : Int)
        ∈ TaskConfig.idsOf masters.length isServer (regsOf joiner order)
      ↔ (joiner a).host.isServer = isServer := by
  rw [TaskConfig.mem_idsOf]
  constructor
  · rintro ⟨i, r, hr, hkind, heq⟩
    obtain rfl : i = order.idxOf a := by
      simp only [idOf] at heq
      omega
    rw [getElem?_regsOf ha] at hr
    exact Option.some.inj hr ▸ hkind
  · exact fun hkind ↦ ⟨order.idxOf a, _, getElem?_regsOf ha, hkind, rfl⟩

omit [Fintype α] in
/-- Only nodes that have registered have ids. -/
theorem exists_idOf (hnodup : order.Nodup) {isServer : Bool} {x : Int}
    (hx : x ∈ TaskConfig.idsOf masters.length isServer (regsOf joiner order)) :
    ∃ a, x = idOf masters order a := by
  obtain ⟨i, r, hr, -, rfl⟩ := TaskConfig.mem_idsOf.1 hx
  rw [regsOf, List.getElem?_map, Option.map_eq_some_iff] at hr
  obtain ⟨a, ha, -⟩ := hr
  obtain ⟨hlt, rfl⟩ := List.getElem?_eq_some_iff.1 ha
  exact ⟨order[i], by rw [idOf, hnodup.idxOf_getElem]⟩

/-- What the nodes are told when all of them have registered. -/
theorem Cluster.announces (h : Cluster l) (hnodup : order.Nodup) (hall : ∀ a, a ∈ order)
    (hroster : TaskConfig.Roster l.flags l.masters (regsOf l.joiner order) t) {draw : ℕ → Int}
    (hdraw : ∀ i < l.flags.serverNum.toNat, 1 ≤ draw i ∧ draw i ≤ l.flags.keyRange - 2)
    (hc : t.toMessage = .ok c)
    (hpart : c.partition = TaskConfig.drawnPartition l.flags.serverNum.toNat draw) :
    c.Announces l.flags l.joiner (idOf l.masters order) := by
  obtain ⟨c', hc', haddr, hservers, hworkers, -, -, hflags⟩ := hroster.toMessage_ok
  obtain rfl : c = c' := Except.ok.inj (hc.symm.trans hc')
  have hnum : c.serverNum = l.flags.serverNum ∧ c.workerNum = l.flags.workerNum ∧
      c.keyRange = l.flags.keyRange ∧ c.backupSize = l.flags.backupSize := by
    rw [← hflags]
    exact ⟨rfl, rfl, rfl, rfl⟩
  obtain ⟨hserverNum, hworkerNum, hkeyRange, hbackup⟩ := hnum
  have hlenS : (c.serverId.length : Int) = l.flags.serverNum := by
    rw [hservers, length_idsOf hnodup hall, h.servers]
  have hlenW : (c.workerId.length : Int) = l.flags.workerNum := by
    rw [hworkers, length_idsOf hnodup hall, h.workers]
  have hids : (c.serverId ++ c.workerId).Nodup := by
    rw [hservers, hworkers, ← hroster.serverId, ← hroster.agentId]
    exact hroster.numbered.nodup
  have hmasters : 0 < l.masters.length := List.length_pos_iff.2 h.master
  have hranges : c.RangesOk := by
    refine ⟨hserverNum.trans hlenS.symm, hids.of_append_left, ?_, fun b hb ↦ ?_⟩
    · rw [hpart, TaskConfig.length_drawnPartition, ← hlenS, Int.toNat_natCast]
    · rw [hpart, TaskConfig.mem_drawnPartition] at hb
      obtain ⟨i, hi, rfl⟩ := hb
      have hrange := hdraw i hi
      omega
  exact {
    pos := fun a ↦ Nat.add_pos_left hmasters _
    injective := fun a b heq ↦ (List.idxOf_inj (hall a)).1 (Nat.add_left_cancel heq)
    servers := fun a ↦ hservers ▸ idOf_mem_iff (hall a) true
    workers := fun a ↦ hworkers ▸ idOf_mem_iff (hall a) false
    only := by
      intro x hx
      rw [hservers, hworkers, List.mem_append] at hx
      exact hx.elim (exists_idOf hnodup) (exists_idOf hnodup)
    address := fun a ↦ haddr ▸ (h.address_iff hnodup (hall a) _).2 rfl
    serversOk := ⟨hranges, hbackup ▸ h.backup_nonneg, hbackup ▸ hserverNum ▸ h.backup_lt⟩
    rangeFits := fun i hi ↦
      ConfigMessage.rangeFits_of_le hranges (hkeyRange ▸ h.keyRange.2) hi
    sorted := hpart ▸ TaskConfig.drawnPartition_pairwise _ _
    workerNum := hworkerNum.trans hlenW.symm
    nodup := hids.of_append_right
    flags := hflags }

omit [DecidableEq α] in
/-- A cluster has a server, so somebody has to register. -/
theorem Cluster.nonempty (h : Cluster l) : Nonempty α := by
  have hpos : 0 < (Finset.univ.filter fun a ↦ (l.joiner a).host.isServer = true).card := by
    have hservers := h.servers
    have hnonneg := h.backup_nonneg
    have hlt := h.backup_lt
    omega
  obtain ⟨a, -⟩ := Finset.card_pos.1 hpos
  exact ⟨a⟩

omit [DecidableEq α] in
/-- The ports can be read from the addresses of the nodes that have registered. -/
theorem Cluster.addressed (h : Cluster l) (order : List α) :
    Master.Addressed l.masters (regsOf l.joiner order) := by
  intro addr haddr
  rcases List.mem_append.1 haddr with haddr | haddr
  · exact h.masterPort addr haddr
  · rw [regsOf, List.map_map, List.mem_map] at haddr
    obtain ⟨a, -, rfl⟩ := haddr
    exact h.port a

/-- The addresses of all nodes, and the ids and boundaries, as `Launch.room` counts them. -/
theorem room_eq (hnodup : order.Nodup) (hall : ∀ a, a ∈ order) :
    l.room = 98 + ((addrsOf l order).map fun addr ↦ addr.utf8ByteSize + 4).sum
      + 10 * (l.masters.length + (regsOf l.joiner order).length
        + (Finset.univ.filter fun a ↦ (l.joiner a).host.isServer = true).card) := by
  have hmasters : (l.masters.map fun addr ↦ addr.utf8ByteSize + 14).sum
      = (l.masters.map fun addr ↦ addr.utf8ByteSize + 4).sum + 10 * l.masters.length := by
    rw [Nat.mul_comm, ← smul_eq_mul, ← List.sum_replicate, ← List.map_const', ← List.sum_map_add]
  have hnodes : ((regsOf l.joiner order).map fun r ↦ r.address.utf8ByteSize + 4).sum
      = ∑ a, ((l.joiner a).address.utf8ByteSize + 4) := by
    rw [regsOf, List.map_map, ← Finset.eq_univ_of_forall fun a ↦ List.mem_toFinset.2 (hall a),
      List.sum_toFinset _ hnodup]
    rfl
  have hservers : ∑ a, (if (l.joiner a).host.isServer then 10 else 0)
      = 10 * (Finset.univ.filter fun a ↦ (l.joiner a).host.isServer = true).card := by
    rw [Finset.sum_ite, Finset.sum_const, Finset.sum_const_zero, smul_eq_mul, Nat.add_zero,
      Nat.mul_comm]
  have hsplit : ∑ a, ((l.joiner a).address.utf8ByteSize
        + if (l.joiner a).host.isServer then 24 else 14)
      = ∑ a, ((l.joiner a).address.utf8ByteSize + 4) + 10 * Fintype.card α
        + ∑ a, (if (l.joiner a).host.isServer then 10 else 0) := by
    rw [← Finset.card_univ, Nat.mul_comm, ← smul_eq_mul, ← Finset.sum_const,
      ← Finset.sum_add_distrib, ← Finset.sum_add_distrib]
    refine Finset.sum_congr rfl fun a _ ↦ ?_
    split <;> omega
  have haddrs : ((addrsOf l order).map fun addr ↦ addr.utf8ByteSize + 4).sum
      = (l.masters.map fun addr ↦ addr.utf8ByteSize + 4).sum
        + ∑ a, ((l.joiner a).address.utf8ByteSize + 4) := by
    rw [addrsOf, List.map_append, List.sum_append, List.map_map, ← hnodes]
    rfl
  rw [Launch.room, hmasters, hsplit, hservers, haddrs, length_regsOf hnodup hall]
  omega

/-- **The configuration fits** into the buffers, with the id of a node in front. -/
theorem Cluster.config_fits (h : Cluster l) (hnodup : order.Nodup) (hall : ∀ a, a ∈ order)
    (hroster : TaskConfig.Roster l.flags l.masters (regsOf l.joiner order) t) {draw : ℕ → Int}
    (hc : t.toMessage = .ok c)
    (hpart : c.partition = TaskConfig.drawnPartition l.flags.serverNum.toNat draw) {i : ℕ}
    (hi : i < (addrsOf l order).length) :
    (header i).length + (Master.configMessage (F := F) c i).msg.wireSize
      ≤ min 2048 l.bufferSize := by
  obtain ⟨c', hc', haddr, hservers, hworkers, hmasters, -, -⟩ := hroster.toMessage_ok
  obtain rfl : c = c' := Except.ok.inj (hc.symm.trans hc')
  have hroom := h.room
  have hsum := room_eq (l := l) hnodup hall
  have hlenS : c.serverId.length
      = (Finset.univ.filter fun a ↦ (l.joiner a).host.isServer = true).card := by
    rw [hservers, length_idsOf hnodup hall]
  have hlenP : c.partition.length
      = (Finset.univ.filter fun a ↦ (l.joiner a).host.isServer = true).card := by
    rw [hpart, TaskConfig.length_drawnPartition, ← h.servers, Int.toNat_natCast]
  have hlenN : c.serverId.length + c.workerId.length = (regsOf l.joiner order).length := by
    rw [hservers, hworkers, TaskConfig.length_idsOf, TaskConfig.length_idsOf,
      List.length_eq_countP_add_countP (l := regsOf l.joiner order) fun r ↦ r.isServer = true]
    simp only [decide_eq_true_eq, Bool.not_eq_true]
  have hbytes : (c.nodeIpPort.map fun addr ↦ Wire.block addr.utf8ByteSize).sum
      ≤ ((addrsOf l order).map fun addr ↦ addr.utf8ByteSize + 4).sum := by
    rw [haddr]
    refine List.sum_le_sum fun addr hmem ↦ Wire.block_le ?_
    have hle := List.single_le_sum (fun _ _ ↦ Nat.zero_le _) _
      (List.mem_map_of_mem (f := fun addr : String ↦ addr.utf8ByteSize + 4) hmem)
    have haddrs : addrsOf l order = l.masters ++ (regsOf l.joiner order).map
      RegisterMessage.address := rfl
    rw [haddrs] at hsum
    omega
  have hwire := ConfigMessage.wireSize_le (c := c) (by omega) (by omega) (by omega) (by omega)
  have hconfig := configSize_le (c := c) (by omega) i
  have hbig := h.int32
  have hsmall := h.small
  rw [length_addrsOf, length_regsOf hnodup hall] at hi
  have hheader : (header i).length ≤ 12 := length_header_le (by omega) (by omega)
  have hsize : (Master.configMessage (F := F) c i).msg.wireSize = configSize i c :=
    wireSize_config i c
  omega

end JoinNet

end Rpscc
