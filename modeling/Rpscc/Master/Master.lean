import Rpscc.Lib.Decimal
import Rpscc.Master.TaskConfig

/-!
# The master

`Master` is the class of the same name, with the cases of `MainLoop` for the messages that concern
the cluster and the bodies of the two threads it starts when the cluster is ready:
`deliverHeartbeat` sends every node a heartbeat, with the configuration if that has changed, and
`detectDeadNode` takes out the nodes that have not been heard of for `heartbeat_timeout`.  The time
is an argument.  What is sent is returned as a list; `sender_` itself, which only knows addresses,
is left out.  Of the loop that enters the addresses into it `register` keeps the part that can go
wrong: the port of every address is read with `std::stoi`, because the one behind it is for the
heartbeats (`heartbeatAddr`).
-/

set_option autoImplicit false

namespace Rpscc

/-- `class Master`.  `aliveNode` holds for each node when it was last heard of, `detecting` says
that the two threads have been started, and `terminated` that the process has come to its end. -/
structure Master where
  config : TaskConfig
  aliveNode : List (Int × Int) := []
  detecting : Bool := false
  terminated : Bool := false
deriving DecidableEq, Repr

namespace Master

variable {F : Type}

/-- The constructor and `Master::Initialize`: the masters are the parts of `--master_ip_port`. -/
def initializeMaster (f : Flags) (masters : List String) : Master where
  config := masters.foldl TaskConfig.appendMaster (TaskConfig.initializeConfig f)

/-! ## Addresses -/

/-- An address up to the first colon. -/
def hostOf (addr : String) : String := String.ofList (addr.toList.takeWhile (· ≠ ':'))

/-- What stands between the first colon and the second, if there are any. -/
def portOf (addr : String) : List Char :=
  ((addr.toList.dropWhile (· ≠ ':')).drop 1).takeWhile (· ≠ ':')

/-- `ip + ":" + std::to_string(std::stoi(port) + 1)`. -/
def heartbeatAddr (addr : String) : Except Fault String := do
  let port ← Decimal.stoi (portOf addr)
  let next ← Checked.int32 (port + 1)
  .ok (hostOf addr ++ ":" ++ toString next)

/-- The addresses for the heartbeats, one for every entry of `id_to_addr_`. -/
def heartbeatAddrs (m : Master) : Except Fault (List String) :=
  m.config.idToAddr.mapM fun e ↦ heartbeatAddr e.2

/-- Host and port of `ip:port` are found again if the ip has no colon. -/
theorem hostOf_portOf_append {ip : String} (hip : ':' ∉ ip.toList) (port : Int) :
    hostOf (ip ++ ":" ++ toString port) = ip ∧
      portOf (ip ++ ":" ++ toString port) = (toString port).toList := by
  have hhost : ∀ c ∈ ip.toList, decide (c ≠ ':') = true := by
    intro c hc
    rw [decide_eq_true_eq]
    rintro rfl
    exact hip hc
  have hport : ∀ c ∈ (toString port).toList, decide (c ≠ ':') = true := by
    intro c hc
    rw [decide_eq_true_eq]
    rintro rfl
    exact absurd (Decimal.mem_toString hc) (by decide)
  have htext : (ip ++ ":" ++ toString port).toList
      = ip.toList ++ ':' :: (toString port).toList := by
    rw [String.toList_append, String.toList_append, List.append_assoc]
    rfl
  constructor
  · rw [hostOf, htext, List.takeWhile_append_of_pos hhost, List.takeWhile_cons_of_neg (by simp),
      List.append_nil, String.ofList_toList]
  · rw [portOf, htext, List.dropWhile_append_of_pos hhost, List.dropWhile_cons_of_neg (by simp)]
    exact List.takeWhile_eq_self_iff.2 hport

/-- **The next port**, for an ip without a colon and every port that has one behind it. -/
theorem heartbeatAddr_append {ip : String} (hip : ':' ∉ ip.toList) {port : Int}
    (hport : Checked.IsInt32 port) (hnext : Checked.IsInt32 (port + 1)) :
    heartbeatAddr (ip ++ ":" ++ toString port) = .ok (ip ++ ":" ++ toString (port + 1)) := by
  obtain ⟨hhost, htext⟩ := hostOf_portOf_append hip port
  rw [heartbeatAddr, htext, hhost, Decimal.stoi_toString hport, Checked.ok_bind,
    Checked.int32_of_isInt32 hnext, Checked.ok_bind]

example : heartbeatAddr "10.0.0.1" = .error .notANumber := rfl

/-! ## Registration -/

/-- `Master::ProcessRegisterMsg`. -/
def processRegisterMsg (m : Master) (r : RegisterMessage) : Master :=
  { m with
    config := if r.isServer then m.config.appendServer r.ip r.port
      else m.config.appendAgent r.ip r.port }

/-- `Master::DeliverConfig`. -/
def deliverConfig (m : Master) : Except Fault (List (Sent F)) := do
  let config ← m.config.toMessage
  .ok ((List.range m.config.idToAddr.length).map fun (i : ℕ) ↦
    ⟨i, { sendId := 0, recvId := i, messageType := .config, configMsg := some config }⟩)

/-- Every node has been heard of just now. -/
def fillAlive (m : Master) (now : Int) : Master :=
  { m with
    aliveNode := (List.range m.config.idToAddr.length).foldl
      (fun alive (i : ℕ) ↦ Lists.assign alive (i : Int) now) m.aliveNode }

/-- The case of `MainLoop` for a register message.  If the cluster is ready after it, the partition
is drawn, the addresses are entered, the configuration delivered, and the threads are started.  An
address without a port makes `std::stoi` throw, and nobody catches it; and a thread that is already
there is destroyed for the new one while it runs.  Both are `std::terminate`. -/
def register (m : Master) (draw : ℕ → Int) (now : Int) (r : RegisterMessage) :
    Except Fault (Master × Option (List (Sent F))) :=
  let m := m.processRegisterMsg r
  if m.config.ready then
    let m := { m with config := m.config.generatePartition draw }
    match m.heartbeatAddrs with
    | .error _ => .ok ({ m with terminated := true }, none)
    | .ok _ => do
      let sent ← m.deliverConfig
      if m.detecting then
        .ok ({ m with terminated := true }, some sent)
      else
        .ok ({ m.fillAlive now with detecting := true }, some sent)
  else
    .ok (m, none)

/-! ## Heartbeats -/

/-- `Master::ProcessHeartbeatMsg`, which also logs the address of the sender. -/
def processHeartbeatMsg (m : Master) (now : Int) (msg : Message F) : Except Fault Master :=
  match msg.heartbeatMsg with
  | none => .error .checkFailed
  | some heartbeat =>
    if heartbeat.isLive then
      .ok { m with
        aliveNode := Lists.assign m.aliveNode msg.sendId now
        config := (m.config.getIp msg.sendId).1 }
    else
      .error .checkFailed

/-- `Master::GetDeadNode`. -/
def getDeadNode (m : Master) (heartbeatTimeout now : Int) : List Int :=
  (m.aliveNode.filter fun e ↦ decide (e.2 + heartbeatTimeout < now)).map Prod.fst

/-- One pass of the loop of `Master::DetectDeadNode`. -/
def detectDeadNode (m : Master) (heartbeatTimeout now : Int) : Except Fault Master :=
  let dead := m.getDeadNode heartbeatTimeout now
  if dead = [] then .ok m
  else do
    let config := dead.foldl (fun t node ↦ (t.getIp node).1) m.config
    let config ← config.fixConfig dead
    .ok { m with config := config }

/-- The message of `DeliverHeartbeat`, once its receiver has been filled in. -/
def heartbeatMessage (config : Option ConfigMessage) (id : Int) : Message F where
  sendId := 0
  recvId := id
  messageType := .heartbeat
  configMsg := config
  heartbeatMsg := some ⟨true, 0⟩

/-- The two loops of `DeliverHeartbeat` that send the message. -/
def sendHeartbeat (maxClusterNode : Int) (t : TaskConfig) (config : Option ConfigMessage) :
    List (Sent F) :=
  (t.agentId.map fun id ↦ ⟨id + maxClusterNode, heartbeatMessage config id⟩)
    ++ t.serverId.map fun id ↦ ⟨id, heartbeatMessage config id⟩

/-- `Master::DeliverHeartbeat`. -/
def deliverHeartbeat (m : Master) (maxClusterNode : Int) :
    Except Fault (Master × List (Sent F)) :=
  if m.config.configChanged then do
    let config ← m.config.toMessage
    .ok ({ m with config := { m.config with configChanged := false } },
      sendHeartbeat maxClusterNode m.config (some config))
  else
    .ok (m, sendHeartbeat maxClusterNode m.config none)

end Master

end Rpscc
