import Rpscc.Server.Reconfigure

/-!
# The two loops of a server

A server listens on two ports.  `Server.start` is one pass of the loop of `Server::Start`, which
reads the first one: a message of another server is about backups, and the others go by their type.
`Server.heartBeat` is one pass of the loop of `Server::HeartBeat`, which reads the second.
-/

set_option autoImplicit false

namespace Rpscc

/-- A configuration that is not there reads as an empty one. -/
def ConfigMessage.absent : ConfigMessage where
  workerNum := 0
  serverNum := 0
  keyRange := 0
  nodeIpPort := []
  partition := []
  backupSize := 0
  serverId := []
  workerId := []
  masterId := []
  bound := 0

namespace Server

variable {F : Type}

/-- One pass of the loop of `Server::HeartBeat`. -/
def heartBeat (s : Server F) (m : Message F) : Sent F :=
  ⟨0, { sendId := s.localId, recvId := m.sendId, messageType := .heartbeat,
        heartbeatMsg := some ⟨true, 0⟩ }⟩

variable [FloatOps F]

/-- One pass of the loop of `Server::Start`. -/
def start (s : Server F) (m : Message F) : Except Fault (Server F × List (Sent F)) :=
  if (s.servers m.sendId).isSome then
    if m.requestMsg.isSome then do
      let s ← s.backup m
      .ok (s, [])
    else do
      let reply ← s.respondBackup m.sendId
      .ok (s, [reply])
  else if m.messageType = .request then
    match Call.ofMessage m with
    | some call => do
      let r ← s.serve call
      .ok (r.1, r.2.sent)
    | none => .ok (s, [])
  else if m.messageType = .config then
    s.reconfigure (m.configMsg.getD .absent)
  else
    .ok (s, [])

/-- Whoever it is from, a heartbeat on the first port is not answered with one. -/
theorem start_heartbeat {s s' : Server F} {m : Message F} {sent : List (Sent F)}
    (htype : m.messageType = .heartbeat) (hrequest : m.requestMsg = none)
    (h : s.start m = .ok (s', sent)) : ∀ r ∈ sent, r.msg.messageType ≠ .heartbeat := by
  rw [start] at h
  split at h
  · rw [if_neg (by rw [hrequest]; exact Bool.noConfusion), Checked.bind_eq_ok] at h
    obtain ⟨reply, hreply, h⟩ := h
    cases h
    rw [respondBackup, Checked.bind_eq_ok] at hreply
    obtain ⟨values, -, hreply⟩ := hreply
    cases hreply
    intro r hr
    rw [List.mem_singleton.1 hr]
    exact MessageType.noConfusion
  · rw [if_neg (by rw [htype]; exact MessageType.noConfusion),
      if_neg (by rw [htype]; exact MessageType.noConfusion)] at h
    cases h
    exact fun r hr ↦ absurd hr List.not_mem_nil

end Server

end Rpscc
