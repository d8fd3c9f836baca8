import Rpscc.Cluster.Channel
import Rpscc.Communication.Framing
import Rpscc.Communication.Receivers
import Rpscc.Lib.Wire
import Rpscc.Server.Ranges
import Rpscc.Server.Reconfigure
import Rpscc.Server.Requests

/-!
# Whether messages fit into the buffers

A communicator has buffers of `buffer_size_` bytes.  `Send` copies a message into one of them,
behind the id it is for, and adds it to a ring; `Produce` receives what comes in from the network
into another and adds that, and `Receive` fetches it into a third.  All of these are given the size
of the buffer, and none compares it with the length it copies.

`Traffic.step` logs these copies, each with the size of its buffer, while nodes build messages and
receive them.  How long a message is when it is serialised is a parameter, of which the wire format
of protocol buffers is assumed (`Message.wireSize`).  A push always fits (`Agent.push_fits`), and so
does the answer to a pull of a hundred keys (`Sending.small_servePull`), which is all that an agent
asks for (`Agent.sendPull_keys`).  But nothing limits the parameters of a server.  They take at
least five bytes each, and with too many of them the answer to a request for a backup is longer than
the buffer (`Sending.not_small_respondBackup`).  `Traffic.copies_fit_iff` says when everything fits.
-/

set_option autoImplicit false

namespace Rpscc

variable {F : Type}

/-! ## Serialised messages -/

/-- The number of a message type in `message.proto`. -/
def MessageType.number : MessageType → Int
  | .config => 0
  | .request => 1
  | .heartbeat => 2
  | .register => 3
  | .terminate => 4

/-- The number of a request type. -/
def RequestType.number : RequestType → Int
  | .keyValue => 0
  | .key => 1
  | .ack => 2
  | .block => 3

/-- The bytes of a request. -/
def RequestMessage.wireSize (r : RequestMessage F) : ℕ :=
  Wire.int32Field r.requestType.number + Wire.int32sField r.keys +
    Wire.blockField (4 * r.values.length)

/-- The bytes of a configuration. -/
def ConfigMessage.wireSize (c : ConfigMessage) : ℕ :=
  Wire.int32Field c.workerNum + Wire.int32Field c.serverNum + Wire.int32Field c.keyRange +
    (c.nodeIpPort.map fun addr ↦ Wire.block addr.utf8ByteSize).sum +
    Wire.int32sField c.partition + Wire.int32sField c.serverId + Wire.int32Field c.bound +
    Wire.int32sField c.workerId + Wire.int32sField c.masterId + Wire.int32Field c.backupSize

/-- The bytes of a heartbeat. -/
def HeartbeatMessage.wireSize (h : HeartbeatMessage) : ℕ :=
  Wire.boolField h.isLive + Wire.int32Field h.agentEpochNum

/-- The bytes of a registration. -/
def RegisterMessage.wireSize (r : RegisterMessage) : ℕ :=
  Wire.blockField r.ip.utf8ByteSize + Wire.int32Field r.port + Wire.boolField r.isServer

/-- The bytes of a message.  A sub-message that is there is written even if it is empty. -/
def Message.wireSize (m : Message F) : ℕ :=
  Wire.int32Field m.sendId + Wire.int32Field m.recvId + Wire.int32Field m.messageType.number +
    (m.configMsg.elim 0 fun c ↦ Wire.block c.wireSize) +
    (m.requestMsg.elim 0 fun r ↦ Wire.block r.wireSize) +
    (m.heartbeatMsg.elim 0 fun h ↦ Wire.block h.wireSize) +
    (m.registerMsg.elim 0 fun r ↦ Wire.block r.wireSize)

/-- The bytes of keys with a value each, from `sendId` to `recvId`. -/
def pairsSize (sendId recvId : Int) (keys : List Int) : ℕ :=
  Wire.int32Field sendId + Wire.int32Field recvId + 2 +
    Wire.block (Wire.int32sField keys + Wire.blockField (4 * keys.length))

/-- The bytes of the configuration `c` for node `recvId`. -/
def configSize (recvId : Int) (c : ConfigMessage) : ℕ :=
  Wire.int32Field recvId + Wire.block c.wireSize

theorem wireSize_pairs {keys : List Int} {values : List F} (h : values.length = keys.length)
    (sendId recvId : Int) :
    Message.wireSize { sendId := sendId, recvId := recvId, messageType := .request,
                       requestMsg := some ⟨.keyValue, keys, values⟩ }
      = pairsSize sendId recvId keys := by
  have hkeyValue : Wire.int32Field RequestType.keyValue.number = 0 := rfl
  have hrequest : Wire.int32Field MessageType.request.number = 2 := by decide
  simp only [Message.wireSize, RequestMessage.wireSize, Option.elim_none, Option.elim_some,
    Nat.add_zero, hkeyValue, hrequest, Nat.zero_add, h, pairsSize]

theorem wireSize_config (recvId : Int) (c : ConfigMessage) :
    Message.wireSize (F := F) { sendId := 0, recvId := recvId, messageType := .config,
                                configMsg := some c } = configSize recvId c := by
  have hzero : Wire.int32Field 0 = 0 := rfl
  have hconfig : Wire.int32Field MessageType.config.number = 0 := rfl
  simp only [Message.wireSize, Option.elim_none, Option.elim_some, Nat.add_zero, hzero, hconfig,
    Nat.zero_add, configSize]

/-- Every key takes at least a byte, and its value four. -/
theorem five_mul_le_wireSize {m : Message F} {r : RequestMessage F} (hm : m.requestMsg = some r)
    (h : r.values.length = r.keys.length) : 5 * r.keys.length ≤ m.wireSize := by
  have hkeys := Wire.length_le_int32sField r.keys
  have hvalues := Wire.le_blockField (4 * r.values.length)
  have hblock := Wire.le_block r.wireSize
  have hrequest : r.wireSize = Wire.int32Field r.requestType.number + Wire.int32sField r.keys +
    Wire.blockField (4 * r.values.length) := rfl
  rw [Message.wireSize, hm, Option.elim_some]
  omega

theorem five_mul_le_pairsSize (sendId recvId : Int) (keys : List Int) :
    5 * keys.length ≤ pairsSize sendId recvId keys := by
  have h := five_mul_le_wireSize (r := ⟨.keyValue, keys, keys⟩)
    (m := ⟨sendId, recvId, .request, none, some ⟨.keyValue, keys, keys⟩, none, none⟩) rfl rfl
  rwa [wireSize_pairs rfl] at h

/-- A key takes ten bytes at most, and everything around the pairs forty. -/
theorem pairsSize_le {keys : List Int} (h : keys.length ≤ 100000) (sendId recvId : Int) :
    pairsSize sendId recvId keys ≤ 14 * keys.length + 36 := by
  have hsend := Wire.int32Field_le sendId
  have hrecv := Wire.int32Field_le recvId
  have hkeys := Wire.int32sField_le (show keys.length ≤ 200000 by omega)
  have hvalues := Wire.blockField_le (n := 4 * keys.length) (by omega)
  have hblock := Wire.block_le
    (n := Wire.int32sField keys + Wire.blockField (4 * keys.length)) (by omega)
  rw [pairsSize]
  omega

/-- The bytes of a configuration, but for the addresses, at most. -/
theorem ConfigMessage.wireSize_le {c : ConfigMessage} (hpartition : c.partition.length ≤ 200000)
    (hservers : c.serverId.length ≤ 200000) (hworkers : c.workerId.length ≤ 200000)
    (hmasters : c.masterId.length ≤ 200000) :
    c.wireSize ≤ (c.nodeIpPort.map fun addr ↦ Wire.block addr.utf8ByteSize).sum + 71
      + 10 * (c.partition.length + c.serverId.length + c.workerId.length + c.masterId.length) := by
  have hworkerNum := Wire.int32Field_le c.workerNum
  have hserverNum := Wire.int32Field_le c.serverNum
  have hkeyRange := Wire.int32Field_le c.keyRange
  have hbound := Wire.int32Field_le c.bound
  have hbackup := Wire.int32Field_le c.backupSize
  have hpartition' := Wire.int32sField_le hpartition
  have hservers' := Wire.int32sField_le hservers
  have hworkers' := Wire.int32sField_le hworkers
  have hmasters' := Wire.int32sField_le hmasters
  rw [ConfigMessage.wireSize]
  omega

/-- With the id it is for, the tag and the length. -/
theorem configSize_le {c : ConfigMessage} (h : c.wireSize < 2097152) (recvId : Int) :
    configSize recvId c ≤ c.wireSize + 15 := by
  have hrecv := Wire.int32Field_le recvId
  have hblock := Wire.block_le h
  rw [configSize]
  omega

theorem length_header_le {id : Int} (hlow : -2147483648 ≤ id) (hhigh : id < 2147483648) :
    (header id).length ≤ 12 := by
  have h := length_print_lt hlow hhigh
  rw [length_header]
  omega

/-! ## Who sends what -/

/-- What a node is.  Masters and agents leave the size of their buffers at its default. -/
inductive Role
  | master | agent | server
deriving DecidableEq, Repr

/-- `buffer_size_`, with the flag `--buffer_size` of the servers. -/
def Role.bufferSize (flag : ℕ) : Role → ℕ
  | .master | .agent => 2048
  | .server => flag

/-- The calls in which a node builds messages from what it holds. -/
inductive Sending (F : Type)
  | respondBackup (s : Server F) (serverId : Int)
  | servePull (s : Server F) (senderId : Int) (request : RequestMessage F)
  | push (ag : Agent F) (int32 : ∀ id ∈ ag.serverIds, -2147483648 ≤ id ∧ id < 2147483648)
  | deliverConfig (m : Master)

namespace Sending

/-- The node that does it. -/
def role : Sending F → Role
  | .respondBackup _ _ | .servePull _ _ _ => .server
  | .push _ _ => .agent
  | .deliverConfig _ => .master

/-- The messages. -/
def sent : Sending F → Except Fault (List (Sent F))
  | .respondBackup s serverId => do
    let reply ← s.respondBackup serverId
    .ok [reply]
  | .servePull s senderId request => do
    let r ← s.servePull senderId request
    .ok r.2.sent
  | .push ag _ => do
    let r ← ag.push
    .ok r.2
  | .deliverConfig m => m.deliverConfig

end Sending

/-- A pull of `senderId` is answered at once. -/
def Server.Answers (s : Server F) (senderId : Int) : Prop :=
  ∃ i buffer, s.idToIndex senderId = some i ∧ Checked.get s.versionBuffer i = .ok buffer ∧
    sizeAtLeast buffer.length s.consistencyBound = false

/-- The keys of a server. -/
def Server.ownKeys (s : Server F) : List Int :=
  (List.range s.parameterLength.toNat).map fun (i : ℕ) ↦ s.startKey + i

/-- The call has few enough keys, or nodes, for its messages to fit. -/
def Sending.Small (flag : ℕ) : Sending F → Prop
  | .respondBackup s serverId =>
    (header serverId).length + pairsSize s.localId serverId s.ownKeys ≤ flag
  | .servePull s senderId request =>
    s.Answers senderId →
      (header senderId).length + pairsSize s.localId senderId request.keys ≤ flag
  | .push _ _ => True
  | .deliverConfig m =>
    ∀ c, m.config.toMessage = .ok c → ∀ i < m.config.idToAddr.length,
      (header i).length + configSize i c ≤ 2048

/-! ## How long the messages are -/

@[simp] theorem Server.length_ownKeys (s : Server F) :
    s.ownKeys.length = s.parameterLength.toNat := by
  rw [ownKeys, List.length_map, List.length_range]

theorem Server.respondBackup_size {s : Server F} {serverId : Int} {m : Sent F}
    (h : s.respondBackup serverId = .ok m) :
    m.dst = serverId ∧ m.msg.wireSize = pairsSize s.localId serverId s.ownKeys := by
  rw [respondBackup, Checked.bind_eq_ok] at h
  obtain ⟨values, hvalues, h⟩ := h
  cases h
  have hlen := Checked.length_of_mapM_ok hvalues
  rw [List.length_range, ← s.length_ownKeys] at hlen
  exact ⟨rfl, wireSize_pairs hlen _ _⟩

/-- A pull that is answered is answered with one message, and any other with none. -/
theorem Server.servePull_size {s s' : Server F} {senderId : Int} {request : RequestMessage F}
    {r : Response F} (h : s.servePull senderId request = .ok (s', r)) :
    (¬ s.Answers senderId ∧ r.sent = []) ∨ (s.Answers senderId ∧ ∃ m, r.sent = [m] ∧
      m.dst = senderId ∧ m.msg.wireSize = pairsSize s.localId senderId request.keys) := by
  obtain ⟨hindex, -, rfl⟩ |
    ⟨i, buffer, hindex, hbuffer, ⟨hfull, -, rfl⟩ | ⟨hroom, values, hvalues, -, rfl⟩⟩ :=
    servePull_branches h
  · refine .inl ⟨?_, rfl⟩
    rintro ⟨j, buffer', hj, -, -⟩
    exact absurd (hindex.symm.trans hj) (by simp)
  · refine .inl ⟨?_, rfl⟩
    rintro ⟨j, buffer', hj, hbuffer', hroom⟩
    obtain rfl : i = j := Option.some.inj (hindex.symm.trans hj)
    obtain rfl : buffer = buffer' := Except.ok.inj (hbuffer.symm.trans hbuffer')
    exact absurd (hfull.symm.trans hroom) (by simp)
  · exact .inr ⟨⟨i, buffer, hindex, hbuffer, hroom⟩, _, rfl, rfl,
      wireSize_pairs (Checked.length_of_mapM_ok hvalues) _ _⟩

/-- The keys are cut into blocks for servers that are there. -/
theorem serverId_mem_of_splitKeys {p : Partition} {serverIds keys : List Int} :
    ∀ {fuel start : ℕ} {blocks : List Block},
      splitKeys p serverIds keys fuel start = .ok blocks → ∀ b ∈ blocks, b.serverId ∈ serverIds
  | 0, start, blocks, h => by
    rw [splitKeys] at h
    split at h
    · cases h
    · cases h
      exact fun b hb ↦ absurd hb List.not_mem_nil
  | fuel + 1, start, blocks, h => by
    rw [splitKeys] at h
    split at h
    · rw [Checked.bind_eq_ok] at h
      obtain ⟨r, -, h⟩ := h
      rw [Checked.bind_eq_ok] at h
      obtain ⟨serverId, hget, h⟩ := h
      rw [Checked.bind_eq_ok] at h
      obtain ⟨rest, hrest, h⟩ := h
      cases h
      exact List.forall_mem_cons.2 ⟨List.mem_of_getElem? (Checked.get_eq_ok_iff.1 hget).2,
        serverId_mem_of_splitKeys hrest⟩
    · cases h
      exact fun b hb ↦ absurd hb List.not_mem_nil

/-- **A push fits.**  There is room for a hundred pairs in the shared memory. -/
theorem Agent.push_fits {ag ag' : Agent F} {sent : List (Sent F)}
    (hids : ∀ id ∈ ag.serverIds, -2147483648 ≤ id ∧ id < 2147483648)
    (h : ag.push = .ok (ag', sent)) {m : Sent F} (hm : m ∈ sent) :
    (header m.dst).length + m.msg.wireSize ≤ 2048 := by
  rw [push, Checked.bind_eq_ok] at h
  obtain ⟨g, -, h⟩ := h
  rw [Checked.bind_eq_ok] at h
  obtain ⟨blocks, hblocks, h⟩ := h
  cases h
  obtain ⟨b, hb, rfl⟩ := List.mem_map.1 hm
  obtain ⟨hlow, hhigh⟩ := hids _ (serverId_mem_of_splitKeys hblocks b hb)
  have hheader := length_header_le hlow hhigh
  have hkeys : (Sorted.slice g.keys b.start b.stop).length ≤ 100 := by
    rw [Sorted.length_slice, g.length_keys]
    omega
  have hlen : (Sorted.slice g.values b.start b.stop).length
      = (Sorted.slice g.keys b.start b.stop).length := by
    rw [Sorted.length_slice, Sorted.length_slice, g.length_values, g.length_keys]
  have hsize := pairsSize_le (hkeys.trans (by omega)) ag.localId b.serverId
  rw [pushMessage]
  dsimp only
  rw [wireSize_pairs hlen]
  omega

/-- An agent asks for a hundred keys at most. -/
theorem Agent.sendPull_keys {ag : Agent F} {w : Agent.Pulling F} {sent : List (Sent F)}
    (h : ag.sendPull = .ok (w, sent)) {m : Sent F} (hm : m ∈ sent) :
    ∃ r, m.msg.requestMsg = some r ∧ r.keys.length ≤ 100 := by
  rw [sendPull, Checked.bind_eq_ok] at h
  obtain ⟨g, -, h⟩ := h
  rw [Checked.bind_eq_ok] at h
  obtain ⟨blocks, -, h⟩ := h
  cases h
  obtain ⟨b, -, rfl⟩ := List.mem_map.1 hm
  refine ⟨_, rfl, ?_⟩
  dsimp only
  rw [Sorted.length_slice, g.length_keys]
  omega

theorem Master.deliverConfig_size {master : Master} {sent : List (Sent F)} {c : ConfigMessage}
    (hc : master.config.toMessage = .ok c) (h : master.deliverConfig = .ok sent) :
    sent.map (fun m ↦ (m.dst, m.msg.wireSize)) =
      (List.range master.config.idToAddr.length).map fun (i : ℕ) ↦ ((i : Int), configSize i c) := by
  rw [deliverConfig, hc, Checked.ok_bind] at h
  cases h
  rw [List.map_map]
  refine List.map_congr_left fun i _ ↦ ?_
  exact congrArg (Prod.mk (i : Int)) (wireSize_config i c)

/-! ## When a call is small enough -/

namespace Sending

/-- The messages of a call fit into the buffer of the sender exactly if the call is small. -/
theorem fits_iff {c : Sending F} {sent : List (Sent F)} (h : c.sent = .ok sent) (flag : ℕ) :
    (∀ m ∈ sent, (header m.dst).length + m.msg.wireSize ≤ c.role.bufferSize flag) ↔
      c.Small flag := by
  cases c with
  | respondBackup s serverId =>
    rw [Sending.sent, Checked.bind_eq_ok] at h
    obtain ⟨m, hm, h⟩ := h
    cases h
    obtain ⟨hdst, hsize⟩ := Server.respondBackup_size hm
    rw [List.forall_mem_singleton, hdst, hsize]
    rfl
  | servePull s senderId request =>
    rw [Sending.sent, Checked.bind_eq_ok] at h
    obtain ⟨⟨s', r⟩, hr, h⟩ := h
    cases h
    rcases Server.servePull_size hr with ⟨hnot, hsent⟩ | ⟨hanswers, m, hsent, hdst, hsize⟩
    · rw [hsent]
      exact ⟨fun _ hanswers ↦ absurd hanswers hnot, fun _ m hm ↦ absurd hm List.not_mem_nil⟩
    · rw [hsent, List.forall_mem_singleton, hdst, hsize]
      exact ⟨fun hfits _ ↦ hfits, fun hsmall ↦ hsmall hanswers⟩
  | push ag hids =>
    rw [Sending.sent, Checked.bind_eq_ok] at h
    obtain ⟨⟨ag', sent'⟩, hpush, h⟩ := h
    cases h
    exact ⟨fun _ ↦ trivial, fun _ m hm ↦ Agent.push_fits hids hpush hm⟩
  | deliverConfig master =>
    cases hc : master.config.toMessage with
    | error e =>
      rw [Sending.sent, Master.deliverConfig, hc] at h
      cases h
    | ok config =>
      have hsizes := Master.deliverConfig_size hc h
      have hmap := List.forall_mem_map (l := sent) (f := fun m ↦ (m.dst, m.msg.wireSize))
        (P := fun e ↦ (header e.1).length + e.2 ≤ 2048)
      rw [hsizes, List.forall_mem_map] at hmap
      constructor
      · intro hfits config' hc' i hi
        rw [hc] at hc'
        cases hc'
        exact hmap.2 hfits i (List.mem_range.2 hi)
      · intro hsmall
        exact hmap.1 fun i hi ↦ hsmall config hc i (List.mem_range.1 hi)

/-- The answer to a pull of up to a hundred keys fits. -/
theorem small_servePull {flag : ℕ} (hflag : 2048 ≤ flag) (s : Server F) {senderId : Int}
    (hlow : -2147483648 ≤ senderId) (hhigh : senderId < 2147483648) {request : RequestMessage F}
    (hkeys : request.keys.length ≤ 100) : (servePull s senderId request).Small flag := by
  intro _
  have hheader := length_header_le hlow hhigh
  have hsize := pairsSize_le (hkeys.trans (by omega)) s.localId senderId
  omega

/-- So do the parameters of a server, if there are fourteen bytes for each. -/
theorem small_respondBackup {flag : ℕ} {s : Server F} {serverId : Int}
    (hlow : -2147483648 ≤ serverId) (hhigh : serverId < 2147483648)
    (hmany : s.parameterLength.toNat ≤ 100000)
    (hfits : 14 * s.parameterLength.toNat + 48 ≤ flag) : (respondBackup s serverId).Small flag := by
  have hheader := length_header_le hlow hhigh
  rw [← s.length_ownKeys] at hmany
  have hsize := pairsSize_le hmany s.localId serverId
  rw [s.length_ownKeys] at hsize
  rw [Small]
  omega

/-- They do not, if there are not five. -/
theorem not_small_respondBackup {flag : ℕ} {s : Server F} (hmany : flag < 5 * s.parameterLength)
    (serverId : Int) : ¬ (respondBackup s serverId).Small flag := by
  have hsize := five_mul_le_pairsSize s.localId serverId s.ownKeys
  rw [s.length_ownKeys] at hsize
  rw [Small]
  omega

end Sending

/-! ## The copies -/

/-- A copy: how many bytes, and how many the buffer has. -/
structure Copy where
  len : Int
  capacity : ℕ
deriving DecidableEq, Repr

/-- The length is between zero and that of the buffer. -/
def Copy.Fits (c : Copy) : Prop := 0 ≤ c.len ∧ c.len ≤ c.capacity

/-- `Send` does not write behind its buffer exactly if the copy fits. -/
theorem send_ok_iff_fits {n : ℕ} {mixMessage : Buffer n} {dstId : Int} {message : Bytes}
    (hroom : (header dstId).length < n) :
    (∃ added, send mixMessage dstId message = .ok added) ↔
      Copy.Fits ⟨((header dstId).length + message.length : ℕ), n⟩ := by
  rw [send_ok_iff hroom, Copy.Fits]
  dsimp only
  omega

/-- `Produce` does not read behind its buffer exactly if the copy fits. -/
theorem added_ok_iff_fits (s : ProduceStatics) :
    (∃ m, s.added = .ok m) ↔ Copy.Fits ⟨s.len, s.message.length⟩ := by
  rw [ProduceStatics.added, Copy.Fits]
  split
  · rename_i hfits
    exact ⟨fun _ ↦ hfits, fun _ ↦ ⟨_, rfl⟩⟩
  · rename_i hnot
    constructor
    · rintro ⟨m, hm⟩
      cases hm
    · exact fun hfits ↦ absurd hfits hnot

/-- What becomes of a call of `zmq_recv`: it fails, or a message of so many bytes has come in. -/
inductive Arrival
  | failed
  | arrived (len : ℕ)
deriving DecidableEq, Repr

/-- What `ZmqSendRecv::Receive` returns, which is what `zmq_recv` returns: the length of the message
even if it had to be cut off, and `-1` for an error. -/
def Arrival.msgSize : Arrival → Int
  | .failed => -1
  | .arrived len => len

@[simp] theorem Arrival.fits_iff (a : Arrival) (capacity : ℕ) :
    Copy.Fits ⟨a.msgSize, capacity⟩ ↔ ∃ len, a = .arrived len ∧ len ≤ capacity := by
  cases a with
  | failed =>
    have hneg : ¬ (0 : Int) ≤ -1 := by decide
    refine ⟨fun hfits ↦ absurd hfits.1 hneg, ?_⟩
    rintro ⟨len, hlen, -⟩
    cases hlen
  | arrived len =>
    constructor
    · intro hfits
      exact ⟨len, rfl, Int.ofNat_le.1 hfits.2⟩
    · rintro ⟨len', hlen', hle⟩
      cases hlen'
      exact ⟨Int.natCast_nonneg _, Int.ofNat_le.2 hle⟩

/-- A communicator that receives, at a node of a kind. -/
structure Receiver where
  role : Role
  number : ℕ
deriving DecidableEq, Repr

namespace Traffic

/-- Something that copies messages. -/
inductive Event (F : Type)
  /-- Messages are built and handed to `Send`. -/
  | send (c : Sending F)
  /-- A pass of `Produce`. -/
  | produce (r : Receiver) (a : Arrival)
  /-- A call of `Receive`. -/
  | receive (r : Receiver)

/-- The lengths in the rings after `Add` at receiver `r`.  From the length `-1` it does not come
back: there is no array of that length, and the process ends. -/
def add (rings : Receiver → List Int) (r : Receiver) : Arrival → Receiver → List Int
  | .failed => rings
  | .arrived len => Function.update rings r (rings r ++ [(len : Int)])

/-- The copies that an event makes, and the lengths that are in the rings of the receivers after it.
On an empty ring `Receive` blocks. -/
def step (flag : ℕ) (size : Message F → ℕ) (rings : Receiver → List Int) :
    Event F → Except Fault ((Receiver → List Int) × List Copy)
  | .send c => do
    let sent ← c.sent
    .ok (rings, sent.map fun m ↦
      ⟨((header m.dst).length + size m.msg : ℕ), c.role.bufferSize flag⟩)
  | .produce r a =>
    .ok (add rings r a, [⟨a.msgSize, r.role.bufferSize flag⟩])
  | .receive r =>
    match rings r with
    | [] => .ok (rings, [])
    | len :: rest => .ok (Function.update rings r rest, [⟨len, r.role.bufferSize flag⟩])

/-- Nothing has been received. -/
def start : Receiver → List Int := fun _ ↦ []

/-- A call is small, and `zmq_recv` neither fails nor finds a message longer than the buffer. -/
def Event.Meets (flag : ℕ) : Event F → Prop
  | .send c => c.Small flag
  | .produce r a => ∃ len, a = .arrived len ∧ len ≤ r.role.bufferSize flag
  | .receive _ => True

/-- What is in the rings fits into the buffers it will be fetched into. -/
def RingsFit (flag : ℕ) (rings : Receiver → List Int) : Prop :=
  ∀ r, ∀ len ∈ rings r, Copy.Fits ⟨len, r.role.bufferSize flag⟩

variable {flag : ℕ} {size : Message F → ℕ} {rings rings' : Receiver → List Int}

theorem RingsFit.update (h : RingsFit flag rings) {r : Receiver} {lens : List Int}
    (hr : ∀ len ∈ lens, Copy.Fits ⟨len, r.role.bufferSize flag⟩) :
    RingsFit flag (Function.update rings r lens) := by
  intro r' len hlen
  by_cases heq : r' = r
  · subst heq
    rw [Function.update_self] at hlen
    exact hr len hlen
  · rw [Function.update_of_ne heq] at hlen
    exact h r' len hlen

/-- The copies of an event fit exactly if it meets its condition, and if they do the rings stay as
they should be. -/
theorem step_fits (hsize : ∀ m, size m = m.wireSize) (h : RingsFit flag rings) {e : Event F}
    {copies : List Copy} (hstep : step flag size rings e = .ok (rings', copies)) :
    ((∀ c ∈ copies, c.Fits) ↔ e.Meets flag) ∧ ((∀ c ∈ copies, c.Fits) → RingsFit flag rings') := by
  cases e with
  | send c =>
    rw [step, Checked.bind_eq_ok] at hstep
    obtain ⟨sent, hsent, hstep⟩ := hstep
    cases hstep
    refine ⟨?_, fun _ ↦ h⟩
    rw [List.forall_mem_map, Event.Meets, ← Sending.fits_iff hsent]
    refine forall₂_congr fun m _ ↦ ?_
    rw [Copy.Fits, hsize]
    dsimp only
    omega
  | produce r a =>
    cases hstep
    rw [List.forall_mem_singleton]
    refine ⟨a.fits_iff _, fun hfits ↦ ?_⟩
    cases a with
    | failed => exact h
    | arrived n =>
      refine h.update fun len hlen ↦ ?_
      rcases List.mem_append.1 hlen with hlen | hlen
      · exact h r len hlen
      · rwa [List.mem_singleton.1 hlen]
  | receive r =>
    rw [step] at hstep
    split at hstep
    · cases hstep
      exact ⟨⟨fun _ ↦ trivial, fun _ c hc ↦ absurd hc List.not_mem_nil⟩, fun _ ↦ h⟩
    · rename_i len rest hring
      cases hstep
      have hr := h r
      rw [hring, List.forall_mem_cons] at hr
      rw [List.forall_mem_singleton]
      exact ⟨⟨fun _ ↦ trivial, fun _ ↦ hr.1⟩, fun _ ↦ h.update hr.2⟩

/-- **Everything fits exactly if every call is small and every reception succeeds.**  Let the nodes
build messages and receive messages, from each other or from anywhere, in any order.  All copies of
the run are within their buffers if and only if no server answers with too many pairs, no master
delivers too long a configuration, and no call of `zmq_recv` fails or finds a message that is longer
than the buffer of the receiver. -/
theorem copies_fit_iff (hsize : ∀ m, size m = m.wireSize) {events : List (Event F)}
    {trace : List (Event F × List Copy)}
    (hrun : Checked.run (step flag size) start events = .ok (rings, trace)) :
    (∀ p ∈ trace, ∀ c ∈ p.2, c.Fits) ↔ ∀ e ∈ events, e.Meets flag := by
  have hinv : ((∀ p ∈ trace, ∀ c ∈ p.2, c.Fits) ↔ ∀ p ∈ trace, p.1.Meets flag) ∧
      ((∀ p ∈ trace, ∀ c ∈ p.2, c.Fits) → RingsFit flag rings) := by
    refine Checked.run_keeps (P := fun rings trace ↦
      ((∀ p ∈ trace, ∀ c ∈ p.2, c.Fits) ↔ ∀ p ∈ trace, p.1.Meets flag) ∧
        ((∀ p ∈ trace, ∀ c ∈ p.2, c.Fits) → RingsFit flag rings)) ?_ ?_ hrun
    · rintro rings trace e rings' copies ⟨hiff, hrings⟩ hstep
      simp only [List.forall_mem_append, List.forall_mem_singleton]
      constructor
      · constructor
        · rintro ⟨hbefore, hlast⟩
          exact ⟨hiff.1 hbefore, (step_fits hsize (hrings hbefore) hstep).1.1 hlast⟩
        · rintro ⟨hbefore, hlast⟩
          have hbefore' := hiff.2 hbefore
          exact ⟨hbefore', (step_fits hsize (hrings hbefore') hstep).1.2 hlast⟩
      · rintro ⟨hbefore, hlast⟩
        exact (step_fits hsize (hrings hbefore) hstep).2 hlast
    · exact ⟨⟨fun _ p hp ↦ absurd hp List.not_mem_nil, fun _ p hp ↦ absurd hp List.not_mem_nil⟩,
        fun _ r len hlen ↦ absurd hlen List.not_mem_nil⟩
  have hevents := Checked.run_map_fst hrun
  rw [hinv.1, ← hevents, List.forall_mem_map]

/-- An agent pushes two pairs, the server receives them and fetches them. -/
theorem copies_fit_iff_push : ∃ (ag : Agent Int)
    (hids : ∀ id ∈ ag.serverIds, -2147483648 ≤ id ∧ id < 2147483648)
    (rings : Receiver → List Int) (trace : List (Event Int × List Copy)),
    Agent.initializeAgent "10.0.0.1:80" 2 Channel.smallConfig
      (.ofPairs 0 [(0, 7), (1, 8)] (by decide)) Agent.noPairs = .ok ag ∧
    Checked.run (step 2048 Message.wireSize) start
      [.send (.push ag hids), .produce ⟨.server, 0⟩ (.arrived 25), .receive ⟨.server, 0⟩]
        = .ok (rings, trace) ∧
    ((∀ p ∈ trace, ∀ c ∈ p.2, c.Fits) ↔
      ∀ e ∈ [Event.send (.push ag hids), .produce ⟨.server, 0⟩ (.arrived 25),
        .receive ⟨.server, 0⟩], e.Meets 2048) := by
  obtain ⟨ag, hag, hserver, sent, hpush⟩ : ∃ ag : Agent Int,
      Agent.initializeAgent "10.0.0.1:80" 2 Channel.smallConfig
        (.ofPairs 0 [(0, 7), (1, 8)] (by decide)) Agent.noPairs = .ok ag ∧ ag.serverIds = [1] ∧
      ∃ r, ag.push = .ok r := ⟨_, rfl, rfl, _, rfl⟩
  have hids : ∀ id ∈ ag.serverIds, -2147483648 ≤ id ∧ id < 2147483648 := by
    rw [hserver]
    decide
  have hsent : (Sending.push ag hids).sent = .ok sent.2 := by
    rw [Sending.sent, hpush, Checked.ok_bind]
  obtain ⟨rings, trace, hrun⟩ : ∃ rings trace, Checked.run (step 2048 Message.wireSize) start
      [.send (.push ag hids), .produce ⟨.server, 0⟩ (.arrived 25), .receive ⟨.server, 0⟩]
        = .ok (rings, trace) := by
    rw [Checked.run, step, hsent, Checked.ok_bind, Checked.ok_bind]
    exact ⟨_, _, rfl⟩
  exact ⟨ag, hids, rings, trace, hag, hrun, copies_fit_iff (fun _ ↦ rfl) hrun⟩

/-- Two servers for a thousand keys. -/
def thousandKeys : ConfigMessage :=
  { Channel.smallConfig with
    serverNum := 2
    keyRange := 1000
    nodeIpPort := ["10.0.0.1:80", "10.0.0.2:80", "10.0.0.3:80", "10.0.0.4:80"]
    partition := [0, 500]
    backupSize := 1
    serverId := [1, 2]
    workerId := [3] }

/-- Server `1` has five hundred keys, and just after the start it is asked for a backup.  Its answer
takes more than two thousand five hundred bytes. -/
theorem backup_overflows :
    (∀ (m : Message Int) (r : RequestMessage Int), m.requestMsg = some r →
      r.values.length = r.keys.length → 5 * r.keys.length ≤ m.wireSize) ∧
    (∃ (s : Server Int) (trace : List (Event Int × List Copy)),
      Server.initializeServer "10.0.0.1:80" 1 thousandKeys = .ok s ∧
      Checked.run (step 2048 Message.wireSize) start [.send (.respondBackup s 2)]
        = .ok (start, trace) ∧
      ∃ p ∈ trace, ∃ c ∈ p.2, c.capacity = 2048 ∧ 2500 ≤ c.len ∧ ¬ c.Fits) ∧
    Checked.run (step 2048 Message.wireSize) start [.produce ⟨.agent, 0⟩ .failed]
      = .ok (start, [((.produce ⟨.agent, 0⟩ .failed : Event Int), [⟨-1, 2048⟩])]) ∧
    ¬ Copy.Fits ⟨-1, 2048⟩ := by
  have hservers : thousandKeys.ServersOk := by
    refine ⟨⟨by decide, by decide, by decide, by decide⟩, by decide, by decide⟩
  have hworkers : thousandKeys.WorkersOk := ⟨by decide, by decide, by decide, by decide⟩
  obtain ⟨s, hs⟩ := Server.initializeServer_ok (F := Int) hservers (by decide)
    (fun i hi ↦ ConfigMessage.rangeFits_of_le hservers.toRangesOk (by decide) hi)
    "10.0.0.1:80" (i := 0) (by decide)
  obtain ⟨-, -, -, -, hlength⟩ := Server.initializeServer_range (i := 0) hservers.toRangesOk
    (by decide) hs
  have hlength' : s.parameterLength = 500 := hlength.trans (by decide)
  have hparameters := congrArg List.length (Server.initializeServer_fresh hworkers hs).parameters
  rw [List.length_replicate] at hparameters
  obtain ⟨m, hreply⟩ : ∃ m, s.respondBackup 2 = .ok m :=
    ⟨_, Server.respondBackup_eq hparameters 2⟩
  have hsent : (Sending.respondBackup s 2).sent = .ok [m] := by
    rw [Sending.sent, hreply, Checked.ok_bind]
  have hrun : Checked.run (step 2048 Message.wireSize) start [.send (.respondBackup s 2)]
      = .ok (start, [(.send (.respondBackup s 2),
          [⟨((header m.dst).length + m.msg.wireSize : ℕ), 2048⟩])]) := by
    rw [Checked.run, step, hsent, Checked.ok_bind, Checked.ok_bind]
    rfl
  have hmany := five_mul_le_pairsSize s.localId 2 s.ownKeys
  rw [s.length_ownKeys, hlength', ← (Server.respondBackup_size hreply).2] at hmany
  have hlen : 2500 ≤ (((header m.dst).length + m.msg.wireSize : ℕ) : Int) := by omega
  refine ⟨fun m r hm hr ↦ five_mul_le_wireSize hm hr, ⟨s, _, hs, hrun, _,
    List.mem_singleton_self _, _, List.mem_singleton_self _, rfl, hlen, fun h ↦ ?_⟩, rfl,
    fun h ↦ absurd h.1 (by decide)⟩
  have hle := h.2
  dsimp only at hle
  omega

end Traffic

end Rpscc
