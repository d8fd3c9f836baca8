import Mathlib.Data.List.Nodup
import Rpscc.Communication.Communicator
import Rpscc.Lib.Checked
import Rpscc.Lib.Lists
import Rpscc.Message

/-!
# The server: its state, and `Server::Initialize`

`Server F` is the class `Server` of `server.h`, member by member and in the order of the header.
A `std::queue` or `std::deque` is a list with its front at the head; a map that is only ever
looked up is a function to `Option`; an unordered set is a list of its elements.  Machine integers
are `Int`.  The sums with the key range, which may be any `int32`, are checked where the code takes
them (`Checked.int32`, in `Layout.rangeOf`); the counters of rounds and messages, which go up one by
one, are not.

A loop over `config_msg.server_id` fills in the local key range both here and in
`Server::Reconfigure`.  It is `Layout.visitServers`, on the members it writes; the two differ only
in what they do to `backup_parameters_` at the local server, which is the argument `onLocal`.

`initializeServer` is `Server::Initialize` from the point at which the configuration message has
arrived: `recvId` is the id the master put on that message, which becomes the local id.
-/

set_option autoImplicit false

namespace Rpscc

/-- `KeyValueList`: the pairs of one push, in the order `AddPair` appended them. -/
abbrev KeyValueList (F : Type) := List (Int × F)

/-- `PullInfo`: a pull request that is blocked for consistency. -/
structure PullInfo where
  id : Int
  keys : List Int
deriving DecidableEq, Repr

/-- `class Server`. -/
structure Server (F : Type) where
  sender : Communicator
  localIndex : Int
  localId : Int
  startKey : Int
  parameterLength : Int
  consistencyBound : Int
  bottomVersion : Int
  agentNum : Int
  serverNum : Int
  keyRange : Int
  backupSize : Int
  masterIds : List Int
  serverIds : List Int
  servers : Int → Option Int
  agentIds : List Int
  parameters : List F
  backupParameters : List (List F)
  versionBuffer : List (List (KeyValueList F))
  finishCount : List Int
  pullRequest : List PullInfo
  idToIndex : Int → Option Int

/-- `insert` of an unordered map: a key that is already there keeps its value. -/
def insertNew (m : Int → Option Int) (k v : Int) : Int → Option Int :=
  match m k with
  | some _ => m
  | none => Function.update m k (some v)

namespace Server

variable {F : Type}

/-- The server before `Initialize` has read anything but the numbers of the configuration. -/
def blank (masterIpPort : String) (recvId : Int) (config : ConfigMessage) : Server F where
  sender := Communicator.empty.addIdAddr 0 masterIpPort
  localIndex := 0
  localId := recvId
  startKey := 0
  parameterLength := 0
  consistencyBound := config.bound
  bottomVersion := 0
  agentNum := config.workerNum
  serverNum := config.serverNum
  keyRange := config.keyRange
  backupSize := config.backupSize
  masterIds := []
  serverIds := []
  servers := fun _ ↦ none
  agentIds := []
  parameters := []
  backupParameters := []
  versionBuffer := []
  finishCount := []
  pullRequest := []
  idToIndex := fun _ ↦ none

/-- `sender_->AddIdAddr(i, node_ip_port(i))` for every node but the master. -/
def addAddresses (c : Communicator) (nodeIpPort : List String) : Communicator :=
  nodeIpPort.zipIdx.foldl (fun c p ↦ if p.2 = 0 then c else c.addIdAddr p.2 p.1) c

end Server

/-! ## The loop over the servers of a configuration -/

/-- What the loop over `config_msg.server_id` writes: the members of the same names, and the local
flag `found_local`. -/
structure Layout (F : Type) where
  serverIds : List Int
  servers : Int → Option Int
  localIndex : Int
  startKey : Int
  parameterLength : Int
  backupParameters : List (List F)
  foundLocal : Bool

namespace Layout

variable {F : Type}

/-- `(partition[(i + 1) % server_num] - partition[i] + key_range) % key_range`: the length of the
range of server `i`, and its start.  The difference and the sum are of type `int32`. -/
def rangeOf (config : ConfigMessage) (i : Int) : Except Fault (Int × Int) := do
  let start ← Checked.get config.partition i
  let next ← Checked.get config.partition ((i + 1) % config.serverNum)
  let difference ← Checked.int32 (next - start)
  let sum ← Checked.int32 (difference + config.keyRange)
  let length ← Checked.tmod sum config.keyRange
  .ok (start, length)

/-- One pass of the loop: record server `i`, and if it is the local one take over its range. -/
def visitServer (config : ConfigMessage) (localId : Int)
    (onLocal : ℕ → List (List F) → Except Fault (List (List F))) (l : Layout F) (i : ℕ) :
    Except Fault (Layout F) := do
  let id ← Checked.get config.serverId i
  let l := { l with serverIds := l.serverIds ++ [id], servers := insertNew l.servers id i }
  if id = localId then
    let range ← rangeOf config i
    let backup ← onLocal i l.backupParameters
    .ok { l with
      localIndex := i
      startKey := range.1
      parameterLength := range.2
      backupParameters := backup
      foundLocal := true }
  else
    .ok l

/-- The loop itself. -/
def visitServers (config : ConfigMessage) (localId : Int)
    (onLocal : ℕ → List (List F) → Except Fault (List (List F))) (l : Layout F) :
    Except Fault (Layout F) :=
  (List.range config.serverNum.toNat).foldlM (visitServer config localId onLocal) l

/-- The loop over the servers lists `server_num` of them, and the local index is one of theirs. -/
theorem visitServers_inv {config : ConfigMessage} {localId : Int}
    {onLocal : ℕ → List (List F) → Except Fault (List (List F))} {l r : Layout F}
    (hids : l.serverIds = []) (hfound : l.foundLocal = false)
    (h : visitServers config localId onLocal l = .ok r) :
    r.serverIds.length = config.serverNum.toNat ∧
      (r.foundLocal = true → 0 ≤ r.localIndex ∧ r.localIndex < config.serverNum.toNat) := by
  refine Checked.foldlM_range_inv (P := fun m (x : Layout F) ↦ x.serverIds.length = m ∧
    (x.foundLocal = true → 0 ≤ x.localIndex ∧ x.localIndex < m)) ?_ ?_ h
  · simp [hids, hfound]
  · rintro i - y z ⟨hlen, hloc⟩ hz
    rw [visitServer, Checked.bind_eq_ok] at hz
    obtain ⟨id, -, hz⟩ := hz
    split at hz
    · rw [Checked.bind_eq_ok] at hz
      obtain ⟨range, -, hz⟩ := hz
      rw [Checked.bind_eq_ok] at hz
      obtain ⟨backup, -, hz⟩ := hz
      cases hz
      refine ⟨by simp [hlen], fun _ ↦ ⟨Int.natCast_nonneg i, ?_⟩⟩
      exact Int.ofNat_lt.2 (Nat.lt_succ_self i)
    · cases hz
      refine ⟨by simp [hlen], fun hf ↦ ?_⟩
      obtain ⟨hnonneg, hlt⟩ := hloc hf
      exact ⟨hnonneg, lt_trans hlt (Int.ofNat_lt.2 (Nat.lt_succ_self i))⟩

end Layout

/-! ## `Server::Initialize` -/

namespace Server

variable {F : Type}

/-- The server with the members the loop has written. -/
def withLayout (s : Server F) (l : Layout F) : Server F :=
  { s with
    serverIds := l.serverIds
    servers := l.servers
    localIndex := l.localIndex
    startKey := l.startKey
    parameterLength := l.parameterLength
    backupParameters := l.backupParameters }

variable [FloatOps F]

/-- `std::vector<float>(n)`. -/
def zeros (n : Int) : Except Fault (List F) :=
  if n < 0 then .error .lengthError else .ok (List.replicate n.toNat FloatOps.zero)

/-- Room for the parameters of the server `j + 1` places before server `i`. -/
def initBackup (config : ConfigMessage) (i : ℕ) (backup : List (List F)) (j : ℕ) :
    Except Fault (List (List F)) := do
  let target := ((i : Int) - (j + 1) + config.serverNum) % config.serverNum
  let range ← Layout.rangeOf config target
  let room ← zeros range.2
  .ok (backup ++ [room])

/-- Room for the parameters of all the servers that server `i` stands in for. -/
def initBackups (config : ConfigMessage) (i : ℕ) (backup : List (List F)) :
    Except Fault (List (List F)) :=
  (List.range config.backupSize.toNat).foldlM (initBackup config i) backup

/-- `id_to_index_[config_msg.worker_id(i)] = i`. -/
def initIndex (config : ConfigMessage) (m : Int → Option Int) (i : ℕ) :
    Except Fault (Int → Option Int) := do
  let id ← Checked.get config.workerId i
  .ok (Function.update m id (some i))

/-- `Server::Initialize`, on the configuration `config` the master sent to `recvId`. -/
def initializeServer (masterIpPort : String) (recvId : Int) (config : ConfigMessage) :
    Except Fault (Server F) := do
  let s : Server F := blank masterIpPort recvId config
  if s.backupSize < 0 ∨ s.serverNum ≤ s.backupSize then
    .error (.refused "backup_size_ is wrong")
  else
    let l ← Layout.visitServers config s.localId (initBackups config)
      ⟨s.serverIds, s.servers, s.localIndex, s.startKey, s.parameterLength, s.backupParameters,
        false⟩
    if l.foundLocal = false then
      .error (.refused "Nothing is found to be assigned to the server.")
    else
      let idToIndex ← (List.range s.agentNum.toNat).foldlM (initIndex config) s.idToIndex
      .ok { s.withLayout l with
        sender := addAddresses s.sender config.nodeIpPort
        agentIds := config.workerId.foldl (fun ids id ↦ ids.insert id) s.agentIds
        masterIds := config.masterId
        idToIndex := idToIndex
        parameters := List.replicate l.parameterLength.toNat FloatOps.zero
        finishCount := List.replicate s.consistencyBound.toNat 0
        versionBuffer := List.replicate s.agentNum.toNat [] }

/-! ## What a server that has been initialised looks like -/

/-- The map from worker ids to buffer indices after the loop that fills it. -/
theorem initIndex_fold {config : ConfigMessage} {m : Int → Option Int}
    (hnd : config.workerId.Nodup) {n : ℕ} (hn : n ≤ config.workerId.length) :
    ∃ r : Int → Option Int, (List.range n).foldlM (initIndex config) m = .ok r ∧
      ∀ a, r a = if a ∈ config.workerId.take n then some (config.workerId.idxOf a : Int)
        else m a := by
  refine Checked.foldlM_range_ok (P := fun n (r : Int → Option Int) ↦ ∀ a, r a
    = if a ∈ config.workerId.take n then some (config.workerId.idxOf a : Int) else m a) ?_ ?_
  · simp
  · intro i hi r hr
    have hi' : i < config.workerId.length := lt_of_lt_of_le hi hn
    refine ⟨Function.update r config.workerId[i] (some i), ?_, fun a ↦ ?_⟩
    · rw [initIndex, Checked.get_natCast (List.getElem?_eq_getElem hi'), Checked.ok_bind]
    · simp only [List.take_succ_eq_append_getElem hi', List.mem_append, List.mem_singleton]
      by_cases ha : a = config.workerId[i]
      · subst ha
        rw [Function.update_self, if_pos (Or.inr rfl), hnd.idxOf_getElem i hi']
      · rw [Function.update_of_ne ha, hr a]
        simp only [ha, or_false]

/-- What the invariants of the server start from: the members a successful `Initialize` leaves
behind, as far as they concern the workers, the versions and the place of the server among the
others. -/
structure Fresh (config : ConfigMessage) (s : Server F) : Prop where
  mem_agentIds : ∀ a, a ∈ s.agentIds ↔ a ∈ config.workerId
  agentNum : s.agentNum = config.workerId.length
  idToIndex : ∀ a ∈ config.workerId, s.idToIndex a = some (config.workerId.idxOf a : Int)
  idToIndex_none : ∀ a, a ∉ config.workerId → s.idToIndex a = none
  bound : s.consistencyBound = config.bound
  bottomVersion : s.bottomVersion = 0
  parameters : s.parameters = List.replicate s.parameterLength.toNat FloatOps.zero
  finishCount : s.finishCount = List.replicate config.bound.toNat 0
  versionBuffer : s.versionBuffer = List.replicate config.workerId.length []
  pullRequest : s.pullRequest = []
  serverIds : (s.serverIds.length : Int) = s.serverNum
  localIndex : 0 ≤ s.localIndex ∧ s.localIndex < s.serverNum
  backupSize : 0 ≤ s.backupSize ∧ s.backupSize < s.serverNum

end Server

/-- The workers of a configuration are counted right and pairwise distinct, there is one, and the
consistency bound lets it push. -/
structure ConfigMessage.WorkersOk (config : ConfigMessage) : Prop where
  workerNum : config.workerNum = config.workerId.length
  nodup : config.workerId.Nodup
  pos : 1 ≤ config.workerNum
  bound : 1 ≤ config.bound

theorem ConfigMessage.WorkersOk.ne_nil {config : ConfigMessage} (h : config.WorkersOk) :
    config.workerId ≠ [] := by
  have hpos := h.pos
  rw [h.workerNum] at hpos
  rintro heq
  rw [heq] at hpos
  simp at hpos

namespace Server

variable {F : Type} [FloatOps F]

/-- **`Initialize` leaves a fresh server.** -/
theorem initializeServer_fresh {masterIpPort : String} {recvId : Int} {config : ConfigMessage}
    {s : Server F} (hc : config.WorkersOk)
    (h : initializeServer masterIpPort recvId config = .ok s) :
    Fresh config s := by
  rw [initializeServer] at h
  split at h
  · simp at h
  · rename_i hbackup
    rw [Checked.bind_eq_ok] at h
    obtain ⟨l, hl, h⟩ := h
    obtain ⟨hlen, hloc⟩ := Layout.visitServers_inv rfl rfl hl
    split at h
    · simp at h
    · rename_i hfound
      obtain ⟨m, hm, hmap⟩ := initIndex_fold (m := fun _ ↦ none) hc.nodup (le_refl _)
      have hnum : (blank (F := F) masterIpPort recvId config).agentNum.toNat
          = config.workerId.length := by
        show config.workerNum.toNat = _
        rw [hc.workerNum, Int.toNat_natCast]
      rw [hnum] at h
      rw [show (blank (F := F) masterIpPort recvId config).idToIndex = fun _ ↦ none from rfl, hm,
        Checked.ok_bind, Except.ok.injEq] at h
      subst h
      rw [Bool.not_eq_false] at hfound
      obtain ⟨hnonneg, hlt⟩ := hloc hfound
      simp only [blank, not_or, not_lt, not_le] at hbackup
      have hpos : (config.serverNum.toNat : Int) = config.serverNum := by omega
      rw [hpos] at hlt
      rw [List.take_length] at hmap
      exact {
        mem_agentIds := fun a ↦ (Lists.mem_foldl_insert _ _ a).trans (by simp [blank])
        agentNum := hc.workerNum
        idToIndex := fun a ha ↦ (hmap a).trans (if_pos ha)
        idToIndex_none := fun a ha ↦ (hmap a).trans (if_neg ha)
        bound := rfl
        bottomVersion := rfl
        parameters := rfl
        finishCount := rfl
        versionBuffer := rfl
        pullRequest := rfl
        serverIds := (congrArg Nat.cast hlen).trans hpos
        localIndex := ⟨hnonneg, hlt⟩
        backupSize := hbackup }

end Server

end Rpscc
