import Mathlib.Data.List.Sort
import Rpscc.Lib.Checked
import Rpscc.Lib.Lists
import Rpscc.Lib.Sorted
import Rpscc.Message

/-!
# The configuration the master keeps

`TaskConfig` is the class of the same name: nodes are given ids and addresses as they register,
`generatePartition` draws the boundaries, `fixConfig` takes dead nodes out, and `toMessage` writes
down what the nodes are told.  The random generator is an argument, a stream of draws; all that is
ever assumed of it is the range of its values.
-/

set_option autoImplicit false

namespace Rpscc

/-- `class TaskConfig`.  The map from ids to addresses is a list of its entries. -/
structure TaskConfig where
  workerNum : Int
  serverNum : Int
  keyRange : Int
  backupSize : Int
  partition : List Int
  serverId : List Int
  agentId : List Int
  masterId : List Int
  idToAddr : List (Int × String) := []
  bound : Int
  nodeId : Int := 0
  configChanged : Bool
deriving DecidableEq, Repr

/-- The command line of the master, as far as it is about the task. -/
structure Flags where
  workerNum : Int
  serverNum : Int
  keyRange : Int
  bound : Int
  backupSize : Int
deriving DecidableEq, Repr

namespace TaskConfig

/-- `TaskConfig::Initialize`. -/
def initializeConfig (f : Flags) : TaskConfig where
  workerNum := f.workerNum
  serverNum := f.serverNum
  keyRange := f.keyRange
  backupSize := f.backupSize
  partition := []
  serverId := []
  agentId := []
  masterId := []
  bound := f.bound
  configChanged := false

/-- The address of the next node. -/
def appendAddr (t : TaskConfig) (addr : String) : TaskConfig :=
  { t with idToAddr := Lists.assign t.idToAddr t.nodeId addr, nodeId := t.nodeId + 1 }

/-- `TaskConfig::AppendServer`. -/
def appendServer (t : TaskConfig) (ip : String) (port : Int) : TaskConfig :=
  { t.appendAddr (ip ++ ":" ++ toString port) with serverId := t.serverId ++ [t.nodeId] }

/-- `TaskConfig::AppendAgent`. -/
def appendAgent (t : TaskConfig) (ip : String) (port : Int) : TaskConfig :=
  { t.appendAddr (ip ++ ":" ++ toString port) with agentId := t.agentId ++ [t.nodeId] }

/-- `TaskConfig::AppendMaster`. -/
def appendMaster (t : TaskConfig) (ipPort : String) : TaskConfig :=
  { t.appendAddr ipPort with masterId := t.masterId ++ [t.nodeId] }

/-- `TaskConfig::Ready`. -/
def ready (t : TaskConfig) : Bool :=
  decide ((t.serverId.length : Int) = t.serverNum ∧ (t.agentId.length : Int) = t.workerNum)

/-- `TaskConfig::GetIp`, which gives an id that has no address an empty one. -/
def getIp (t : TaskConfig) (id : Int) : TaskConfig × String :=
  match t.idToAddr.find? fun e ↦ e.1 = id with
  | some e => (t, e.2)
  | none => ({ t with idToAddr := t.idToAddr ++ [(id, "")] }, "")

/-- The addresses in `ToMessage`: first in the order of the ids, then each at its id. -/
def nodeIpPort (t : TaskConfig) : Except Fault (List String) :=
  t.idToAddr.foldlM (fun addrs e ↦ do
    let _ ← Checked.get addrs e.1
    .ok (addrs.set e.1.toNat e.2)) ((t.idToAddr.insertionSort fun a b ↦ a.1 ≤ b.1).map Prod.snd)

/-- `TaskConfig::ToMessage`. -/
def toMessage (t : TaskConfig) : Except Fault ConfigMessage := do
  let nodeIpPort ← t.nodeIpPort
  .ok {
    workerNum := t.workerNum
    serverNum := t.serverNum
    keyRange := t.keyRange
    nodeIpPort := nodeIpPort
    partition := t.partition
    backupSize := t.backupSize
    serverId := t.serverId
    workerId := t.agentId
    masterId := t.masterId
    bound := t.bound }

/-- `TaskConfig::GeneratePartition`: append one draw a server, and sort. -/
def generatePartition (t : TaskConfig) (draw : ℕ → Int) : TaskConfig :=
  { t with
    partition := (t.partition ++ (List.range t.serverNum.toNat).map draw).insertionSort (· ≤ ·) }

/-- One pass of the loop of `FixConfig`: take out an agent, or a server and its boundary. -/
def removeNode (t : TaskConfig) (node : Int) : Except Fault TaskConfig :=
  if node ∈ t.agentId then
    .ok { t with agentId := t.agentId.erase node }
  else if node ∈ t.serverId then
    let index := t.serverId.idxOf node
    if index < t.partition.length then
      .ok { t with
        serverId := t.serverId.erase node
        partition := t.partition.eraseIdx index }
    else
      .error .outOfRange
  else
    .ok t

/-- `TaskConfig::FixConfig`. -/
def fixConfig (t : TaskConfig) (deadNode : List Int) : Except Fault TaskConfig :=
  if deadNode = [] then .ok t
  else deadNode.foldlM removeNode { t with configChanged := true }

/-- `FixConfig` takes a dead server out, together with its boundary. -/
theorem fixConfig_server {t : TaskConfig} {d : Int} {i : ℕ} (hagent : d ∉ t.agentId)
    (hnodup : t.serverId.Nodup) (hlen : t.partition.length = t.serverId.length)
    (hd : t.serverId[i]? = some d) :
    t.fixConfig [d] = .ok { t with
      configChanged := true
      serverId := t.serverId.eraseIdx i
      partition := t.partition.eraseIdx i } := by
  obtain ⟨hi, rfl⟩ := List.getElem?_eq_some_iff.1 hd
  have hidx : t.serverId.idxOf t.serverId[i] = i := hnodup.idxOf_getElem i hi
  have hremove : removeNode { t with configChanged := true } t.serverId[i] = .ok { t with
      configChanged := true
      serverId := t.serverId.eraseIdx i
      partition := t.partition.eraseIdx i } := by
    rw [removeNode, if_neg hagent, if_pos (List.getElem_mem hi)]
    simp only [hidx, hlen, hi, if_true, List.erase_eq_eraseIdx_of_idxOf hidx]
  rw [fixConfig, if_neg (List.cons_ne_nil _ _), List.foldlM_cons, hremove, Checked.ok_bind]
  rfl

/-! ## The partition -/

/-- The draws are what the distribution allows: from `1` to `key_range - 2`. -/
def DrawsOk (t : TaskConfig) (draw : ℕ → Int) : Prop :=
  ∀ i < t.serverNum.toNat, 1 ≤ draw i ∧ draw i ≤ t.keyRange - 2

/-- The partition the master draws for `serverNum` servers, when it starts without one. -/
def drawnPartition (serverNum : ℕ) (draw : ℕ → Int) : List Int :=
  ((List.range serverNum).map draw).insertionSort (· ≤ ·)

theorem generatePartition_partition {t : TaskConfig} (h : t.partition = []) (draw : ℕ → Int) :
    (t.generatePartition draw).partition = drawnPartition t.serverNum.toNat draw := by
  rw [generatePartition, h, List.nil_append]
  rfl

theorem drawnPartition_pairwise (n : ℕ) (draw : ℕ → Int) :
    (drawnPartition n draw).Pairwise (· ≤ ·) :=
  List.pairwise_insertionSort _ _

@[simp, grind =]
theorem length_drawnPartition (n : ℕ) (draw : ℕ → Int) : (drawnPartition n draw).length = n := by
  rw [drawnPartition, List.length_insertionSort, List.length_map, List.length_range]

@[simp, grind =] theorem mem_drawnPartition {n : ℕ} {draw : ℕ → Int} {b : Int} :
    b ∈ drawnPartition n draw ↔ ∃ i < n, draw i = b := by
  rw [drawnPartition, List.mem_insertionSort, List.mem_map]
  simp only [List.mem_range]

/-! ## What `ToMessage` makes of the addresses -/

section

variable {t : TaskConfig} {addrs : List String}

/-- The addresses with the ids they are given, one after the other. -/
def numberAddrs (addrs : List String) : List (Int × String) := addrs.mapIdx fun i a ↦ ((i : Int), a)

@[simp] theorem getElem?_numberAddrs (addrs : List String) (i : ℕ) :
    (numberAddrs addrs)[i]? = (addrs[i]?).map fun a ↦ ((i : Int), a) :=
  List.getElem?_mapIdx

@[simp, grind =] theorem mem_numberAddrs {e : Int × String} :
    e ∈ numberAddrs addrs ↔ ∃ i : ℕ, e.1 = i ∧ addrs[i]? = some e.2 := by
  simp only [List.mem_iff_getElem?, getElem?_numberAddrs, Option.map_eq_some_iff]
  constructor
  · rintro ⟨i, a, ha, rfl⟩
    exact ⟨i, rfl, ha⟩
  · rintro ⟨i, hi, ha⟩
    exact ⟨i, e.2, ha, by rw [← hi]⟩

@[simp]
theorem map_snd_numberAddrs (addrs : List String) : (numberAddrs addrs).map Prod.snd = addrs := by
  refine List.ext_getElem? fun i ↦ ?_
  rw [List.getElem?_map, getElem?_numberAddrs, Option.map_map]
  exact congrFun Option.map_id _

@[simp, grind =]
theorem length_numberAddrs (addrs : List String) : (numberAddrs addrs).length = addrs.length :=
  List.length_mapIdx

theorem pairwise_numberAddrs (addrs : List String) :
    (numberAddrs addrs).Pairwise fun a b ↦ a.1 < b.1 := by
  refine List.pairwise_iff_getElem.2 fun i j hi hj hij ↦ ?_
  simp only [numberAddrs, List.getElem_mapIdx]
  exact Int.ofNat_lt.2 hij

theorem nodup_numberAddrs (addrs : List String) : ((numberAddrs addrs).map Prod.fst).Nodup :=
  (List.pairwise_map.2 (pairwise_numberAddrs addrs)).imp ne_of_lt

/-- **Every address at its id**, in whatever order the map holds them. -/
theorem nodeIpPort_eq (h : t.idToAddr.Perm (numberAddrs addrs)) : t.nodeIpPort = .ok addrs := by
  rw [nodeIpPort, Sorted.insertionSort_eq_of_perm h (pairwise_numberAddrs addrs),
    map_snd_numberAddrs]
  refine Checked.foldlM_eq_self fun e he ↦ ?_
  obtain ⟨i, hi, ha⟩ := mem_numberAddrs.1 (h.subset he)
  obtain ⟨hlt, heq⟩ := List.getElem?_eq_some_iff.1 ha
  rw [hi, Checked.get_natCast ha, Checked.ok_bind, Int.toNat_natCast, ← heq,
    List.set_getElem_self hlt]

/-- There are as many addresses as entries in the map. -/
theorem length_nodeIpPort (h : t.nodeIpPort = .ok addrs) : addrs.length = t.idToAddr.length := by
  rw [nodeIpPort] at h
  refine Checked.foldlM_keeps (P := fun as : List String ↦ as.length = t.idToAddr.length) ?_ ?_ h
  · intro as e as' has hset
    rw [Checked.bind_eq_ok] at hset
    obtain ⟨a, -, hset⟩ := hset
    cases hset
    rw [List.length_set, has]
  · rw [List.length_map, List.length_insertionSort]

end

end TaskConfig

end Rpscc
