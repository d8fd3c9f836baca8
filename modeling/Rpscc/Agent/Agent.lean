import Rpscc.Agent.Partition
import Rpscc.Communication.Communicator
import Rpscc.Lib.SortedMap
import Rpscc.Message

/-!
# The agent: pushing and pulling

An agent stands between its worker and the servers.  It takes a block of keys and values out of
shared memory (`Shmstruct`), sorts it by key, cuts it where the owner changes, and sends every
server its part.  A push ends there; a pull goes on to wait for the replies.

* `push` is `Agent::Push`.  It sorts with `sortKeyValue` and cuts with `splitKeys`, which is the
  `while (start < size)` loop; the loop does not end by itself when `NextEnding` makes no
  progress, so it is given fuel.
* `sendPull` is `Agent::Pull` up to the loop that receives, `Pulling.receive` is one pass of that
  loop, and `Pulling.finish` what comes after it.

A failed `Send` or `Receive` is only logged, so `push` and `sendPull` return the messages they hand
to `Send`, and `receive` takes `none` for a failed `Receive`.
-/

set_option autoImplicit false

namespace Rpscc

/-! ## The block of shared memory -/

/-- `struct shmstruct`: room for a hundred pairs, of which the first `size` are used. -/
structure Shmstruct (F : Type) where
  size : Int
  values : List F
  keys : List Int
  length_values : values.length = 100
  length_keys : keys.length = 100

namespace Shmstruct

attribute [simp] length_values length_keys

variable {F : Type}

/-- The keys in use. -/
def usedKeys (g : Shmstruct F) : List Int := g.keys.take g.size.toNat

/-- The pairs in use. -/
def pairs (g : Shmstruct F) : List (Int × F) := (g.keys.zip g.values).take g.size.toNat

/-- A block with the given pairs, and with `0` and `x` where there is none. -/
def ofPairs (x : F) (ps : List (Int × F)) (h : ps.length ≤ 100) : Shmstruct F where
  size := ps.length
  values := ps.map Prod.snd ++ List.replicate (100 - ps.length) x
  keys := ps.map Prod.fst ++ List.replicate (100 - ps.length) 0
  length_values := by
    rw [List.length_append, List.length_map, List.length_replicate]
    omega
  length_keys := by
    rw [List.length_append, List.length_map, List.length_replicate]
    omega

@[simp] theorem usedKeys_ofPairs (x : F) (ps : List (Int × F)) (h : ps.length ≤ 100) :
    (ofPairs x ps h).usedKeys = ps.map Prod.fst := by
  rw [usedKeys, ofPairs, Int.toNat_natCast]
  exact List.take_left' (List.length_map _)

/-- Overwrite the pairs from position `start` on. -/
def writePairs (g : Shmstruct F) (start : ℕ) (ps : List (Int × F)) : Except Fault (Shmstruct F) :=
  if h : start + ps.length ≤ 100 then
    .ok { g with
      keys := Checked.write g.keys start (ps.map Prod.fst)
      values := Checked.write g.values start (ps.map Prod.snd)
      length_keys := by
        rw [Checked.length_write (by simpa [g.length_keys] using h), g.length_keys]
      length_values := by
        rw [Checked.length_write (by simpa [g.length_values] using h), g.length_values] }
  else
    .error .outOfRange

/-- `Agent::SortKeyValue`: through a map from keys to their first position. -/
def sortKeyValue (g : Shmstruct F) : Except Fault (Shmstruct F) :=
  if g.size < 0 then .error .lengthError
  else if 100 < g.size then .error .outOfRange
  else do
    let keyMap := SortedMap.ofList g.usedKeys.zipIdx
    let tmpValues := g.values.take g.size.toNat
    let items ← keyMap.entries.mapM fun item ↦ do
      let value ← Checked.get tmpValues item.2
      .ok (item.1, value)
    g.writePairs 0 items

/-- `std::sort` of the keys in use. -/
def sortKeys (g : Shmstruct F) : Except Fault (Shmstruct F) :=
  if h : 0 ≤ g.size ∧ g.size ≤ 100 then
    .ok { g with
      keys := Checked.write g.keys 0 (g.usedKeys.insertionSort (· ≤ ·))
      length_keys := by
        have hle : 0 + (g.usedKeys.insertionSort (· ≤ ·)).length ≤ g.keys.length := by
          rw [List.length_insertionSort, usedKeys, List.length_take]
          omega
        rw [Checked.length_write hle, g.length_keys] }
  else
    .error .outOfRange

end Shmstruct

/-! ## Cutting the keys -/

/-- The keys from `start` to `stop` go to the server with id `serverId`. -/
structure Block where
  serverId : Int
  start : ℕ
  stop : ℕ
deriving DecidableEq, Repr

/-- The loop `while (start < size)` of `Push` and `Pull`. -/
def splitKeys (p : Partition) (serverIds keys : List Int) :
    ℕ → ℕ → Except Fault (List Block)
  | 0, start => if start < keys.length then .error .outOfFuel else .ok []
  | fuel + 1, start =>
    if start < keys.length then do
      let r ← p.nextEnding keys start
      let serverId ← Checked.get serverIds r.2
      let rest ← splitKeys p serverIds keys fuel r.1
      .ok (⟨serverId, start, r.1⟩ :: rest)
    else
      .ok []

/-! ## The agent -/

/-- `class Agent`, without its threads and channels. -/
structure Agent (F : Type) where
  localId : Int
  agentNum : Int
  serverNum : Int
  keyRange : Int
  epochNum : Int
  serverIds : List Int
  masterIds : List Int
  sender : Communicator
  gradients : Shmstruct F
  parameters : Shmstruct F
  partition : Partition

namespace Agent

variable {F : Type}

/-- The loop that lists server `i` and enters its address. -/
def addServer (config : ConfigMessage) (r : List Int × Communicator) (i : ℕ) :
    Except Fault (List Int × Communicator) := do
  let id ← Checked.get config.serverId i
  let address ← Checked.get config.nodeIpPort id
  .ok (r.1 ++ [id], r.2.addIdAddr id address)

/-- `Agent::Initialize`, on the configuration `config` the master sent to `recvId`.  The two blocks
are whatever their memory holds. -/
def initializeAgent (masterAddr : String) (recvId : Int) (config : ConfigMessage)
    (gradients parameters : Shmstruct F) : Except Fault (Agent F) := do
  let r ← (List.range config.serverNum.toNat).foldlM (addServer config)
    ([], Communicator.empty.addIdAddr 0 masterAddr)
  let partition ← Partition.initializePartition config.keyRange config.serverNum config.partition
  .ok {
    localId := recvId
    agentNum := config.workerNum
    serverNum := config.serverNum
    keyRange := config.keyRange
    epochNum := 0
    serverIds := r.1
    masterIds := config.masterId
    sender := r.2
    gradients := gradients
    parameters := parameters
    partition := partition }

/-! ## Pushing -/

/-- The push request for one block. -/
def pushMessage (ag : Agent F) (g : Shmstruct F) (b : Block) : Sent F :=
  ⟨b.serverId, { sendId := ag.localId, recvId := b.serverId, messageType := .request,
                 requestMsg := some ⟨.keyValue, Sorted.slice g.keys b.start b.stop,
                   Sorted.slice g.values b.start b.stop⟩ }⟩

/-- `Agent::Push`. -/
def push (ag : Agent F) : Except Fault (Agent F × List (Sent F)) := do
  let g ← ag.gradients.sortKeyValue
  let blocks ← splitKeys ag.partition ag.serverIds g.usedKeys g.size.toNat 0
  .ok ({ ag with gradients := g }, blocks.map (ag.pushMessage g))

/-- The branch of `AgentWork` for a push signal: read the block `g` and push it. -/
def workPush (ag : Agent F) (g : Shmstruct F) : Except Fault (Agent F × List (Sent F)) := do
  let r ← { ag with gradients := g }.push
  .ok ({ r.1 with epochNum := r.1.epochNum + 1 }, r.2)

/-! ## Pulling -/

/-- The pull request for one block. -/
def pullMessage (ag : Agent F) (g : Shmstruct F) (b : Block) : Sent F :=
  ⟨b.serverId, { sendId := ag.localId, recvId := b.serverId, messageType := .request,
                 requestMsg := some ⟨.key, Sorted.slice g.keys b.start b.stop, []⟩ }⟩

/-- An agent inside `Pull` that waits for the servers of `server_set`, with `cur` pairs received. -/
structure Pulling (F : Type) where
  agent : Agent F
  serverSet : List Int
  cur : ℕ

/-- `Agent::Pull` up to the loop that receives. -/
def sendPull (ag : Agent F) : Except Fault (Pulling F × List (Sent F)) := do
  let g ← ag.parameters.sortKeys
  let blocks ← splitKeys ag.partition ag.serverIds g.usedKeys g.size.toNat 0
  .ok (⟨{ ag with parameters := { g with size := 0 } },
    blocks.foldl (fun set b ↦ set.insert b.serverId) [], 0⟩, blocks.map (ag.pullMessage g))

/-- The branch of `AgentWork` for a pull signal: read the block `g` and pull its keys. -/
def workPull (ag : Agent F) (g : Shmstruct F) : Except Fault (Pulling F × List (Sent F)) :=
  { ag with parameters := g }.sendPull

namespace Pulling

/-- The checks of the receiving loop, which end in the request part of the message. -/
def check (w : Pulling F) (m : Message F) : Option (RequestMessage F) :=
  if m.messageType ≠ .request then none
  else match m.requestMsg with
    | none => none
    | some request =>
      if m.sendId ∉ w.serverSet then none
      else if m.recvId ≠ w.agent.localId then none
      else if request.requestType ≠ .keyValue then none
      else some request

/-- One pass of the loop `while (!server_set.empty())`. -/
def receive (w : Pulling F) : Option (Message F) → Except Fault (Pulling F)
  | none => .ok w
  | some m =>
    match w.check m with
    | none => .ok w
    | some request => do
      let ps ← Checked.zip request.keys request.values
      let parameters ← w.agent.parameters.writePairs w.cur ps
      .ok ⟨{ w.agent with parameters := parameters }, w.serverSet.erase m.sendId,
        w.cur + ps.length⟩

/-- What `Pull` leaves behind once `server_set` is empty. -/
def finish (w : Pulling F) : Agent F :=
  { w.agent with parameters := { w.agent.parameters with size := w.cur } }

end Pulling

/-- An empty block. -/
def noPairs : Shmstruct Int := .ofPairs 0 [] (by decide)

end Agent

end Rpscc
