import Rpscc.Server.Basic

/-!
# Serving pushes and pulls

`servePush` and `servePull` are the two request handlers of the server, with everything they call:
`updateParameter` merges one round of updates into the parameters, `respondToAll` answers the
pulls that were blocked, `requestBackup` asks the neighbours for their parameters.  Each returns
the new state together with the messages it hands to `sender_->Send`; a read outside a container,
or of the front of an empty queue, is a `Fault`.

A handler also says which way it went (`Outcome`), since the source tells the ways apart only in
its log.

`serve` dispatches a `Call` to its handler as `Server::Start` does, and is the step function of
the server's runs.
-/

set_option autoImplicit false

namespace Rpscc

/-- Which branch a handler took. -/
inductive Outcome
  /-- A push whose update went into the version buffer. -/
  | stored
  /-- A push that found the version buffer of its agent full. -/
  | overfilled
  /-- A pull that was answered at once. -/
  | answered
  /-- A pull that was put into `pull_request_`. -/
  | blocked
  /-- A request of an agent the server does not know. -/
  | unknown
deriving DecidableEq, Repr

/-- What a handler hands out: the branch it took and the messages it sent. -/
structure Response (F : Type) where
  outcome : Outcome
  sent : List (Sent F)
deriving DecidableEq, Repr

/-- `size >= n` for a `size_t` and an `int32`: a negative `n` converts to a size no container
has. -/
def sizeAtLeast (size : ℕ) (n : Int) : Bool := decide (0 ≤ n ∧ n ≤ size)

namespace Server

variable {F : Type}

/-! ## Answering a pull -/

/-- The reply to a pull of agent `id`. -/
def reply (s : Server F) (id : Int) (keys : List Int) (values : List F) : Sent F :=
  ⟨id, { sendId := s.localId, recvId := id, messageType := .request,
         requestMsg := some ⟨.keyValue, keys, values⟩ }⟩

/-- The values `RespondToAll` reads for the keys of a blocked pull. -/
def blockedValues (s : Server F) (keys : List Int) : Except Fault (List F) :=
  keys.mapM fun key ↦ Checked.get s.parameters (key - s.startKey)

/-- `Server::RespondToAll`. -/
def respondToAll (s : Server F) : Except Fault (Server F × List (Sent F)) := do
  let sent ← s.pullRequest.mapM fun request ↦ do
    let values ← s.blockedValues request.keys
    .ok (s.reply request.id request.keys values)
  .ok ({ s with pullRequest := [] }, sent)

/-- The values `ServePull` reads: a key below `start_key_` is looked up `key_range_` further on. -/
def pullValues (s : Server F) (keys : List Int) : Except Fault (List F) :=
  keys.mapM fun key ↦
    let index := key - s.startKey
    Checked.get s.parameters (if index < 0 then index + s.keyRange else index)

/-- `id_to_index_[id]`: an id that is not in the map is put there with index `0`. -/
def indexOf (s : Server F) (id : Int) : Server F × Int :=
  match s.idToIndex id with
  | some i => (s, i)
  | none => ({ s with idToIndex := Function.update s.idToIndex id (some 0) }, 0)

/-- `version_buffer_[id_to_index_[id]]`. -/
def bufferOf (s : Server F) (id : Int) : Except Fault (List (KeyValueList F)) :=
  Checked.get s.versionBuffer (s.indexOf id).2

/-- `Server::ServePull`. -/
def servePull (s : Server F) (senderId : Int) (request : RequestMessage F) :
    Except Fault (Server F × Response F) :=
  match s.idToIndex senderId with
  | none => .ok (s, ⟨.unknown, []⟩)
  | some i => do
    let buffer ← Checked.get s.versionBuffer i
    if sizeAtLeast buffer.length s.consistencyBound then
      .ok ({ s with pullRequest := s.pullRequest ++ [⟨senderId, request.keys⟩] }, ⟨.blocked, []⟩)
    else
      let values ← s.pullValues request.keys
      .ok (s, ⟨.answered, [s.reply senderId request.keys values]⟩)

/-! ## Merging a round -/

/-- `Server::RequestBackup`: a message without a request to each of the `backup_size_` servers
before this one. -/
def requestBackup (s : Server F) : Except Fault (List (Sent F)) :=
  (List.range s.backupSize.toNat).mapM fun (j : ℕ) ↦ do
    let target ← Checked.tmod (s.localIndex - (j + 1) + s.serverNum) s.serverNum
    let id ← Checked.get s.serverIds target
    .ok ⟨id, { sendId := s.localId, recvId := id, messageType := .request }⟩

variable [FloatOps F]

/-- `update[Key(j) - start_key_] += Value(j)` for every pair of one agent's update. -/
def addPairs (startKey : Int) : KeyValueList F → List F → Except Fault (List F)
  | [], update => .ok update
  | (key, value) :: rest, update => do
    let x ← Checked.get update (key - startKey)
    addPairs startKey rest (update.set (key - startKey).toNat (FloatOps.add x value))

/-- The first loop of `UpdateParameter`, over the buffers of the first `n` agents: take the front
of each and add its pairs up. -/
def takeFronts (startKey : Int) : ℕ → List (List (KeyValueList F)) → List F →
    Except Fault (List (List (KeyValueList F)) × List F)
  | 0, buffers, update => .ok (buffers, update)
  | _ + 1, [], _ => .error .outOfRange
  | _ + 1, [] :: _, _ => .error .frontOfEmpty
  | n + 1, (front :: rest) :: buffers, update => do
    let update ← addPairs startKey front update
    let r ← takeFronts startKey n buffers update
    .ok (rest :: r.1, r.2)

/-- The second loop of `UpdateParameter`: `parameters_[i] += update[i] / agent_num_`. -/
def addUpdate (agentNum : Int) : List F → List F → Except Fault (List F)
  | parameters, [] => .ok parameters
  | [], _ :: _ => .error .outOfRange
  | x :: parameters, y :: update => do
    let rest ← addUpdate agentNum parameters update
    .ok (FloatOps.add x (FloatOps.div y (FloatOps.ofInt agentNum)) :: rest)

/-- `Server::UpdateParameter`.  The vector it adds up in has `parameter_length_` elements, which for
the sorted boundaries of a partition is not negative; a negative length counts as none here. -/
def updateParameter (s : Server F) : Except Fault (Server F) := do
  let r ← takeFronts s.startKey s.agentNum.toNat s.versionBuffer
    (List.replicate s.parameterLength.toNat FloatOps.zero)
  let parameters ← addUpdate s.agentNum s.parameters r.2
  .ok { s with
    versionBuffer := r.1
    parameters := parameters
    bottomVersion := s.bottomVersion + 1 }

/-! ## Serving a push -/

/-- The first half of `ServePush`: put the update of a known agent, its keys paired with its values,
into its version buffer, unless that is full. -/
def storePush (s : Server F) (senderId : Int) (request : RequestMessage F) :
    Except Fault (Server F × Outcome) := do
  let r := s.indexOf senderId
  let buffer ← Checked.get r.1.versionBuffer r.2
  if sizeAtLeast buffer.length r.1.consistencyBound then
    .ok (r.1, .overfilled)
  else
    let count ← Checked.get r.1.finishCount buffer.length
    let update ← Checked.zip request.keys request.values
    .ok ({ r.1 with
      finishCount := r.1.finishCount.set buffer.length (count + 1)
      versionBuffer := r.1.versionBuffer.set r.2.toNat (buffer ++ [update]) }, .stored)

/-- The second half of `ServePush`: if the bottom version is complete, merge it and answer the
blocked pulls.  It runs after a rejected push as well. -/
def finishRound (s : Server F) : Except Fault (Server F × List (Sent F)) := do
  let count ← Checked.get s.finishCount 0
  if count = s.agentNum then
    let s ← updateParameter { s with finishCount := s.finishCount.tail ++ [0] }
    let r ← s.respondToAll
    let backup ← r.1.requestBackup
    .ok (r.1, r.2 ++ backup)
  else
    .ok (s, [])

/-- `Server::ServePush`. -/
def servePush (s : Server F) (senderId : Int) (request : RequestMessage F) :
    Except Fault (Server F × Response F) :=
  if senderId ∉ s.agentIds then
    .ok (s, ⟨.unknown, []⟩)
  else do
    let r ← s.storePush senderId request
    let q ← r.1.finishRound
    .ok (q.1, ⟨r.2, q.2⟩)

/-! ## Runs -/

/-- A request as `Server::Start` hands it on. -/
inductive Call (F : Type)
  | push (senderId : Int) (request : RequestMessage F)
  | pull (senderId : Int) (request : RequestMessage F)

/-- How `Server::Start` reads a message that comes from an agent.  An absent request reads as an
empty one of the first type. -/
def Call.ofMessage (m : Message F) : Option (Call F) :=
  if m.messageType = .request then
    let request := m.requestMsg.getD ⟨.keyValue, [], []⟩
    match request.requestType with
    | .keyValue => some (.push m.sendId request)
    | .key => some (.pull m.sendId request)
    | .ack => none
    | .block => none
  else
    none

/-- Serve one request. -/
def serve (s : Server F) : Call F → Except Fault (Server F × Response F)
  | .push senderId request => s.servePush senderId request
  | .pull senderId request => s.servePull senderId request

/-- Serve a list of requests, keeping the trace of requests and responses. -/
def run (s : Server F) (calls : List (Call F)) :
    Except Fault (Server F × List (Call F × Response F)) :=
  Checked.run serve s calls

end Server

end Rpscc
