import Mathlib.Logic.Relation
import Rpscc.Cluster.Heartbeats

/-!
# The worker and its agent

A worker (`linear_regression.py`) and its agent (`AgentWork`) are two processes on one machine.
What the worker has to say it writes into one block of shared memory, and then a signal into a fifo:
`0` after the keys of a pull, `1` after the gradients of a push.  What the agent has to say goes
through a second block and a second fifo.  A pull is answered; a push is not.

`Channel` is the state of both, with the place each has got to, and `Step` has one constructor for
each access to what they share, so that they interleave in any way.  `written` and `pushed` record
the pairs of every push, as the worker wrote them and as the agent pushes them.

The keys of the next pull go into the same block as the gradients of the last push, and the worker
does not wait before it writes them: they can be there before the agent has read the gradients.
`no_gradient_lost` is about the runs in which this does not happen (`Patient`).
-/

set_option autoImplicit false

namespace Rpscc

variable {F : Type}

/-- `transfer_to_agent`.  What does not fit into the mapping raises an error. -/
def Shmstruct.transferToAgent (w : Shmstruct F) (values : List F) (keys : List Int) :
    Except Fault (Shmstruct F) :=
  if h : values.length ≤ 100 ∧ keys.length ≤ 100 then
    .ok {
      size := keys.length
      values := Checked.write w.values 0 values
      keys := Checked.write w.keys 0 keys
      length_values := by
        rw [Checked.length_write (by rw [w.length_values]; omega), w.length_values]
      length_keys := by
        rw [Checked.length_write (by rw [w.length_keys]; omega), w.length_keys] }
  else
    .error .outOfRange

/-- Where the worker is in its loop: what it does next. -/
inductive Channel.WorkerPhase
  | writeKeys
  | signalPull
  | waitReply
  | readReply
  /-- The weights for these keys are read, the gradients to be computed. -/
  | writeGradients (keys : List Int)
  | signalPush
  /-- Out of the loop. -/
  | finished
deriving DecidableEq, Repr

/-- Where the agent is in the loop of `AgentWork`. -/
inductive Channel.AgentPhase (F : Type)
  | wait (ag : Agent F)
  /-- A signal is read, and nothing done about it yet. -/
  | got (ag : Agent F) (signal : Int)
  /-- Inside `Pull`. -/
  | pulling (w : Agent.Pulling F)
  /-- The parameters are written, the worker not yet told. -/
  | pulled (ag : Agent F)
  /-- The gradients are read, and `Push` is next. -/
  | pushing (ag : Agent F)
  | terminated

/-- A worker and its agent, what they share, and the pairs of every push: as the worker wrote them,
and as the agent pushed them. -/
structure Channel (F : Type) where
  worker : Channel.WorkerPhase
  agent : Channel.AgentPhase F
  gradMemory : Shmstruct F
  gradFifo : List Int
  paraMemory : Shmstruct F
  paraFifo : List Int
  written : List (List (Int × F))
  pushed : List (List (Int × F))

namespace Channel

/-- The next thing one of the two does. -/
inductive Action
  | writeKeys | signalPull | waitReply | readReply | writeGradients | signalPush | finish
  | wait | reconfigurate | readKeys | receive | writeParameters | reply | readGradients | push
  | terminate
deriving DecidableEq, Repr

/-- The worker starts its loop, the agent waits for a signal, and the blocks are as they are. -/
def start (ag : Agent F) (gradMemory paraMemory : Shmstruct F) : Channel F where
  worker := .writeKeys
  agent := .wait ag
  gradMemory := gradMemory
  gradFifo := []
  paraMemory := paraMemory
  paraFifo := []
  written := []
  pushed := []

variable [FloatOps F]

/-- The loop of `linear_regression.py` over a data set with `numFeatures` features, and `AgentWork`.
The gradient has as many elements as there are weights; what they are is the worker's business. -/
inductive Step (numFeatures : ℕ) : Channel F → Action → Channel F → Prop
  | writeKeys {c : Channel F} {g : Shmstruct F} (hw : c.worker = .writeKeys)
      (hg : c.gradMemory.transferToAgent (List.replicate (numFeatures + 1) FloatOps.zero)
        ((List.range (numFeatures + 1)).map fun i ↦ (i : Int)) = .ok g) :
      Step numFeatures c .writeKeys { c with worker := .signalPull, gradMemory := g }
  | signalPull {c : Channel F} (hw : c.worker = .signalPull) :
      Step numFeatures c .signalPull
        { c with worker := .waitReply, gradFifo := c.gradFifo ++ [0] }
  | waitReply {c : Channel F} {signal : Int} {rest : List Int} (hw : c.worker = .waitReply)
      (hf : c.paraFifo = signal :: rest) :
      Step numFeatures c .waitReply { c with worker := .readReply, paraFifo := rest }
  | readReply {c : Channel F} (hw : c.worker = .readReply) :
      Step numFeatures c .readReply { c with worker := .writeGradients c.paraMemory.usedKeys }
  | writeGradients {c : Channel F} {keys : List Int} {values : List F} {g : Shmstruct F}
      (hw : c.worker = .writeGradients keys) (hlen : values.length = keys.length)
      (hg : c.gradMemory.transferToAgent values keys = .ok g) :
      Step numFeatures c .writeGradients
        { c with worker := .signalPush, gradMemory := g, written := c.written ++ [keys.zip values] }
  | signalPush {c : Channel F} (hw : c.worker = .signalPush) :
      Step numFeatures c .signalPush
        { c with worker := .writeKeys, gradFifo := c.gradFifo ++ [1] }
  | finish {c : Channel F} (hw : c.worker = .writeKeys) :
      Step numFeatures c .finish { c with worker := .finished, gradFifo := c.gradFifo ++ [2] }
  | wait {c : Channel F} {ag : Agent F} {signal : Int} {rest : List Int} (ha : c.agent = .wait ag)
      (hf : c.gradFifo = signal :: rest) :
      Step numFeatures c .wait { c with agent := .got ag signal, gradFifo := rest }
  | reconfigurate {c : Channel F} {ag ag' : Agent F} {signal recvId : Int} {config : ConfigMessage}
      (ha : c.agent = .got ag signal) (h : ag.reconfigurate recvId config = .ok ag') :
      Step numFeatures c .reconfigurate { c with agent := .got ag' signal }
  | readKeys {c : Channel F} {ag : Agent F} {w : Agent.Pulling F} {sent : List (Sent F)}
      (ha : c.agent = .got ag 0) (h : ag.workPull c.gradMemory = .ok (w, sent)) :
      Step numFeatures c .readKeys { c with agent := .pulling w }
  | receive {c : Channel F} {w w' : Agent.Pulling F} {m : Option (Message F)}
      (ha : c.agent = .pulling w) (hset : w.serverSet ≠ []) (h : w.receive m = .ok w') :
      Step numFeatures c .receive { c with agent := .pulling w' }
  | writeParameters {c : Channel F} {w : Agent.Pulling F} (ha : c.agent = .pulling w)
      (hset : w.serverSet = []) :
      Step numFeatures c .writeParameters
        { c with agent := .pulled w.finish, paraMemory := w.finish.parameters }
  | reply {c : Channel F} {ag : Agent F} (ha : c.agent = .pulled ag) :
      Step numFeatures c .reply { c with agent := .wait ag, paraFifo := c.paraFifo ++ [2] }
  | readGradients {c : Channel F} {ag : Agent F} (ha : c.agent = .got ag 1) :
      Step numFeatures c .readGradients
        { c with agent := .pushing { ag with gradients := c.gradMemory } }
  | push {c : Channel F} {ag ag' : Agent F} {sent : List (Sent F)} (ha : c.agent = .pushing ag)
      (h : ag.push = .ok (ag', sent)) :
      Step numFeatures c .push
        { c with
          agent := .wait { ag' with epochNum := ag'.epochNum + 1 }
          pushed := c.pushed ++ [ag.gradients.pairs] }
  | terminate {c : Channel F} {ag : Agent F} {signal : Int} (ha : c.agent = .got ag signal)
      (h0 : signal ≠ 0) (h1 : signal ≠ 1) :
      Step numFeatures c .terminate { c with agent := .terminated }

/-- When nothing comes between them, reading the gradients and pushing them is the branch of
`AgentWork` for a push. -/
theorem workPush_steps (numFeatures : ℕ) {c : Channel F} {ag ag' : Agent F} {sent : List (Sent F)}
    (ha : c.agent = .got ag 1) (h : ag.workPush c.gradMemory = .ok (ag', sent)) :
    ∃ c', Step numFeatures c .readGradients c' ∧ Step numFeatures c' .push
      { c with agent := .wait ag', pushed := c.pushed ++ [c.gradMemory.pairs] } := by
  rw [Agent.workPush, Checked.bind_eq_ok] at h
  obtain ⟨⟨ag₁, sent₁⟩, hpush, h⟩ := h
  cases h
  exact ⟨_, .readGradients ha, .push rfl hpush⟩

/-! ## What is on its way -/

omit [FloatOps F] in
/-- What `transfer_to_agent` has written is what is read. -/
theorem pairs_transferToAgent {w g : Shmstruct F} {values : List F} {keys : List Int}
    (hlen : values.length = keys.length) (h : w.transferToAgent values keys = .ok g) :
    g.pairs = keys.zip values := by
  rw [Shmstruct.transferToAgent] at h
  split at h
  · cases h
    have hkeys := Checked.take_write w.keys keys (Nat.zero_le _)
    have hvalues := Checked.take_write w.values values (Nat.zero_le _)
    rw [Nat.zero_add, List.take_zero, List.nil_append] at hkeys hvalues
    rw [Shmstruct.pairs]
    dsimp only
    rw [Int.toNat_natCast, List.zip, List.take_zipWith, hkeys, ← hlen, hvalues]
  · simp at h

/-- The agent has read what the worker last wrote for a push: `owed` are the pairs of the push it
has not performed yet. -/
inductive HasRead : AgentPhase F → List (List (Int × F)) → Prop
  | idle (ag : Agent F) : HasRead (.wait ag) []
  | pushing (ag : Agent F) : HasRead (.pushing ag) [ag.gradients.pairs]

/-- The agent has not read it: the signal is in the fifo, or read, and the block is as the worker
left it. -/
inductive Unread (g : Shmstruct F) : AgentPhase F → List Int → List (List (Int × F)) → Prop
  | signalled (ag : Agent F) : Unread g (.wait ag) [1] [g.pairs]
  | taken (ag : Agent F) : Unread g (.got ag 1) [] [g.pairs]

/-- Where the agent can be and what the fifos can hold, by the place of the worker in its loop, with
the block `g` and the pairs `owed` of the push that is not performed yet. -/
inductive Stage (g : Shmstruct F) :
    WorkerPhase → AgentPhase F → List Int → List Int → List (List (Int × F)) → Prop
  | next {agent : AgentPhase F} {owed : List (List (Int × F))} (h : HasRead agent owed) :
      Stage g .writeKeys agent [] [] owed
  | nextUnread {agent : AgentPhase F} {fifo : List Int} {owed : List (List (Int × F))}
      (h : Unread g agent fifo owed) : Stage g .writeKeys agent fifo [] owed
  | asking {agent : AgentPhase F} {owed : List (List (Int × F))} (h : HasRead agent owed) :
      Stage g .signalPull agent [] [] owed
  | asked {agent : AgentPhase F} {owed : List (List (Int × F))} (h : HasRead agent owed) :
      Stage g .waitReply agent [0] [] owed
  | pullTaken (ag : Agent F) : Stage g .waitReply (.got ag 0) [] [] []
  | pulling (w : Agent.Pulling F) : Stage g .waitReply (.pulling w) [] [] []
  | pulled (ag : Agent F) : Stage g .waitReply (.pulled ag) [] [] []
  | replied (ag : Agent F) : Stage g .waitReply (.wait ag) [] [2] []
  | reading (ag : Agent F) : Stage g .readReply (.wait ag) [] [] []
  | computing (ag : Agent F) (keys : List Int) : Stage g (.writeGradients keys) (.wait ag) [] [] []
  | handing (ag : Agent F) : Stage g .signalPush (.wait ag) [] [] [g.pairs]
  | stopping {agent : AgentPhase F} {owed : List (List (Int × F))} (h : HasRead agent owed) :
      Stage g .finished agent [2] [] owed
  | stoppingUnread {agent : AgentPhase F} {fifo : List Int} {owed : List (List (Int × F))}
      (h : Unread g agent fifo owed) : Stage g .finished agent (fifo ++ [2]) [] owed
  | stopTaken (ag : Agent F) : Stage g .finished (.got ag 2) [] [] []
  | stopped : Stage g .finished .terminated [] [] []

section

variable {g : Shmstruct F} {worker : WorkerPhase} {agent : AgentPhase F} {fifo replies : List Int}
  {owed : List (List (Int × F))} {ag : Agent F}

omit [FloatOps F]

theorem Stage.writeKeys (h : Stage g .writeKeys agent fifo replies owed) (hfifo : 1 ∉ fifo)
    (hagent : ∀ ag, agent ≠ .got ag 1) (g' : Shmstruct F) :
    Stage g' .signalPull agent fifo replies owed := by
  cases h with
  | next h => exact .asking h
  | nextUnread h =>
    cases h with
    | signalled ag => exact absurd (List.mem_singleton_self 1) hfifo
    | taken ag => exact absurd rfl (hagent ag)

theorem Stage.finish (h : Stage g .writeKeys agent fifo replies owed) :
    Stage g .finished agent (fifo ++ [2]) replies owed := by
  cases h with
  | next h => exact .stopping h
  | nextUnread h => exact .stoppingUnread h

theorem Stage.signalPull (h : Stage g .signalPull agent fifo replies owed) :
    Stage g .waitReply agent (fifo ++ [0]) replies owed := by
  cases h with
  | asking h => exact .asked h

/-- The worker goes on only when the agent has nothing left to do. -/
theorem Stage.waitReply {signal : Int} {rest : List Int}
    (h : Stage g .waitReply agent fifo (signal :: rest) owed) :
    Stage g .readReply agent fifo rest owed := by
  cases h with
  | replied ag => exact .reading ag

theorem Stage.readReply (h : Stage g .readReply agent fifo replies owed) (keys : List Int) :
    Stage g (.writeGradients keys) agent fifo replies owed := by
  cases h with
  | reading ag => exact .computing ag keys

theorem Stage.writeGradients {keys : List Int}
    (h : Stage g (.writeGradients keys) agent fifo replies owed) (g' : Shmstruct F) :
    owed = [] ∧ Stage g' .signalPush agent fifo replies [g'.pairs] := by
  cases h with
  | computing ag keys => exact ⟨rfl, .handing ag⟩

theorem Stage.signalPush (h : Stage g .signalPush agent fifo replies owed) :
    Stage g .writeKeys agent (fifo ++ [1]) replies owed := by
  cases h with
  | handing ag => exact .nextUnread (.signalled ag)

theorem Stage.wait {signal : Int} {rest : List Int}
    (h : Stage g worker (.wait ag) fifo replies owed) (hfifo : fifo = signal :: rest) :
    Stage g worker (.got ag signal) rest replies owed := by
  cases h with
  | nextUnread h =>
    cases h with
    | signalled ag =>
      cases hfifo
      exact .nextUnread (.taken ag)
  | asked h =>
    cases h with
    | idle ag =>
      cases hfifo
      exact .pullTaken ag
  | stopping h =>
    cases h with
    | idle ag =>
      cases hfifo
      exact .stopTaken ag
  | stoppingUnread h =>
    cases h with
    | signalled ag =>
      cases hfifo
      exact .stoppingUnread (.taken ag)
  | next h | asking h | replied ag | reading ag | computing ag keys | handing ag => cases hfifo

/-- Nothing depends on the configuration of the agent. -/
theorem Stage.reconfigurate {signal : Int}
    (h : Stage g worker (.got ag signal) fifo replies owed) (ag' : Agent F) :
    Stage g worker (.got ag' signal) fifo replies owed := by
  cases h with
  | next h | asking h | asked h | stopping h => cases h
  | nextUnread h =>
    cases h with
    | taken ag => exact .nextUnread (.taken ag')
  | pullTaken ag => exact .pullTaken ag'
  | stoppingUnread h =>
    cases h with
    | taken ag => exact .stoppingUnread (.taken ag')
  | stopTaken ag => exact .stopTaken ag'

theorem Stage.readKeys (h : Stage g worker (.got ag 0) fifo replies owed) (w : Agent.Pulling F) :
    Stage g worker (.pulling w) fifo replies owed := by
  cases h with
  | next h | asking h | asked h | stopping h | nextUnread h | stoppingUnread h => cases h
  | pullTaken ag => exact .pulling w

theorem Stage.receive {w : Agent.Pulling F} (h : Stage g worker (.pulling w) fifo replies owed)
    (w' : Agent.Pulling F) : Stage g worker (.pulling w') fifo replies owed := by
  cases h with
  | next h | asking h | asked h | stopping h | nextUnread h | stoppingUnread h => cases h
  | pulling w => exact .pulling w'

theorem Stage.writeParameters {w : Agent.Pulling F}
    (h : Stage g worker (.pulling w) fifo replies owed) (ag : Agent F) :
    Stage g worker (.pulled ag) fifo replies owed := by
  cases h with
  | next h | asking h | asked h | stopping h | nextUnread h | stoppingUnread h => cases h
  | pulling w => exact .pulled ag

theorem Stage.reply (h : Stage g worker (.pulled ag) fifo replies owed) :
    Stage g worker (.wait ag) fifo (replies ++ [2]) owed := by
  cases h with
  | next h | asking h | asked h | stopping h | nextUnread h | stoppingUnread h => cases h
  | pulled ag => exact .replied ag

/-- What the agent reads for a push is what is owed. -/
theorem Stage.readGradients (h : Stage g worker (.got ag 1) fifo replies owed) :
    Stage g worker (.pushing { ag with gradients := g }) fifo replies owed := by
  cases h with
  | next h | asking h | asked h | stopping h => cases h
  | nextUnread h =>
    cases h with
    | taken ag => exact .next (.pushing { ag with gradients := g })
  | stoppingUnread h =>
    cases h with
    | taken ag => exact .stopping (.pushing { ag with gradients := g })

theorem Stage.push (h : Stage g worker (.pushing ag) fifo replies owed) (ag' : Agent F) :
    owed = [ag.gradients.pairs] ∧ Stage g worker (.wait ag') fifo replies [] := by
  cases h with
  | nextUnread h | stoppingUnread h => cases h
  | next h =>
    cases h with
    | pushing ag => exact ⟨rfl, .next (.idle ag')⟩
  | asking h =>
    cases h with
    | pushing ag => exact ⟨rfl, .asking (.idle ag')⟩
  | asked h =>
    cases h with
    | pushing ag => exact ⟨rfl, .asked (.idle ag')⟩
  | stopping h =>
    cases h with
    | pushing ag => exact ⟨rfl, .stopping (.idle ag')⟩

theorem Stage.terminate {signal : Int} (h : Stage g worker (.got ag signal) fifo replies owed)
    (h0 : signal ≠ 0) (h1 : signal ≠ 1) : Stage g worker .terminated fifo replies owed := by
  cases h with
  | next h | asking h | asked h | stopping h => cases h
  | nextUnread h | stoppingUnread h =>
    cases h with
    | taken ag => exact absurd rfl h1
  | pullTaken ag => exact absurd rfl h0
  | stopTaken ag => exact .stopped

end

/-- What must not happen: that the worker writes the keys of a pull before the agent has read the
gradients of every push it was told of. -/
def Patient (c : Channel F) : Action → Prop
  | .writeKeys => 1 ∉ c.gradFifo ∧ ∀ ag, c.agent ≠ .got ag 1
  | _ => True

/-- All but what is owed has been pushed as it was written. -/
def Inv (c : Channel F) : Prop :=
  ∃ owed, Stage c.gradMemory c.worker c.agent c.gradFifo c.paraFifo owed ∧
    c.written = c.pushed ++ owed

omit [FloatOps F] in
theorem inv_start (ag : Agent F) (gradMemory paraMemory : Shmstruct F) :
    (start ag gradMemory paraMemory).Inv :=
  ⟨[], .next (.idle ag), rfl⟩

theorem Step.inv {numFeatures : ℕ} {c c' : Channel F} {a : Action}
    (hstep : Step numFeatures c a c') (hpatient : c.Patient a) (h : c.Inv) : c'.Inv := by
  obtain ⟨owed, hstage, howed⟩ := h
  cases hstep with
  | @writeKeys g hw hg =>
    rw [hw] at hstage
    exact ⟨owed, hstage.writeKeys hpatient.1 hpatient.2 g, howed⟩
  | signalPull hw =>
    rw [hw] at hstage
    exact ⟨owed, hstage.signalPull, howed⟩
  | waitReply hw hf =>
    rw [hw, hf] at hstage
    exact ⟨owed, hstage.waitReply, howed⟩
  | readReply hw =>
    rw [hw] at hstage
    exact ⟨owed, hstage.readReply _, howed⟩
  | @writeGradients keys values g hw hlen hg =>
    rw [hw] at hstage
    obtain ⟨rfl, hstage'⟩ := hstage.writeGradients g
    rw [pairs_transferToAgent hlen hg] at hstage'
    refine ⟨_, hstage', ?_⟩
    dsimp only
    rw [howed, List.append_nil]
  | signalPush hw =>
    rw [hw] at hstage
    exact ⟨owed, hstage.signalPush, howed⟩
  | finish hw =>
    rw [hw] at hstage
    exact ⟨owed, hstage.finish, howed⟩
  | wait ha hf =>
    rw [ha] at hstage
    exact ⟨owed, hstage.wait hf, howed⟩
  | reconfigurate ha hre =>
    rw [ha] at hstage
    exact ⟨owed, hstage.reconfigurate _, howed⟩
  | readKeys ha hpull =>
    rw [ha] at hstage
    exact ⟨owed, hstage.readKeys _, howed⟩
  | receive ha hset hreceive =>
    rw [ha] at hstage
    exact ⟨owed, hstage.receive _, howed⟩
  | writeParameters ha hset =>
    rw [ha] at hstage
    exact ⟨owed, hstage.writeParameters _, howed⟩
  | reply ha =>
    rw [ha] at hstage
    exact ⟨owed, hstage.reply, howed⟩
  | readGradients ha =>
    rw [ha] at hstage
    exact ⟨owed, hstage.readGradients, howed⟩
  | push ha hpush =>
    rw [ha] at hstage
    obtain ⟨rfl, hstage'⟩ := hstage.push _
    refine ⟨[], hstage', ?_⟩
    dsimp only
    rw [howed, List.append_nil]
  | terminate ha h0 h1 =>
    rw [ha] at hstage
    exact ⟨owed, hstage.terminate h0 h1, howed⟩

/-- **Patient runs lose no gradient.**  Let the worker and its agent run in any interleaving in
which the worker writes the keys of a pull only when the agent has read the gradients of every push
it was told of.  Then every push of the agent is one of the worker, in order, with the pairs that
the worker wrote for it. -/
theorem no_gradient_lost (numFeatures : ℕ) (ag : Agent F) (gradMemory paraMemory : Shmstruct F)
    {c : Channel F}
    (hrun : Relation.ReflTransGen (fun c c' ↦ ∃ a, c.Patient a ∧ Step numFeatures c a c')
      (start ag gradMemory paraMemory) c) {i : ℕ} (hi : i < c.pushed.length) :
    c.pushed[i]? = c.written[i]? := by
  have hinv : c.Inv := by
    clear hi
    induction hrun with
    | refl => exact inv_start ag gradMemory paraMemory
    | tail _ hstep ih =>
      obtain ⟨a, hpatient, hstep⟩ := hstep
      exact hstep.inv hpatient ih
  obtain ⟨owed, -, howed⟩ := hinv
  rw [howed, List.getElem?_append_left hi]

/-- One server for ten keys, and one agent. -/
def smallConfig : ConfigMessage where
  workerNum := 1
  serverNum := 1
  keyRange := 10
  nodeIpPort := ["10.0.0.1:80", "10.0.0.2:80", "10.0.0.3:80"]
  partition := [0]
  backupSize := 0
  serverId := [1]
  workerId := [2]
  masterId := [0]
  bound := 1

/-- The server's reply to a pull of the keys `0` and `1`. -/
def smallReply : Message Int :=
  { sendId := 1, recvId := 2, messageType := .request,
    requestMsg := some ⟨.keyValue, [0, 1], [5, 6]⟩ }

/-- A worker with one feature has pulled its two parameters, and told the agent about a gradient. -/
theorem exists_signalled : ∃ (ag₀ ag : Agent Int) (c : Channel Int),
    Agent.initializeAgent "10.0.0.1:80" 2 smallConfig Agent.noPairs Agent.noPairs = .ok ag₀ ∧
    Relation.ReflTransGen (fun c c' ↦ ∃ a, c.Patient a ∧ Step 1 c a c')
      (start ag₀ Agent.noPairs Agent.noPairs) c ∧
    c.worker = .writeKeys ∧ c.agent = .wait ag ∧ c.gradFifo = [1] ∧ c.written = [[(0, 7), (1, 8)]] ∧
    c.pushed = [] ∧
    (∃ ag' sent, { ag with gradients := c.gradMemory }.push = .ok (ag', sent)) ∧
    ∃ g, c.gradMemory.transferToAgent [0, 0] [0, 1] = .ok g ∧ g.pairs = [(0, 0), (1, 0)] ∧
      ∃ ag' sent, { ag with gradients := g }.push = .ok (ag', sent) :=
  ⟨_, _, _, rfl, .tail (.tail (.tail (.tail (.tail (.tail (.tail (.tail (.tail (.tail
    (.single ⟨.writeKeys, ⟨List.not_mem_nil, fun _ h ↦ by cases h⟩, .writeKeys rfl rfl⟩)
    ⟨.signalPull, trivial, .signalPull rfl⟩) ⟨.wait, trivial, .wait rfl rfl⟩)
    ⟨.readKeys, trivial, .readKeys rfl rfl⟩)
    ⟨.receive, trivial, .receive (m := some smallReply) rfl (List.cons_ne_nil _ _) rfl⟩)
    ⟨.writeParameters, trivial, .writeParameters rfl rfl⟩) ⟨.reply, trivial, .reply rfl⟩)
    ⟨.waitReply, trivial, .waitReply rfl rfl⟩) ⟨.readReply, trivial, .readReply rfl⟩)
    ⟨.writeGradients, trivial, .writeGradients rfl (show [7, 8].length = 2 from rfl) rfl⟩)
    ⟨.signalPush, trivial, .signalPush rfl⟩,
    rfl, rfl, rfl, rfl, rfl, ⟨_, _, rfl⟩, _, rfl, rfl, _, _, rfl⟩

/-- The agent reads the gradient, and pushes it while the worker goes on. -/
theorem no_gradient_lost_oneRound : ∃ (ag₀ : Agent Int) (c : Channel Int),
    Agent.initializeAgent "10.0.0.1:80" 2 smallConfig Agent.noPairs Agent.noPairs = .ok ag₀ ∧
    Relation.ReflTransGen (fun c c' ↦ ∃ a, c.Patient a ∧ Step 1 c a c')
      (start ag₀ Agent.noPairs Agent.noPairs) c ∧
    c.worker = .signalPull ∧ c.pushed.length = 1 ∧ c.pushed[0]? = c.written[0]? := by
  obtain ⟨ag₀, ag, c, h₀, hrun, hw, ha, hf, -, hpushed, ⟨ag', sent, hpush⟩, g, hg, -⟩ :=
    exists_signalled
  have hread := (hrun.tail ⟨.wait, trivial, .wait ha hf⟩).tail ⟨.readGradients, trivial,
    .readGradients rfl⟩
  have hnext := hread.tail ⟨.writeKeys, ⟨List.not_mem_nil, fun _ h ↦ by cases h⟩, .writeKeys hw hg⟩
  have hdone := hnext.tail ⟨.push, trivial, .push rfl hpush⟩
  have hlength : (c.pushed ++ [c.gradMemory.pairs]).length = 1 := by rw [hpushed]; rfl
  exact ⟨ag₀, _, h₀, hdone, rfl, hlength, no_gradient_lost 1 ag₀ _ _ hdone (hlength.ge)⟩

/-- The worker is faster: the agent pushes the zeros of the next pull. -/
theorem gradient_overwritten : ∃ (ag₀ : Agent Int) (c : Channel Int),
    Agent.initializeAgent "10.0.0.1:80" 2 smallConfig Agent.noPairs Agent.noPairs = .ok ag₀ ∧
    Relation.ReflTransGen (fun c c' ↦ ∃ a, Step 1 c a c')
      (start ag₀ Agent.noPairs Agent.noPairs) c ∧
    c.written = [[(0, 7), (1, 8)]] ∧ c.pushed = [[(0, 0), (1, 0)]] := by
  obtain
    ⟨ag₀, ag, c, h₀, hrun, hw, ha, hf, hwritten, hpushed, -, g, hg, hpairs, ag', sent, hpush⟩ :=
    exists_signalled
  have hsignalled : Relation.ReflTransGen (fun c c' ↦ ∃ a, Step 1 c a c')
      (start ag₀ Agent.noPairs Agent.noPairs) c :=
    Relation.ReflTransGen.mono (fun _ _ ⟨a, _, h⟩ ↦ ⟨a, h⟩) _ _ hrun
  have hread := ((hsignalled.tail ⟨.writeKeys, .writeKeys hw hg⟩).tail
    ⟨.wait, .wait ha hf⟩).tail ⟨.readGradients, .readGradients rfl⟩
  have hdone := hread.tail ⟨.push, .push rfl hpush⟩
  have hzeros : c.pushed ++ [g.pairs] = [[(0, 0), (1, 0)]] := by rw [hpushed, hpairs]; rfl
  exact ⟨ag₀, _, h₀, hdone, hwritten, hzeros⟩

end Channel

end Rpscc
