import Rpscc.Agent.Replies
import Rpscc.Cluster.Channel

/-!
# The loop of `AgentWork`

The worker tells its agent what to do by writing signals into a fifo: `0` for a pull, `1` for a
push, anything else to stop.  `agentWork` is the loop that reads them, one a pass, together with
what it does for each: the calls of `Pull` and `Push`, in order, are part of its state.  What a pass
meets besides the signal is a `Turn`: the heartbeats that have come in, the block of shared memory,
what `Receive` returns inside `Pull`, and whether anybody reads the fifo for the replies.

A call need not return: `Push` and `Pull` fail on keys that are not of the key space, and `Pull`
waits until every server it has asked has replied.  `Served` says what has to come in so that all of
them return (`Served.returns`).

`Fifo::Wait` puts `0` into a variable and lets `read` overwrite it.  When the worker has closed its
end and everything is read, `read` leaves the variable alone, and `0` is a pull.  So the agent does
exactly what was signalled if the worker ends with a signal to stop (`agentWork_terminates`).  If it
just closes its end, the agent goes on pulling until `SIGPIPE` ends it, or for ever
(`agentWork_closed`).  `performs_iff` puts the two together.
-/

set_option autoImplicit false

namespace Rpscc

/-! ## The fifo -/

/-- `class Fifo`, at the end it is read from: the signals that are written and not read yet, and
whether somebody has it open for writing. -/
structure Fifo where
  pending : List Int
  writers : Bool
deriving DecidableEq, Repr

namespace Fifo

/-- `Fifo::Wait`.  `read` blocks as long as there is nothing to read and somebody may still write;
then it returns no bytes, and `sig` keeps the `0` it was initialised with. -/
def wait (f : Fifo) : Option (Int × Fifo) :=
  match f.pending with
  | sig :: rest => some (sig, { f with pending := rest })
  | [] => if f.writers then none else some (0, f)

/-- `Fifo::Signal`, at the end a fifo is written to, with what is written and not read yet.  When
nobody has it open for reading, `write` does not return. -/
def signal (pending : List Int) (readers : Bool) (sig : Int) : Except Fault (List Int) :=
  if readers then .ok (pending ++ [sig]) else .error .brokenPipe

end Fifo

/-- What a worker asks its agent to do. -/
inductive Operation
  | pull | push
deriving DecidableEq, Repr

/-- The signal for it. -/
def Operation.signal : Operation → Int
  | .pull => 0
  | .push => 1

/-- How a worker ends: with the signal to stop, or by closing its end of the fifo. -/
inductive Ending
  | terminate | close
deriving DecidableEq, Repr

/-- The fifo with everything the worker writes. -/
def Fifo.written (ops : List Operation) : Ending → Fifo
  | .terminate => ⟨ops.map Operation.signal ++ [2], true⟩
  | .close => ⟨ops.map Operation.signal, false⟩

/-! ## The loop -/

variable {F : Type}

/-- What a pass of the loop meets: the heartbeats that have come in since the last one, the block of
shared memory, what `Receive` returns, and whether the worker has the fifo for the replies open. -/
structure Turn (F : Type) where
  heartbeats : List (Message F)
  gradMemory : Shmstruct F
  received : List (Option (Message F))
  readers : Bool

/-- What comes in is enough for a call of the agent: the keys are of the key space, and for a pull
the servers reply, and somebody is there to be told. -/
def Turn.Serves (t : Turn F) (ag : Agent F) : Operation → Prop
  | .pull => t.gradMemory.Usable ag.partition ∧
      Agent.Answered ag.localId (ag.pullSet t.gradMemory.usedKeys) 100 t.received ∧
      t.readers = true
  | .push => t.gradMemory.Usable ag.partition

/-- What comes in is enough for all calls that are signalled, and no configuration comes in.  The
last pass is the one that finds the end. -/
structure Served (ag : Agent F) (ops : List Operation) (turns : ℕ → Turn F) : Prop where
  quiet : ∀ k ≤ ops.length, ∀ m ∈ (turns k).heartbeats, m.configMsg = none
  serves : ∀ k op, ops[k]? = some op → (turns k).Serves ag op

/-- The agent inside `AgentWork`, what it has written for the worker, and the calls it has made. -/
structure Work (F : Type) where
  node : AgentNode F
  paraMemory : Shmstruct F
  paraFifo : List Int
  calls : List Operation
  sent : List (Sent F)

namespace Work

/-- `AgentWork` begins. -/
def start (node : AgentNode F) (paraMemory : Shmstruct F) : Work F := ⟨node, paraMemory, [], [], []⟩

/-- What the thread of `HeartBeat` has left for `Reconfigurate`, which comes before the signal is
looked at. -/
def check (w : Work F) (t : Turn F) : Except Fault (Work F) := do
  let node ← (t.heartbeats.foldl (fun n m ↦ (n.heartBeat m).1) w.node).checkReconfig
  .ok { w with node := node }

/-- The branch for a pull, and the one for a push. -/
def perform (w : Work F) (t : Turn F) : Operation → Except Fault (Work F)
  | .pull => do
    let r ← w.node.agent.workPull t.gradMemory
    let p ← r.1.receiveAll t.received
    let paraFifo ← Fifo.signal w.paraFifo t.readers 2
    .ok { w with
      node := { w.node with agent := p.finish }
      paraMemory := p.finish.parameters
      paraFifo := paraFifo
      calls := w.calls ++ [.pull]
      sent := w.sent ++ r.2 }
  | .push => do
    let r ← w.node.agent.workPush t.gradMemory
    .ok { w with
      node := { w.node with agent := r.1 }
      calls := w.calls ++ [.push]
      sent := w.sent ++ r.2 }

/-- The branch for any other signal, which tells the master. -/
def terminate (w : Work F) : Work F :=
  { w with
    sent := w.sent ++
      [⟨0, { sendId := w.node.agent.localId, recvId := 0, messageType := .terminate }⟩] }

/-- What has become of a call of `AgentWork`. -/
inductive Status
  /-- Another pass is to come. -/
  | running
  /-- It waits for a signal. -/
  | blocked
  /-- It has returned. -/
  | returned
deriving DecidableEq, Repr

/-- `Agent::AgentWork`, for as many passes as there is fuel. -/
def agentWork : ℕ → Work F → Fifo → (ℕ → Turn F) → Except Fault (Work F × Fifo × Status)
  | 0, w, fifo, _ => .ok (w, fifo, .running)
  | fuel + 1, w, fifo, turns =>
    match fifo.wait with
    | none => .ok (w, fifo, .blocked)
    | some (signal, fifo) => do
      let w ← w.check (turns 0)
      if signal = 0 then do
        let w ← w.perform (turns 0) .pull
        agentWork fuel w fifo fun k ↦ turns (k + 1)
      else if signal = 1 then do
        let w ← w.perform (turns 0) .push
        agentWork fuel w fifo fun k ↦ turns (k + 1)
      else
        .ok (w.terminate, fifo, .returned)

/-! ## One pass -/

variable {w w₁ w₂ : Work F} {turns : ℕ → Turn F}

theorem check_calls {t : Turn F} (h : w.check t = .ok w₁) : w₁.calls = w.calls := by
  rw [check, Checked.bind_eq_ok] at h
  obtain ⟨node, -, h⟩ := h
  cases h
  rfl

/-- An operation is recorded. -/
theorem perform_calls {t : Turn F} {op : Operation} (h : w.perform t op = .ok w₁) :
    w₁.calls = w.calls ++ [op] := by
  cases op with
  | pull =>
    rw [perform, Checked.bind_eq_ok] at h
    obtain ⟨r, -, h⟩ := h
    rw [Checked.bind_eq_ok] at h
    obtain ⟨p, -, h⟩ := h
    rw [Checked.bind_eq_ok] at h
    obtain ⟨paraFifo, -, h⟩ := h
    cases h
    rfl
  | push =>
    rw [perform, Checked.bind_eq_ok] at h
    obtain ⟨r, -, h⟩ := h
    cases h
    rfl

/-- A pass with a signal for an operation performs it. -/
theorem agentWork_signal (fuel : ℕ) (w : Work F) (op : Operation) (rest : List Int)
    (writers : Bool) (turns : ℕ → Turn F) :
    agentWork (fuel + 1) w ⟨op.signal :: rest, writers⟩ turns =
      (do
        let w ← w.check (turns 0)
        let w ← w.perform (turns 0) op
        agentWork fuel w ⟨rest, writers⟩ fun k ↦ turns (k + 1)) := by
  rw [agentWork]
  cases op with
  | pull => rfl
  | push => rfl

theorem of_agentWork_signal {fuel : ℕ} {op : Operation} {rest : List Int} {writers : Bool}
    {r : Work F × Fifo × Status}
    (h : agentWork (fuel + 1) w ⟨op.signal :: rest, writers⟩ turns = .ok r) :
    ∃ w₁ w₂, w.check (turns 0) = .ok w₁ ∧ w₁.perform (turns 0) op = .ok w₂ ∧
      agentWork fuel w₂ ⟨rest, writers⟩ (fun k ↦ turns (k + 1)) = .ok r := by
  rw [agentWork_signal, Checked.bind_eq_ok] at h
  obtain ⟨w₁, hcheck, h⟩ := h
  rw [Checked.bind_eq_ok] at h
  obtain ⟨w₂, hperform, h⟩ := h
  exact ⟨w₁, w₂, hcheck, hperform, h⟩

/-- The end of the fifo reads like one more signal for a pull. -/
theorem agentWork_eof (fuel : ℕ) (w : Work F) (turns : ℕ → Turn F) :
    agentWork (fuel + 1) w ⟨[], false⟩ turns
      = agentWork (fuel + 1) w ⟨[Operation.pull.signal], false⟩ turns := rfl

/-! ## The steps of a pass -/

/-- What is received inside `Pull` is received step by step. -/
theorem receiveAll_steps [FloatOps F] (numFeatures : ℕ) :
    ∀ {ms : List (Option (Message F))} {p p' : Agent.Pulling F} {c : Channel F},
      c.agent = .pulling p → p.receiveAll ms = .ok p' → p'.serverSet = [] ∧
        Relation.ReflTransGen (fun c c' ↦ ∃ a, Channel.Step numFeatures c a c') c
          { c with agent := .pulling p' }
  | [], p, p', c, hc, h => by
    rw [Agent.Pulling.receiveAll] at h
    split at h
    · rename_i hset
      cases h
      exact ⟨hset, hc ▸ .refl⟩
    · cases h
  | m :: ms, p, p', c, hc, h => by
    rw [Agent.Pulling.receiveAll] at h
    split at h
    · rename_i hset
      cases h
      exact ⟨hset, hc ▸ .refl⟩
    · rename_i hset
      rw [Checked.bind_eq_ok] at h
      obtain ⟨p₁, hreceive, h⟩ := h
      have hstep : Channel.Step numFeatures c .receive _ := .receive hc hset hreceive
      obtain ⟨hdone, hsteps⟩ := receiveAll_steps numFeatures (c := { c with agent := .pulling p₁ })
        rfl h
      exact ⟨hdone, .head ⟨_, hstep⟩ hsteps⟩

/-- When nothing comes between them, the steps of the agent after a signal are the branch of
`AgentWork` for it. -/
theorem perform_steps [FloatOps F] (numFeatures : ℕ) {t : Turn F} {op : Operation} {c : Channel F}
    (hc : c.agent = .got w.node.agent op.signal) (hmemory : c.gradMemory = t.gradMemory)
    (h : w.perform t op = .ok w₁) :
    ∃ c', Relation.ReflTransGen (fun c c' ↦ ∃ a, Channel.Step numFeatures c a c') c c' ∧
      c'.agent = .wait w₁.node.agent := by
  cases op with
  | pull =>
    rw [perform, Checked.bind_eq_ok] at h
    obtain ⟨⟨p, sent⟩, hpull, h⟩ := h
    rw [Checked.bind_eq_ok] at h
    obtain ⟨p', hreceived, h⟩ := h
    rw [Checked.bind_eq_ok] at h
    obtain ⟨paraFifo, -, h⟩ := h
    cases h
    have hread : Channel.Step numFeatures c .readKeys _ := .readKeys hc (hmemory ▸ hpull)
    obtain ⟨hset, hsteps⟩ := receiveAll_steps numFeatures (c := { c with agent := .pulling p })
      rfl hreceived
    exact ⟨_, ((Relation.ReflTransGen.head ⟨_, hread⟩ hsteps).tail
      ⟨_, .writeParameters rfl hset⟩).tail ⟨_, .reply rfl⟩, rfl⟩
  | push =>
    rw [perform, Checked.bind_eq_ok] at h
    obtain ⟨⟨ag, sent⟩, hpush, h⟩ := h
    cases h
    obtain ⟨c', hread, hstep⟩ := Channel.workPush_steps numFeatures hc (hmemory ▸ hpush)
    exact ⟨_, .tail (.single ⟨_, hread⟩) ⟨_, hstep⟩, rfl⟩

/-! ## All passes -/

/-- The calls of `Pull` and `Push` that are signalled return, and so do those of `Reconfigurate`. -/
def Returns : Work F → List Operation → (ℕ → Turn F) → Prop
  | w, [], turns => ∃ w₁, w.check (turns 0) = .ok w₁
  | w, op :: ops, turns => ∃ w₁ w₂, w.check (turns 0) = .ok w₁ ∧
      w₁.perform (turns 0) op = .ok w₂ ∧ w₂.Returns ops fun k ↦ turns (k + 1)

/-- What is signalled is done, whatever comes behind it in the fifo. -/
theorem agentWork_signals : ∀ {ops : List Operation} {w : Work F} {turns : ℕ → Turn F},
    w.Returns ops turns → ∃ w', w'.calls = w.calls ++ ops ∧
      w'.Returns [] (fun k ↦ turns (ops.length + k)) ∧ ∀ fuel rest writers,
        agentWork (ops.length + fuel) w ⟨ops.map Operation.signal ++ rest, writers⟩ turns
          = agentWork fuel w' ⟨rest, writers⟩ fun k ↦ turns (ops.length + k)
  | [], w, turns, h => by
    refine ⟨w, (List.append_nil _).symm, ?_, fun fuel rest writers ↦ ?_⟩
    · simpa only [List.length_nil, Nat.zero_add] using h
    · simp only [List.length_nil, Nat.zero_add, List.map_nil, List.nil_append]
  | op :: ops, w, turns, ⟨w₁, w₂, hcheck, hperform, hrest⟩ => by
    obtain ⟨w', hcalls, hreturns, hwork⟩ := agentWork_signals hrest
    have hshift : ∀ k, (op :: ops).length + k = ops.length + k + 1 := by
      intro k
      rw [List.length_cons]
      omega
    refine ⟨w', ?_, ?_, fun fuel rest writers ↦ ?_⟩
    · rw [hcalls, perform_calls hperform, check_calls hcheck, List.append_assoc,
        List.singleton_append]
    · simpa only [hshift] using hreturns
    · simp only [hshift, List.map_cons, List.cons_append]
      rw [agentWork_signal, hcheck, Checked.ok_bind, hperform, Checked.ok_bind, hwork]

/-- As long as the worker has not ended, the agent waits for it to go on. -/
theorem agentWork_blocks {ops : List Operation} (h : w.Returns ops turns) :
    ∃ fuel w', agentWork fuel w ⟨ops.map Operation.signal, true⟩ turns
      = .ok (w', ⟨[], true⟩, .blocked) ∧ w'.calls = w.calls ++ ops := by
  obtain ⟨w', hcalls, -, hwork⟩ := agentWork_signals h
  refine ⟨ops.length + 1, w', ?_, hcalls⟩
  have hall := hwork 1 [] true
  rw [List.append_nil] at hall
  rw [hall]
  rfl

/-- At the signal to stop it returns. -/
theorem agentWork_terminates {ops : List Operation} (h : w.Returns ops turns) :
    ∃ fuel w' fifo, agentWork fuel w (.written ops .terminate) turns = .ok (w', fifo, .returned) ∧
      w'.calls = w.calls ++ ops := by
  obtain ⟨w', hcalls, ⟨w'', hcheck⟩, hwork⟩ := agentWork_signals h
  refine ⟨ops.length + 1, w''.terminate, ⟨[], true⟩, ?_, ?_⟩
  · rw [Fifo.written, hwork 1 [2] true]
    exact congrArg (· >>= _) hcheck
  · rw [← hcalls, ← check_calls hcheck]
    rfl

/-- **When the worker has closed its end the agent does not return.**  Once all that was signalled
is done, every pass is a pull. -/
theorem agentWork_closed : ∀ {fuel : ℕ} {ops : List Operation} {w w' : Work F} {fifo : Fifo}
    {status : Status} {turns : ℕ → Turn F},
    agentWork fuel w (.written ops .close) turns = .ok (w', fifo, status) →
      status = .running ∧
        (ops.length ≤ fuel → w'.calls = w.calls ++ ops ++ List.replicate (fuel - ops.length) .pull)
  | 0, ops, w, w', fifo, status, turns, h => by
    cases h
    refine ⟨rfl, fun hle ↦ ?_⟩
    rw [List.length_eq_zero_iff.1 (Nat.le_zero.1 hle), List.append_nil]
    exact (List.append_nil _).symm
  | fuel + 1, [], w, w', fifo, status, turns, h => by
    rw [Fifo.written, List.map_nil, agentWork_eof] at h
    obtain ⟨w₁, w₂, hcheck, hperform, h⟩ := of_agentWork_signal h
    have hrest : agentWork fuel w₂ (.written [] .close) _ = .ok (w', fifo, status) := h
    obtain ⟨hstatus, hcalls⟩ := agentWork_closed hrest
    refine ⟨hstatus, fun _ ↦ ?_⟩
    rw [hcalls (Nat.zero_le _), perform_calls hperform, check_calls hcheck]
    simp [List.replicate_succ]
  | fuel + 1, op :: ops, w, w', fifo, status, turns, h => by
    rw [Fifo.written, List.map_cons] at h
    obtain ⟨w₁, w₂, hcheck, hperform, h⟩ := of_agentWork_signal h
    have hrest : agentWork fuel w₂ (.written ops .close) _ = .ok (w', fifo, status) := h
    obtain ⟨hstatus, hcalls⟩ := agentWork_closed hrest
    refine ⟨hstatus, fun hle ↦ ?_⟩
    rw [hcalls (Nat.le_of_succ_le_succ hle), perform_calls hperform, check_calls hcheck,
      List.length_cons, Nat.add_sub_add_right]
    simp

/-- If it returns, it has met the signal to stop, and made all calls before. -/
theorem returns_of_agentWork : ∀ {fuel : ℕ} {ops : List Operation} {w w' : Work F} {fifo : Fifo}
    {turns : ℕ → Turn F},
    agentWork fuel w (.written ops .terminate) turns = .ok (w', fifo, .returned) →
      w.Returns ops turns
  | 0, ops, w, w', fifo, turns, h => by cases h
  | fuel + 1, [], w, w', fifo, turns, h => by
    rw [Fifo.written, List.map_nil, List.nil_append, agentWork] at h
    dsimp only [Fifo.wait] at h
    rw [Checked.bind_eq_ok] at h
    obtain ⟨w₁, hcheck, -⟩ := h
    exact ⟨w₁, hcheck⟩
  | fuel + 1, op :: ops, w, w', fifo, turns, h => by
    rw [Fifo.written, List.map_cons, List.cons_append] at h
    obtain ⟨w₁, w₂, hcheck, hperform, h⟩ := of_agentWork_signal h
    exact ⟨w₁, w₂, hcheck, hperform, returns_of_agentWork h⟩

/-- `AgentWork` makes the signalled calls, in order and no others, and returns. -/
def Performs (w : Work F) (fifo : Fifo) (turns : ℕ → Turn F) (ops : List Operation) : Prop :=
  ∃ fuel w' fifo', agentWork fuel w fifo turns = .ok (w', fifo', .returned) ∧ w'.calls = ops

/-- Whatever comes in, it does not after a worker that just closes its end. -/
theorem not_performs_closed (w : Work F) (ops ops' : List Operation) (turns : ℕ → Turn F) :
    ¬ w.Performs (.written ops .close) turns ops' := by
  rintro ⟨fuel, w', fifo, hwork, -⟩
  exact absurd (agentWork_closed hwork).1 (by simp)

/-- After one that ends with the signal to stop it does if and only if the calls return. -/
theorem performs_terminate_iff (node : AgentNode F) (paraMemory : Shmstruct F)
    (ops : List Operation) (turns : ℕ → Turn F) :
    (start node paraMemory).Performs (.written ops .terminate) turns ops ↔
      (start node paraMemory).Returns ops turns := by
  constructor
  · rintro ⟨fuel, w', fifo', hwork, -⟩
    exact returns_of_agentWork hwork
  · intro h
    obtain ⟨fuel, w', fifo, hwork, hcalls⟩ := agentWork_terminates h
    exact ⟨fuel, w', fifo, hwork, hcalls⟩

/-! ## When the calls return -/

/-- Heartbeats without a configuration change nothing. -/
theorem foldl_heartBeat (n : AgentNode F) : ∀ {ms : List (Message F)},
    (∀ m ∈ ms, m.configMsg = none) → ms.foldl (fun n m ↦ (n.heartBeat m).1) n = n
  | [], _ => rfl
  | m :: ms, h => by
    rw [List.forall_mem_cons] at h
    have hm : (n.heartBeat m).1 = n := by
      rw [AgentNode.heartBeat, h.1]
      rfl
    rw [List.foldl_cons, hm]
    exact foldl_heartBeat n h.2

theorem check_ok {t : Turn F} (hconfig : w.node.reconfigMsg = none)
    (hquiet : ∀ m ∈ t.heartbeats, m.configMsg = none) : w.check t = .ok w := by
  rw [check, foldl_heartBeat _ hquiet, AgentNode.checkReconfig, hconfig]
  rfl

/-- The branch for a signal returns, and the agent sends to the same servers as before. -/
theorem perform_ok {ag : Agent F} {t : Turn F} {op : Operation} (hr : ag.CanRoute)
    (hsame : ag.SameRoutes w.node.agent) (h : t.Serves ag op) :
    ∃ w', w.perform t op = .ok w' ∧ ag.SameRoutes w'.node.agent ∧
      w'.node.reconfigMsg = w.node.reconfigMsg := by
  cases op with
  | pull =>
    obtain ⟨husable, hanswered, hreaders⟩ := h
    rw [← hsame.partition] at husable
    rw [← hsame.localId, ← hsame.pullSet_eq] at hanswered
    obtain ⟨p, sent, p', hpull, hall, hsame'⟩ := Agent.workPull_returns (hsame.canRoute hr) husable
      hanswered
    have hsignal : Fifo.signal w.paraFifo t.readers 2 = .ok (w.paraFifo ++ [2]) := if_pos hreaders
    rw [perform, hpull, Checked.ok_bind, hall, Checked.ok_bind, hsignal, Checked.ok_bind]
    exact ⟨_, rfl, hsame.trans hsame', rfl⟩
  | push =>
    have husable : t.gradMemory.Usable w.node.agent.partition := hsame.partition.symm ▸ h
    obtain ⟨ag', sent, hpush, hsame'⟩ := Agent.workPush_returns (hsame.canRoute hr) husable
    rw [perform, hpush, Checked.ok_bind]
    exact ⟨_, rfl, hsame.trans hsame', rfl⟩

/-- **When enough comes in, the calls return.** -/
theorem returns_of_served {ag : Agent F} (hr : ag.CanRoute) :
    ∀ {ops : List Operation} {w : Work F} {turns : ℕ → Turn F}, ag.SameRoutes w.node.agent →
      w.node.reconfigMsg = none → Served ag ops turns → w.Returns ops turns
  | [], w, turns, _, hconfig, h => ⟨w, check_ok hconfig (h.quiet 0 le_rfl)⟩
  | op :: ops, w, turns, hsame, hconfig, h => by
    obtain ⟨w', hperform, hsame', hconfig'⟩ := perform_ok hr hsame (h.serves 0 op rfl)
    have hrest : Served ag ops fun k ↦ turns (k + 1) := {
      quiet := fun k hk ↦ h.quiet (k + 1) (Nat.succ_le_succ hk)
      serves := fun k op' hop ↦ h.serves (k + 1) op' hop }
    exact ⟨w, w', check_ok hconfig (h.quiet 0 (Nat.zero_le _)), hperform,
      returns_of_served hr hsame' (hconfig'.trans hconfig) hrest⟩

/-- **The agent does what the worker signals, and returns, exactly when the worker ends with the
signal to stop**, for any signals, if what comes in is enough for the calls that are signalled:
their keys are of the key space, the servers reply, and there is no configuration to take.  After a
worker that just closes its end it never does, whatever comes in (`not_performs_closed`). -/
theorem performs_iff {node : AgentNode F} {ops : List Operation} {turns : ℕ → Turn F}
    (hr : node.agent.CanRoute) (hconfig : node.reconfigMsg = none)
    (hserved : Served node.agent ops turns) (paraMemory : Shmstruct F) (ending : Ending) :
    (start node paraMemory).Performs (.written ops ending) turns ops ↔ ending = .terminate := by
  cases ending with
  | terminate =>
    have hreturns : (start node paraMemory).Returns ops turns :=
      returns_of_served hr (.refl _) hconfig hserved
    exact iff_of_true ((performs_terminate_iff node paraMemory ops turns).2 hreturns) rfl
  | close =>
    exact iff_of_false (not_performs_closed _ _ _ _) (by simp)

/-- What a worker with two parameters and its server do for the agent, in every round. -/
def smallTurn (readers : Bool) : Turn Int where
  heartbeats := [{ sendId := 0, recvId := 2, messageType := .heartbeat }]
  gradMemory := .ofPairs 0 [(0, 7), (1, 8)] (by decide)
  received := [none, some Channel.smallReply]
  readers := readers

/-- It is enough for any sequence of signals; for one without a pull, even if nobody reads the
replies. -/
theorem exists_served : ∃ ag : Agent Int,
    Agent.initializeAgent "10.0.0.1:80" 2 Channel.smallConfig Agent.noPairs Agent.noPairs = .ok ag ∧
    ag.CanRoute ∧ ∀ (ops : List Operation) (readers : Bool), (.pull ∈ ops → readers = true) →
      Served ag ops fun _ ↦ smallTurn readers := by
  obtain ⟨ag, h₀, hlocal, hids, hpart, hrange, hset⟩ : ∃ ag : Agent Int,
      Agent.initializeAgent "10.0.0.1:80" 2 Channel.smallConfig Agent.noPairs Agent.noPairs
        = .ok ag ∧ ag.localId = 2 ∧ ag.serverIds = [1] ∧ ag.partition.partVec = [0] ∧
        ag.partition.keyRange = 10 ∧ ag.pullSet [0, 1] = [1] := ⟨_, rfl, rfl, rfl, rfl, rfl, rfl⟩
  have hroute : ag.CanRoute := by
    refine ⟨?_, by rw [hids, hpart]; rfl, ?_⟩
    · rw [Partition.Ordered, hpart]
      exact List.pairwise_singleton _ _
    · rw [hids]
      exact List.nodup_singleton 1
  have husable : ∀ readers, (smallTurn readers).gradMemory.Usable ag.partition := fun readers ↦ {
    nonneg := show (0 : Int) ≤ 2 by decide
    le := show (2 : Int) ≤ 100 by decide
    inRange := by simp [smallTurn, Partition.InRange, hrange] }
  have hanswered : ∀ readers, Agent.Answered ag.localId
      (ag.pullSet (smallTurn readers).gradMemory.usedKeys) 100 (smallTurn readers).received := by
    intro readers
    have hkeys : (smallTurn readers).gradMemory.usedKeys = [0, 1] := rfl
    have hreplies : (smallTurn readers).received.filterMap (Agent.replyOf 2)
        = [(1, ⟨.keyValue, [0, 1], [5, 6]⟩)] := rfl
    rw [hkeys, hset, hlocal]
    refine ⟨?_, ?_, ?_⟩ <;> simp [hreplies]
  refine ⟨ag, h₀, hroute, fun ops readers hreaders ↦ ⟨?_, fun k op hop ↦ ?_⟩⟩
  · simp [smallTurn]
  · cases op with
    | pull =>
      exact ⟨husable readers, hanswered readers, hreaders (List.mem_of_getElem? hop)⟩
    | push => exact husable readers

/-- A worker pulls, pushes and pulls again before it stops the agent. -/
theorem performs_iff_rounds : ∃ (ag : Agent Int) (turns : ℕ → Turn Int),
    Agent.initializeAgent "10.0.0.1:80" 2 Channel.smallConfig Agent.noPairs Agent.noPairs = .ok ag ∧
    (start ⟨ag, 2, none⟩ Agent.noPairs).Performs (.written [.pull, .push, .pull] .terminate) turns
      [.pull, .push, .pull] := by
  obtain ⟨ag, h₀, hroute, hserved⟩ := exists_served
  exact ⟨ag, _, h₀, (performs_iff hroute rfl (hserved [.pull, .push, .pull] true fun _ ↦ rfl)
    Agent.noPairs .terminate).2 rfl⟩

/-- A worker closes its end after its first push.  Its agent pushes, and then pulls the keys of the
gradient, and pulls them again.  When the worker is dead, so that nobody reads the replies either,
the first of these pulls is the end of the agent. -/
theorem pulls_of_nobody : ∃ ag : Agent Int,
    Agent.initializeAgent "10.0.0.1:80" 2 Channel.smallConfig Agent.noPairs Agent.noPairs = .ok ag ∧
    (∀ readers, Served ag [.push] fun _ ↦ smallTurn readers) ∧
    (∃ w fifo, agentWork 3 (start ⟨ag, 2, none⟩ Agent.noPairs) (.written [.push] .close)
      (fun _ ↦ smallTurn true) = .ok (w, fifo, .running) ∧ w.calls = [.push, .pull, .pull]) ∧
    agentWork 2 (start ⟨ag, 2, none⟩ Agent.noPairs) (.written [.push] .close)
      (fun _ ↦ smallTurn false) = .error .brokenPipe ∧
    ∀ readers, ¬ (start ⟨ag, 2, none⟩ Agent.noPairs).Performs (.written [.push] .close)
      (fun _ ↦ smallTurn readers) [.push] := by
  obtain ⟨ag, h₀, -, hserved⟩ := exists_served
  refine ⟨ag, h₀, fun readers ↦ hserved [.push] readers (by simp), ?_, ?_,
    fun readers ↦ not_performs_closed _ _ _ _⟩
  · cases h₀
    exact ⟨_, _, rfl, rfl⟩
  · cases h₀
    rfl

end Work

end Rpscc
