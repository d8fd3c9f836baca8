import Mathlib.Data.List.Perm.Basic
import Rpscc.Master.Registration

/-!
# When the master stops

`MainLoop` handles the messages of the master one after the other.  An agent whose worker is done
sends a terminate message, and the loop ends when it has heard of as many nodes in this way as
`worker_num_` says.

That number is from the command line.  The agents themselves are in `agent_id_`, which shrinks when
`FixConfig` takes out one that is dead; and who sends a terminate message is not looked at.  So the
loop ends too early when somebody else sends one, and never when an agent dies that has not sent its
own (`stops_early_or_never`).  `stops_when_done` is about the runs in which neither happens.
-/

set_option autoImplicit false

namespace Rpscc

/-- `Master::MainLoop` with `terminated_node_`; `ended` is its local variable `terminated`. -/
structure MainLoop where
  master : Master
  terminatedNode : List Int := []
  ended : Bool := false
deriving DecidableEq, Repr

namespace MainLoop

variable {F : Type}

/-- The body of the loop, for one message.  An absent part of a message reads as an empty one. -/
def receive (l : MainLoop) (draw : ℕ → Int) (now : Int) (msg : Message F) :
    Except Fault (MainLoop × Option (List (Sent F))) :=
  match msg.messageType with
  | .config | .request => .ok (l, none)
  | .heartbeat => do
    let m ← l.master.processHeartbeatMsg now msg
    .ok ({ l with master := m }, none)
  | .register => do
    let r ← l.master.register draw now (msg.registerMsg.getD ⟨"", 0, false⟩)
    .ok ({ l with master := r.1 }, r.2)
  | .terminate =>
    let terminatedNode := l.terminatedNode.insert msg.sendId
    .ok ({ l with
      terminatedNode := terminatedNode
      ended := decide ((terminatedNode.length : Int) = l.master.config.workerNum) }, none)

/-- What happens while the loop runs. -/
inductive Event (F : Type)
  /-- The loop receives a message. -/
  | message (draw : ℕ → Int) (now : Int) (msg : Message F)
  /-- `DetectDeadNode` calls `FixConfig`. -/
  | fix (dead : List Int)

/-- One event. -/
def step (l : MainLoop) : Event F → Except Fault (MainLoop × Option (List (Sent F)))
  | .message draw now msg => l.receive draw now msg
  | .fix dead => do
    let config ← l.master.config.fixConfig dead
    .ok ({ l with master := { l.master with config := config } }, none)

/-- The sender of a terminate message. -/
def Event.terminator : Event F → Option Int
  | .message _ _ msg => if msg.messageType = .terminate then some msg.sendId else none
  | .fix _ => none

/-- The nodes that have sent a terminate message. -/
def terminators (events : List (Event F)) : List Int := events.filterMap Event.terminator

/-- Not a register message. -/
def Event.NotRegister : Event F → Prop
  | .message _ _ msg => msg.messageType ≠ .register
  | .fix _ => True

/-- Only agents send terminate messages, and none of them is taken out before it has sent its
own. -/
def Fair (l : MainLoop) : Event F → Prop
  | .message _ _ msg => msg.messageType = .terminate →
      msg.sendId ∈ l.master.config.agentId ∨ msg.sendId ∈ l.terminatedNode
  | .fix dead => ∀ id ∈ dead, id ∈ l.master.config.agentId → id ∈ l.terminatedNode

/-- The run of the loop, from the master `m` on, over events that are all fair.  Nobody registers
any more, and nothing is received once the loop has ended. -/
inductive FairRun (m : Master) : List (Event F) → MainLoop → Prop
  | nil : FairRun m [] { master := m }
  | snoc {events : List (Event F)} {e : Event F} {l l' : MainLoop}
      {sent : Option (List (Sent F))} (hrun : FairRun m events l) (hended : l.ended = false)
      (hkind : e.NotRegister) (hfair : l.Fair e) (hstep : l.step e = .ok (l', sent)) :
      FairRun m (events ++ [e]) l'

/-! ## What a fair run keeps -/

/-- The nodes that have sent a terminate message are agents of `m`, and the agents of `m` that are
gone have sent one. -/
structure Inv (m : Master) (events : List (Event F)) (l : MainLoop) : Prop where
  workerNum : l.master.config.workerNum = m.config.workerNum
  nodup : (l.master.config.serverId ++ l.master.config.agentId).Nodup
  agents : ∀ a ∈ l.master.config.agentId, a ∈ m.config.agentId
  gone : ∀ a ∈ m.config.agentId, a ∉ l.master.config.agentId → a ∈ l.terminatedNode
  known : ∀ id ∈ l.terminatedNode, id ∈ m.config.agentId
  nodupTerminated : l.terminatedNode.Nodup
  mem_terminated : ∀ id, id ∈ l.terminatedNode ↔ id ∈ terminators events

variable {m : Master} {events : List (Event F)} {l l' : MainLoop}

@[simp, grind =] theorem mem_terminators_concat {e : Event F} {id : Int} :
    id ∈ terminators (events ++ [e]) ↔ id ∈ terminators events ∨ e.terminator = some id := by
  simp only [terminators, List.mem_filterMap, List.mem_append, List.mem_singleton]
  constructor
  · rintro ⟨d, hd | rfl, hid⟩
    · exact .inl ⟨d, hd, hid⟩
    · exact .inr hid
  · rintro (⟨d, hd, hid⟩ | hid)
    · exact ⟨d, .inl hd, hid⟩
    · exact ⟨e, .inr rfl, hid⟩

/-- An event that has nothing to do with the agents. -/
theorem Inv.frame (h : Inv m events l) {e : Event F} (hterminator : e.terminator = none)
    (hworkers : l'.master.config.workerNum = l.master.config.workerNum)
    (hservers : l'.master.config.serverId = l.master.config.serverId)
    (hagents : l'.master.config.agentId = l.master.config.agentId)
    (hterminated : l'.terminatedNode = l.terminatedNode) : Inv m (events ++ [e]) l' where
  workerNum := hworkers.trans h.workerNum
  nodup := by rw [hservers, hagents]; exact h.nodup
  agents := by rw [hagents]; exact h.agents
  gone := by rw [hagents, hterminated]; exact h.gone
  known := by rw [hterminated]; exact h.known
  nodupTerminated := by rw [hterminated]; exact h.nodupTerminated
  mem_terminated := by
    intro id
    rw [hterminated, h.mem_terminated, mem_terminators_concat, hterminator]
    simp

theorem getIp_lists (t : TaskConfig) (id : Int) : (t.getIp id).1.workerNum = t.workerNum ∧
    (t.getIp id).1.serverId = t.serverId ∧ (t.getIp id).1.agentId = t.agentId := by
  rw [TaskConfig.getIp]
  split <;> exact ⟨rfl, rfl, rfl⟩

theorem Inv.terminate (h : Inv m events l) {draw : ℕ → Int} {now : Int} {msg : Message F}
    (htype : msg.messageType = .terminate) (hfair : l.Fair (.message draw now msg)) {ended : Bool} :
    Inv m (events ++ [.message draw now msg])
      { l with terminatedNode := l.terminatedNode.insert msg.sendId, ended := ended } where
  workerNum := h.workerNum
  nodup := h.nodup
  agents := h.agents
  gone := fun a ha hnot ↦ List.mem_insert_of_mem (h.gone a ha hnot)
  known := by
    intro id hid
    rcases List.mem_insert_iff.1 hid with rfl | hid
    · exact (hfair htype).elim (h.agents _) (h.known _)
    · exact h.known id hid
  nodupTerminated := h.nodupTerminated.insert
  mem_terminated := by
    intro id
    rw [mem_terminators_concat, Event.terminator, if_pos htype, List.mem_insert_iff,
      h.mem_terminated, Option.some.injEq, eq_comm, or_comm]

theorem Inv.fix (h : Inv m events l) {dead : List Int} {t : TaskConfig}
    (hfair : l.Fair (.fix dead : Event F)) (ht : l.master.config.fixConfig dead = .ok t) :
    Inv m (events ++ [.fix dead]) { l with master := { l.master with config := t } } := by
  have hwithout := TaskConfig.fixConfig_without h.nodup ht
  have hmem : ∀ a, a ∈ t.agentId ↔ a ∈ l.master.config.agentId ∧ a ∉ dead := by
    intro a
    rw [hwithout.agentId, List.mem_filter, decide_eq_true_eq]
  exact {
    workerNum := hwithout.workerNum.trans h.workerNum
    nodup := h.nodup.sublist hwithout.sublist
    agents := fun a ha ↦ h.agents a ((hmem a).1 ha).1
    gone := by
      intro a ha hnot
      by_cases hl : a ∈ l.master.config.agentId
      · exact hfair a (by_contra fun hdead ↦ hnot ((hmem a).2 ⟨hl, hdead⟩)) hl
      · exact h.gone a ha hl
    known := h.known
    nodupTerminated := h.nodupTerminated
    mem_terminated := by
      intro id
      rw [mem_terminators_concat, Event.terminator]
      simpa using h.mem_terminated id }

theorem Inv.step (h : Inv m events l) {e : Event F} {sent : Option (List (Sent F))}
    (hkind : e.NotRegister) (hfair : l.Fair e) (hstep : l.step e = .ok (l', sent)) :
    Inv m (events ++ [e]) l' := by
  cases e with
  | message draw now msg =>
    rw [MainLoop.step, receive] at hstep
    split at hstep
    · rename_i htype
      cases hstep
      exact h.frame (by simp [Event.terminator, htype]) rfl rfl rfl rfl
    · rename_i htype
      cases hstep
      exact h.frame (by simp [Event.terminator, htype]) rfl rfl rfl rfl
    · rename_i htype
      rw [Checked.bind_eq_ok] at hstep
      obtain ⟨m₁, hm₁, hstep⟩ := hstep
      cases hstep
      rw [Master.processHeartbeatMsg] at hm₁
      split at hm₁
      · simp at hm₁
      · split at hm₁
        · cases hm₁
          obtain ⟨hworkers, hservers, hagents⟩ := getIp_lists l.master.config msg.sendId
          exact h.frame (by simp [Event.terminator, htype]) hworkers hservers hagents rfl
        · simp at hm₁
    · rename_i htype
      exact absurd htype hkind
    · rename_i htype
      cases hstep
      exact h.terminate htype hfair
  | fix dead =>
    rw [MainLoop.step, Checked.bind_eq_ok] at hstep
    obtain ⟨t, ht, hstep⟩ := hstep
    cases hstep
    exact h.fix hfair ht

theorem FairRun.inv (hrun : FairRun m events l)
    (hnodup : (m.config.serverId ++ m.config.agentId).Nodup) : Inv m events l := by
  induction hrun with
  | nil =>
    exact ⟨rfl, hnodup, fun _ ↦ id, fun a ha hnot ↦ absurd ha hnot, by simp, List.nodup_nil,
      by simp [terminators]⟩
  | snoc _ _ hkind hfair hstep ih => exact ih.step hkind hfair hstep

/-- As many have sent a terminate message as there were agents if and only if all that are left
have. -/
theorem Inv.length_eq_iff (h : Inv m events l) (hnodup : m.config.agentId.Nodup) :
    l.terminatedNode.length = m.config.agentId.length ↔
      ∀ a ∈ l.master.config.agentId, a ∈ terminators events := by
  have hsub : l.terminatedNode.Subperm m.config.agentId :=
    List.subperm_of_subset h.nodupTerminated h.known
  simp only [← h.mem_terminated]
  constructor
  · intro hlen a ha
    exact (hsub.perm_of_length_le hlen.ge).mem_iff.2 (h.agents a ha)
  · intro hall
    refine le_antisymm hsub.length_le (List.subperm_of_subset hnodup fun a ha ↦ ?_).length_le
    by_cases hl : a ∈ l.master.config.agentId
    · exact hall a hl
    · exact h.gone a ha hl

/-- **The master stops when the work is done**, as long as only agents send terminate messages and
none of them is taken out before it has sent its own.  After any registrations with which the
cluster is ready, and any fair run of the loop from there, the terminate message that comes next
ends the loop if and only if with it every agent that is left has sent one. -/
theorem stops_when_done {f : Flags} {masters : List String} {rs : List Master.Registration}
    {tr : List (Master.Registration × Option (List (Sent F)))}
    (hm : Checked.run Master.handle (Master.initializeMaster f masters) rs = .ok (m, tr))
    (hready : m.config.ready = true) {draw : ℕ → Int} {now : Int} {msg : Message F}
    (htype : msg.messageType = .terminate)
    (hrun : FairRun m (events ++ [.message draw now msg]) l) :
    l.ended = true ↔
      ∀ a ∈ l.master.config.agentId, a ∈ terminators (events ++ [.message draw now msg]) := by
  obtain ⟨_, _, hm', hn, -⟩ := Master.registrations_ok (F := F) f masters rs
  obtain ⟨rfl, rfl⟩ : m = _ ∧ tr = _ := by simpa [hm] using hm'
  have hworkers : m.config.workerNum = m.config.agentId.length := by
    rw [TaskConfig.ready, decide_eq_true_eq] at hready
    exact hready.2.symm
  have hinv := hrun.inv hn.nodup
  rw [← hinv.length_eq_iff hn.nodup.of_append_right]
  -- the last step was the one for the message
  generalize hevents : events ++ [Event.message draw now msg] = es at hrun
  cases hrun with
  | nil => simp at hevents
  | @snoc events' e l₁ _ sent hrun hended hkind hfair hstep =>
    obtain ⟨rfl, hlast⟩ := List.append_inj' hevents rfl
    cases hlast
    have h₁ := hrun.inv hn.nodup
    simp only [step, receive, htype, Except.ok.injEq, Prod.mk.injEq] at hstep
    obtain ⟨rfl, -⟩ := hstep
    simp only [decide_eq_true_eq, h₁.workerNum, hworkers, Nat.cast_inj]

/-- A terminate message. -/
def terminateOf (id : Int) : Event Int :=
  .message (fun _ ↦ 0) 0 { sendId := id, recvId := 0, messageType := .terminate }

/-- Two servers and two agents. -/
def twoAgents : Flags := { Master.smallFlags with workerNum := 2 }

/-- Two agents are done one after the other; the first is taken out in between. -/
theorem stops_when_done_two : ∃ m tr l,
    Checked.run (Master.handle (F := Int)) (Master.initializeMaster twoAgents ["10.0.0.1:16666"])
      [Master.smallServer 1, Master.smallAgent 2, Master.smallServer 3, Master.smallAgent 4]
      = .ok (m, tr) ∧ m.config.ready = true ∧
    FairRun m ([terminateOf 2, .fix [2]] ++ [terminateOf 4]) l ∧ l.ended = true ∧
    (l.ended = true ↔ ∀ a ∈ l.master.config.agentId,
      a ∈ terminators ([terminateOf 2, .fix [2]] ++ [terminateOf 4])) := by
  obtain ⟨m, tr, l, hm, hready, hrun, hended⟩ : ∃ m tr l,
      Checked.run (Master.handle (F := Int)) (Master.initializeMaster twoAgents ["10.0.0.1:16666"])
        [Master.smallServer 1, Master.smallAgent 2, Master.smallServer 3, Master.smallAgent 4]
        = .ok (m, tr) ∧ m.config.ready = true ∧
      FairRun m ([terminateOf 2, .fix [2]] ++ [terminateOf 4]) l ∧ l.ended = true :=
    ⟨_, _, _, rfl, rfl, FairRun.nil
      |>.snoc (e := terminateOf 2) rfl (by simp [terminateOf, Event.NotRegister])
        (fun _ ↦ .inl (by decide)) rfl
      |>.snoc (e := .fix [2]) rfl trivial (by simp [Fair]) rfl
      |>.snoc (e := terminateOf 4) rfl (by simp [terminateOf, Event.NotRegister])
        (fun _ ↦ .inl (by decide)) rfl, rfl⟩
  exact ⟨m, tr, l, hm, hready, hrun, hended, stops_when_done hm hready rfl hrun⟩

/-- A server says that it is done, and the master stops although the agent has not said so.  An
agent is taken out, the other one is done, and the master does not stop. -/
theorem stops_early_or_never :
    (∃ m tr l tr', Checked.run (Master.handle (F := Int))
        (Master.initializeMaster Master.smallFlags ["10.0.0.1:16666"])
        [Master.smallServer 1, Master.smallAgent 2, Master.smallServer 3] = .ok (m, tr) ∧
      m.config.ready = true ∧ Checked.run step { master := m } [terminateOf 1] = .ok (l, tr') ∧
      l.ended = true ∧ l.master.config.agentId = [2] ∧
      ¬ (l.ended = true ↔ ∀ a ∈ l.master.config.agentId, a ∈ terminators [terminateOf 1])) ∧
    ∃ m tr l tr', Checked.run (Master.handle (F := Int))
        (Master.initializeMaster twoAgents ["10.0.0.1:16666"])
        [Master.smallServer 1, Master.smallAgent 2, Master.smallServer 3, Master.smallAgent 4]
        = .ok (m, tr) ∧
      m.config.ready = true ∧
      Checked.run step { master := m } [.fix [4], terminateOf 2] = .ok (l, tr') ∧
      l.ended = false ∧ l.master.config.agentId = [2] ∧
      ¬ (l.ended = true ↔
        ∀ a ∈ l.master.config.agentId, a ∈ terminators [.fix [4], terminateOf 2]) :=
  ⟨⟨_, _, _, _, rfl, rfl, rfl, rfl, rfl, by decide⟩,
    ⟨_, _, _, _, rfl, rfl, rfl, rfl, rfl, by decide⟩⟩

end MainLoop

end Rpscc
