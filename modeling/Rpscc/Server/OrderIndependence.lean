import Rpscc.Server.Runs

/-!
# The order of the pushes does not matter

Two runs of one server hand it the same pushes of every agent, in orders that differ between
agents, and mixed with any pulls.  The rounds then fire at different requests, and on the way the
two servers have little in common.  But the state of a server is `Server.ofRounds` of what every
agent has had accepted, and when nothing is rejected that is what every agent has pushed.  So the
servers end up the same, to the last rounding error: nothing is assumed of the operations on
floats.
-/

set_option autoImplicit false

namespace Rpscc

namespace Server

variable {F : Type}

/-- The request, if it is a push of agent `a`. -/
def pushOf (a : Int) : Call F → Option (RequestMessage F)
  | .push id request => if id = a then some request else none
  | .pull _ _ => none

/-- The requests agent `a` pushes. -/
def pushesOf (a : Int) (calls : List (Call F)) : List (RequestMessage F) :=
  calls.filterMap (pushOf a)

/-- A push that was rejected, be it as overfilled or as unknown. -/
def rejected : Call F × Response F → Bool
  | (.push _ _, r) => r.outcome != .stored
  | (.pull _ _, _) => false

/-- No push of the trace was rejected. -/
def NoneRejected (tr : List (Call F × Response F)) : Prop := ∀ e ∈ tr, rejected e = false

instance (tr : List (Call F × Response F)) : Decidable (NoneRejected tr) :=
  inferInstanceAs (Decidable (∀ e ∈ tr, rejected e = false))

/-- When nothing is rejected, what is accepted is what is pushed. -/
theorem accepted_eq_map_pushesOf (a : Int) {tr : List (Call F × Response F)}
    (h : NoneRejected tr) :
    accepted a tr
      = (pushesOf a (tr.map Prod.fst)).map fun request ↦ request.keys.zip request.values := by
  rw [accepted, pushesOf, List.filterMap_map, List.map_filterMap]
  refine List.filterMap_congr fun e he ↦ ?_
  obtain ⟨c, r⟩ := e
  cases c with
  | push id request =>
    have hr : r.outcome = .stored := by simpa [rejected] using h _ he
    by_cases hid : id = a <;> simp [acceptedOf, pushOf, hid, hr]
  | pull id request => rfl

variable [FloatOps F] {config : ConfigMessage} {s₀ s s' : Server F}
  {tr tr' : List (Call F × Response F)}

/-- What a run does to parameters, version number, counters and buffers depends on the accepted
updates of every agent, and on nothing else. -/
theorem Represents.congr (h : Represents config s₀ s tr) (h' : Represents config s₀ s' tr')
    (heq : ∀ a ∈ config.workerId, accepted a tr = accepted a tr') :
    s.parameters = s'.parameters ∧ s.bottomVersion = s'.bottomVersion ∧
      s.finishCount = s'.finishCount ∧ s.versionBuffer = s'.versionBuffer := by
  obtain ⟨st, q, rfl, -, hhist, -⟩ := h
  obtain ⟨st', q', rfl, -, hhist', -⟩ := h'
  have hst : ∀ a ∈ config.workerId, st.hist a = st'.hist a := fun a ha ↦ by
    rw [hhist a ha, hhist' a ha, heq a ha]
  have hpending : ∀ a ∈ config.workerId, st.pending a = st'.pending a := fun a ha ↦
    Rounds.pending_congr hst ha
  refine ⟨?_, ?_, ?_, ?_⟩
  · exact Rounds.total_congr hst _ _
  · exact congrArg Nat.cast (Rounds.bottom_congr hst)
  · refine List.map_congr_left fun j _ ↦ congrArg Nat.cast (List.countP_congr fun a ha ↦ ?_)
    rw [hpending a ha]
  · exact List.map_congr_left hpending

/-- **Order independence.**  Two runs from the same fresh server, in which every agent pushes the
same requests and none is rejected, end with the same parameters, version number, counters and
version buffers, whatever the order of the agents and wherever the pulls stand. -/
theorem order_independence {masterIpPort : String} {localId : Int} {calls calls' : List (Call F)}
    (h₀ : initializeServer masterIpPort localId config = .ok s₀) (hc : config.WorkersOk)
    (hin : ∀ c ∈ calls, c.InRange s₀) (hin' : ∀ c ∈ calls', c.InRange s₀)
    (hrun : s₀.run calls = .ok (s, tr)) (hrun' : s₀.run calls' = .ok (s', tr'))
    (hnone : NoneRejected tr) (hnone' : NoneRejected tr')
    (hpush : ∀ a ∈ config.workerId, pushesOf a calls = pushesOf a calls') :
    s.parameters = s'.parameters ∧ s.bottomVersion = s'.bottomVersion ∧
      s.finishCount = s'.finishCount ∧ s.versionBuffer = s'.versionBuffer := by
  have hf := initializeServer_fresh hc h₀
  obtain ⟨_, _, hr, h⟩ := run_represents hf hc hin
  obtain ⟨_, _, hr', h'⟩ := run_represents hf hc hin'
  obtain ⟨rfl, rfl⟩ := Prod.mk.inj (Except.ok.inj (hrun.symm.trans hr))
  obtain ⟨rfl, rfl⟩ := Prod.mk.inj (Except.ok.inj (hrun'.symm.trans hr'))
  refine h.congr h' fun a ha ↦ ?_
  rw [accepted_eq_map_pushesOf a hnone, accepted_eq_map_pushesOf a hnone',
    Checked.run_map_fst hrun, Checked.run_map_fst hrun', hpush a ha]

/-- Both agents push once, agent `3` first, or agent `4` first and with a pull in between. -/
def pushesInOrder : List (Call Int) :=
  [.push 3 ⟨.keyValue, [0, 2], [10, 30]⟩, .push 4 ⟨.keyValue, [2], [10]⟩]

@[inherit_doc pushesInOrder]
def pushesSwapped : List (Call Int) :=
  [.push 4 ⟨.keyValue, [2], [10]⟩, .pull 4 ⟨.key, [2], []⟩, .push 3 ⟨.keyValue, [0, 2], [10, 30]⟩]

theorem order_independence_swapped :
    ∃ (s₀ s s' : Server Int) (tr tr' : List (Call Int × Response Int)),
      initializeServer "10.0.0.1:80" 1 smallConfig = .ok s₀ ∧
      s₀.run pushesInOrder = .ok (s, tr) ∧ s₀.run pushesSwapped = .ok (s', tr') ∧
      s.parameters = [5, 0, 20, 0] ∧ s.parameters = s'.parameters := by
  obtain ⟨s₀, s, s', tr, tr', h₀, hstart, hlen, hrun, hrun', hnone, hnone', hs⟩ :
      ∃ (s₀ s s' : Server Int) (tr tr' : List (Call Int × Response Int)),
        initializeServer "10.0.0.1:80" 1 smallConfig = .ok s₀ ∧ s₀.startKey = 0 ∧
        s₀.parameterLength = 4 ∧ s₀.run pushesInOrder = .ok (s, tr) ∧
        s₀.run pushesSwapped = .ok (s', tr') ∧ NoneRejected tr ∧ NoneRejected tr' ∧
        s.parameters = [5, 0, 20, 0] :=
    ⟨_, _, _, _, _, rfl, rfl, rfl, rfl, rfl, by decide, by decide, rfl⟩
  have hin : ∀ c ∈ pushesInOrder, c.InRange s₀ := by
    simp [pushesInOrder, Call.InRange, Owns, hstart, hlen]
  have hin' : ∀ c ∈ pushesSwapped, c.InRange s₀ := by
    simp [pushesSwapped, Call.InRange, Owns, hstart, hlen]
  exact ⟨s₀, s, s', tr, tr', h₀, hrun, hrun', hs, (order_independence h₀ smallConfig_workersOk hin
    hin' hrun hrun' hnone hnone' (by decide)).1⟩

end Server

end Rpscc
