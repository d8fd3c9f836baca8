import Mathlib.Logic.Relation
import Rpscc.Master.Registration

/-!
# The dirty flag

`FixConfig` runs in the thread of `DetectDeadNode` and sets `config_changed_`; `DeliverHeartbeat`
runs in a thread of its own, and in one call tests the flag, builds the message, clears the flag and
sends.  `Delivery` is the state of both, with the place `DeliverHeartbeat` has got to, and `Step`
has one constructor for each of the five things that can happen next; `heartbeat_steps` says that
the four of `DeliverHeartbeat`, when nothing comes between them, are `Master.deliverHeartbeat`.

Everything is fine until `FixConfig` takes a node out after the message has been built and before
the flag is cleared: the change is then neither in the message nor in the flag.  `no_change_lost` is
about the runs in which this does not happen.
-/

set_option autoImplicit false

namespace Rpscc

/-- Where `DeliverHeartbeat` is. -/
inductive Delivery.Phase
  /-- Not called. -/
  | idle
  /-- The flag was found set. -/
  | changed
  /-- The message is built, the flag still set. -/
  | built (config : ConfigMessage)
  /-- The message is complete, with a configuration or without. -/
  | complete (config : Option ConfigMessage)
deriving DecidableEq, Repr

/-- The two threads of the master, and everything that has been sent. -/
structure Delivery (F : Type) where
  config : TaskConfig
  phase : Delivery.Phase
  log : List (Sent F)

namespace Delivery

variable {F : Type}

/-- The next thing one of the threads does. -/
inductive Action
  | test | build | clear | send | fix (dead : List Int)
deriving DecidableEq, Repr

/-- `DeliverHeartbeat` in its four parts, and `FixConfig` as a whole. -/
inductive Step (maxClusterNode : Int) : Delivery F → Action → Delivery F → Prop
  | test {d : Delivery F} (hphase : d.phase = .idle) :
      Step maxClusterNode d .test
        { d with phase := if d.config.configChanged then .changed else .complete none }
  | build {d : Delivery F} {c : ConfigMessage} (hphase : d.phase = .changed)
      (hc : d.config.toMessage = .ok c) :
      Step maxClusterNode d .build { d with phase := .built c }
  | clear {d : Delivery F} {c : ConfigMessage} (hphase : d.phase = .built c) :
      Step maxClusterNode d .clear
        { d with config := { d.config with configChanged := false }, phase := .complete (some c) }
  | send {d : Delivery F} {config : Option ConfigMessage} (hphase : d.phase = .complete config) :
      Step maxClusterNode d .send
        { d with
          phase := .idle
          log := d.log ++ Master.sendHeartbeat maxClusterNode d.config config }
  | fix {d : Delivery F} {dead : List Int} {t : TaskConfig} (ht : d.config.fixConfig dead = .ok t) :
      Step maxClusterNode d (.fix dead) { d with config := t }

/-- The threads right after the cluster has been found ready. -/
def start (m : Master) (sent : List (Sent F)) : Delivery F := ⟨m.config, .idle, sent⟩

/-- The last configuration that went out. -/
def lastConfig (log : List (Sent F)) : Option ConfigMessage :=
  (log.filterMap fun s ↦ s.msg.configMsg).getLast?

/-- When nothing comes between them, the parts of `DeliverHeartbeat` are `DeliverHeartbeat`. -/
theorem heartbeat_steps {maxClusterNode : Int} {m m' : Master} {log sent : List (Sent F)}
    (h : m.deliverHeartbeat maxClusterNode = .ok (m', sent)) :
    Relation.ReflTransGen (fun d d' ↦ ∃ a, Step maxClusterNode d a d') (start m log)
      (start m' (log ++ sent)) := by
  have htest : Step maxClusterNode (start m log) .test
      ⟨m.config, if m.config.configChanged then .changed else .complete none, log⟩ := .test rfl
  rw [Master.deliverHeartbeat] at h
  split at h
  · rename_i hchanged
    rw [Checked.bind_eq_ok] at h
    obtain ⟨c, hc, h⟩ := h
    cases h
    rw [if_pos hchanged] at htest
    exact .tail (.tail (.tail (.single ⟨_, htest⟩) ⟨_, .build rfl hc⟩) ⟨_, .clear rfl⟩)
      ⟨_, .send rfl⟩
  · rename_i hchanged
    cases h
    rw [if_neg hchanged] at htest
    exact .tail (.single ⟨_, htest⟩) ⟨_, .send rfl⟩

/-! ## What has been told -/

/-- The nodes and boundaries of a configuration are the present ones. -/
structure Tells (t : TaskConfig) (c : ConfigMessage) : Prop where
  serverId : c.serverId = t.serverId
  workerId : c.workerId = t.agentId
  partition : c.partition = t.partition

theorem tells_toMessage {t : TaskConfig} {c : ConfigMessage} (h : t.toMessage = .ok c) :
    Tells t c := by
  rw [TaskConfig.toMessage, Checked.bind_eq_ok] at h
  obtain ⟨addrs, -, h⟩ := h
  cases h
  exact ⟨rfl, rfl, rfl⟩

/-- What is known at each place of `DeliverHeartbeat`. -/
def Told (d : Delivery F) : Phase → Prop
  | .idle => d.config.configChanged = false → ∃ c, lastConfig d.log = some c ∧ Tells d.config c
  | .changed => True
  | .built c => Tells d.config c
  | .complete none =>
    d.config.configChanged = false → ∃ c, lastConfig d.log = some c ∧ Tells d.config c
  | .complete (some c) => d.config.configChanged = false → Tells d.config c

/-- Sending a configuration to somebody. -/
theorem lastConfig_send {log : List (Sent F)} {maxClusterNode : Int} {t : TaskConfig}
    {c : ConfigMessage} (h : t.agentId ++ t.serverId ≠ []) :
    lastConfig (log ++ Master.sendHeartbeat maxClusterNode t (some c)) = some c := by
  have hmap : (Master.sendHeartbeat (F := F) maxClusterNode t (some c)).filterMap
      (fun s ↦ s.msg.configMsg) = (t.agentId ++ t.serverId).map fun _ ↦ c := by
    have hsome : ∀ l : List Int, l.filterMap (fun _ ↦ some c) = l.map fun _ ↦ c := fun l ↦
      congrFun List.filterMap_eq_map l
    rw [Master.sendHeartbeat, List.filterMap_append, List.filterMap_map, List.filterMap_map,
      List.map_append, ← hsome, ← hsome]
    rfl
  rw [lastConfig, List.filterMap_append, hmap, List.getLast?_append_of_ne_nil _ (by simpa using h),
    List.getLast?_map]
  cases hlast : (t.agentId ++ t.serverId).getLast? with
  | none => exact absurd (List.getLast?_eq_none_iff.1 hlast) h
  | some id => rfl

/-- A heartbeat without a configuration. -/
@[simp] theorem lastConfig_send_none {log : List (Sent F)} {maxClusterNode : Int} {t : TaskConfig} :
    lastConfig (log ++ Master.sendHeartbeat maxClusterNode t none) = lastConfig log := by
  have hnil : (Master.sendHeartbeat (F := F) maxClusterNode t none).filterMap
      (fun s ↦ s.msg.configMsg) = [] := by
    rw [List.filterMap_eq_nil_iff]
    intro s hs
    rcases List.mem_append.1 hs with hs | hs <;> obtain ⟨id, -, rfl⟩ := List.mem_map.1 hs <;> rfl
  rw [lastConfig, List.filterMap_append, hnil, List.append_nil]
  rfl

/-- `FixConfig` sets the flag if it has anything to do. -/
theorem fixConfig_configChanged {t t' : TaskConfig} {dead : List Int}
    (h : t.fixConfig dead = .ok t') : t' = t ∨ t'.configChanged = true := by
  rw [TaskConfig.fixConfig] at h
  split at h
  · cases h
    exact .inl rfl
  · refine .inr (Checked.foldlM_keeps (P := fun t ↦ t.configChanged = true) ?_ rfl h)
    intro t node t' ht hstep
    rw [TaskConfig.removeNode] at hstep
    dsimp only at hstep
    split at hstep
    · cases hstep
      exact ht
    · split at hstep
      · split at hstep
        · cases hstep
          exact ht
        · simp at hstep
      · cases hstep
        exact ht

/-- What must not happen: that a node is taken out after the message has been built and before the
flag is cleared, and that a configuration goes out when there is nobody left to receive it. -/
def Calm (d : Delivery F) : Action → Prop
  | .fix dead => ∀ c, d.phase = .built c → ∀ id ∈ dead, id ∉ d.config.serverId ++ d.config.agentId
  | .send => ∀ c, d.phase = .complete (some c) → d.config.agentId ++ d.config.serverId ≠ []
  | _ => True

theorem Step.told {maxClusterNode : Int} {d d' : Delivery F} {a : Action}
    (hstep : Step maxClusterNode d a d') (hcalm : d.Calm a) (h : d.Told d.phase) :
    d'.Told d'.phase := by
  cases hstep with
  | test hphase =>
    rw [hphase] at h
    dsimp only
    split
    · trivial
    · exact h
  | build hphase hc => exact tells_toMessage hc
  | clear hphase =>
    rw [hphase] at h
    exact fun _ ↦ ⟨h.serverId, h.workerId, h.partition⟩
  | @send config hphase =>
    rw [hphase] at h
    cases config with
    | none => exact fun hflag ↦ by rw [lastConfig_send_none]; exact h hflag
    | some c => exact fun hflag ↦ ⟨c, lastConfig_send (hcalm c hphase), h hflag⟩
  | @fix dead t ht =>
    rcases fixConfig_configChanged ht with rfl | hflag
    · exact h
    · have hnot : t.configChanged ≠ false := ne_of_eq_of_ne hflag Bool.noConfusion
      dsimp only
      cases hphase : d.phase with
      | idle => exact fun hfalse ↦ absurd hfalse hnot
      | changed => trivial
      | built c =>
        rw [hphase] at h
        obtain ⟨changed, hsame⟩ := TaskConfig.fixConfig_of_not_mem (hcalm c hphase)
        rw [ht] at hsame
        cases hsame
        exact ⟨h.serverId, h.workerId, h.partition⟩
      | complete config =>
        cases config with
        | none => exact fun hfalse ↦ absurd hfalse hnot
        | some c => exact fun hfalse ↦ absurd hfalse hnot

/-- `DeliverConfig` tells everybody who has an address. -/
theorem lastConfig_deliverConfig {m : Master} {sent : List (Sent F)}
    (h : m.deliverConfig = .ok sent) (hne : m.config.idToAddr ≠ []) :
    ∃ c, lastConfig sent = some c ∧ Tells m.config c := by
  rw [Master.deliverConfig, Checked.bind_eq_ok] at h
  obtain ⟨c, hc, h⟩ := h
  cases h
  refine ⟨c, ?_, tells_toMessage hc⟩
  obtain ⟨n, hn⟩ := Nat.exists_eq_succ_of_ne_zero (mt List.length_eq_zero_iff.1 hne)
  rw [lastConfig, hn, List.range_succ, List.map_append, List.filterMap_append]
  exact List.getLast?_concat

/-- Whoever registers has an address, so somebody is told. -/
theorem told_start {m m' : Master} {draw : ℕ → Int} {now : Int} {r : RegisterMessage}
    {sent : List (Sent F)} (h : m.register draw now r = .ok (m', some sent)) :
    (start m' sent).Told .idle := by
  have hne : (m.processRegisterMsg r).config.idToAddr ≠ [] := by
    rw [Master.processRegisterMsg]
    dsimp only
    split <;> exact Lists.assign_ne_nil
  obtain ⟨hnone, -⟩ | ⟨hnone, -⟩ | ⟨msgs, hsent, hdeliver, rfl⟩ := Master.register_cases h
  · cases hnone
  · cases hnone
  · cases hsent
    obtain ⟨c, hlast, htells⟩ := lastConfig_deliverConfig hdeliver hne
    refine fun _ ↦ ⟨c, hlast, ?_⟩
    rw [start]
    split
    · exact htells
    · exact htells

/-- **Calm runs lose no change.**  After the cluster has been found ready, let `DeliverHeartbeat`
and `FixConfig` run in any interleaving in which no node is taken out between the building of a
message and the clearing of the flag, and no configuration is sent to nobody.  Whenever the flag is
not set and no `DeliverHeartbeat` is under way, the last configuration that was sent is the present
one. -/
theorem no_change_lost (maxClusterNode : Int) {m m' : Master} {draw : ℕ → Int} {now : Int}
    {r : RegisterMessage} {sent : List (Sent F)}
    (hready : m.register draw now r = .ok (m', some sent)) {d : Delivery F}
    (hrun : Relation.ReflTransGen (fun d d' ↦ ∃ a, d.Calm a ∧ Step maxClusterNode d a d')
      (start m' sent) d)
    (hidle : d.phase = .idle) (hflag : d.config.configChanged = false) :
    ∃ c, lastConfig d.log = some c ∧ c.serverId = d.config.serverId ∧
      c.workerId = d.config.agentId ∧ c.partition = d.config.partition := by
  have htold : d.Told d.phase := by
    clear hidle hflag
    induction hrun with
    | refl => exact told_start hready
    | tail _ hstep ih =>
      obtain ⟨a, hcalm, hstep⟩ := hstep
      exact hstep.told hcalm ih
  rw [hidle] at htold
  obtain ⟨c, hlast, htells⟩ := htold hflag
  exact ⟨c, hlast, htells.serverId, htells.workerId, htells.partition⟩

/-- A master that waits for one more server. -/
def almostReady : Master :=
  ((Master.initializeMaster Master.smallFlags ["10.0.0.1:16666"]).processRegisterMsg
    (Master.smallServer 1).msg).processRegisterMsg (Master.smallAgent 2).msg

/-- A server dies between two heartbeats. -/
theorem no_change_lost_between : ∃ (m' : Master) (sent : List (Sent Int)) (d : Delivery Int),
    almostReady.register (Master.smallServer 3).draw 0 (Master.smallServer 3).msg
      = .ok (m', some sent) ∧
    Relation.ReflTransGen (fun d d' ↦ ∃ a, d.Calm a ∧ Step 100 d a d') (start m' sent) d ∧
    d.phase = .idle ∧ d.config.configChanged = false ∧ d.config.serverId = [3] ∧
    ∃ c, lastConfig d.log = some c ∧ c.serverId = d.config.serverId ∧
      c.workerId = d.config.agentId ∧ c.partition = d.config.partition := by
  have hrun : ∃ (m' : Master) (sent : List (Sent Int)) (d : Delivery Int),
      almostReady.register (Master.smallServer 3).draw 0 (Master.smallServer 3).msg
        = .ok (m', some sent) ∧
      Relation.ReflTransGen (fun d d' ↦ ∃ a, d.Calm a ∧ Step 100 d a d') (start m' sent) d ∧
      d.phase = .idle ∧ d.config.configChanged = false ∧ d.config.serverId = [3] :=
    ⟨_, _, _, rfl, .tail (.tail (.tail (.tail (.single ⟨.fix [1], nofun, .fix rfl⟩)
      ⟨.test, trivial, .test rfl⟩) ⟨.build, trivial, .build rfl rfl⟩)
      ⟨.clear, trivial, .clear rfl⟩) ⟨.send, fun _ _ ↦ by decide, .send rfl⟩, rfl, rfl, rfl⟩
  obtain ⟨m', sent, d, hready, hrun, hidle, hflag, hleft⟩ := hrun
  exact ⟨m', sent, d, hready, hrun, hidle, hflag, hleft,
    no_change_lost 100 hready hrun hidle hflag⟩

/-- The second server dies after the message about the first has been built. -/
theorem change_lost_in_window : ∃ (m' : Master) (sent : List (Sent Int)) (d : Delivery Int),
    almostReady.register (Master.smallServer 3).draw 0 (Master.smallServer 3).msg
      = .ok (m', some sent) ∧
    Relation.ReflTransGen (fun d d' ↦ ∃ a, Step 100 d a d') (start m' sent) d ∧
    d.phase = .idle ∧ d.config.configChanged = false ∧ d.config.serverId = [] ∧
    ∃ c, lastConfig d.log = some c ∧ c.serverId = [3] :=
  ⟨_, _, _, rfl,
    .tail (.tail (.tail (.tail (.tail (.single ⟨.fix [1], .fix rfl⟩) ⟨.test, .test rfl⟩)
    ⟨.build, .build rfl rfl⟩) ⟨.fix [3], .fix rfl⟩) ⟨.clear, .clear rfl⟩) ⟨.send, .send rfl⟩,
    rfl, rfl, rfl, _, rfl, rfl⟩

end Delivery

end Rpscc
