import Rpscc.Master.Registration

/-!
# Who is heard of

When the cluster is ready the master enters the time for every node that has an address, and from
then on for every node that sends a heartbeat.  The address map has the masters in it as well, which
send nothing.  `lastHeard` reads off the messages when a node was last heard of; `watch_lastHeard`
says that `alive_node_` is exactly this table, in every run.

The main result is `no_false_reports_iff`: if the agents and servers are heard of in time,
`GetDeadNode` finds nobody exactly as long as nobody else has been in the table for too long.
-/

set_option autoImplicit false

namespace Rpscc

namespace Master

variable {F : Type} {m m' : Master}

/-! ## The cluster is ready -/

/-- The cluster has been found ready for the first time, and the time was `now`. -/
def ReadyAt (F : Type) (f : Flags) (masters : List String) (m : Master) (now : Int) : Prop :=
  ∃ (rs : List Registration) (m₀ : Master) (tr : List (Registration × Option (List (Sent F))))
    (r : Registration) (sent : List (Sent F)),
    Checked.run handle (initializeMaster f masters) rs = .ok (m₀, tr) ∧ readies tr = 0 ∧
      m₀.handle r = .ok (m, some sent) ∧ r.now = now

/-- Nothing has happened yet but registrations. -/
structure Waiting (m : Master) : Prop where
  aliveNode : m.aliveNode = []
  detecting : m.detecting = false
  configChanged : m.config.configChanged = false

@[simp] theorem initializeMaster_configChanged (f : Flags) (masters : List String) :
    (initializeMaster f masters).config.configChanged = false := by
  show (masters.foldl TaskConfig.appendMaster (TaskConfig.initializeConfig f)).configChanged = false
  induction masters using List.reverseRecOn with
  | nil => rfl
  | append_singleton masters ipPort ih => rw [List.foldl_concat]; exact ih

@[simp] theorem processRegisterMsg_configChanged (m : Master) (r : RegisterMessage) :
    (m.processRegisterMsg r).config.configChanged = m.config.configChanged := by
  rw [processRegisterMsg]
  dsimp only
  split <;> rfl

theorem waiting_of_readies {f : Flags} {masters : List String} {rs : List Registration}
    {tr : List (Registration × Option (List (Sent F)))}
    (hrun : Checked.run handle (initializeMaster f masters) rs = .ok (m, tr)) :
    readies tr = 0 → m.Waiting := by
  refine Checked.run_keeps (P := fun m tr ↦ readies tr = 0 → m.Waiting) ?_ ?_ hrun
  · intro m tr r m' sent h hstep hzero
    rw [readies, List.countP_append, Nat.add_eq_zero_iff] at hzero
    have hw := h hzero.1
    have hflag := (processRegisterMsg_configChanged m r.msg).trans hw.configChanged
    obtain ⟨-, rfl⟩ | ⟨-, rfl⟩ | ⟨msgs, rfl, -, -⟩ := register_cases hstep
    · exact ⟨hw.aliveNode, hw.detecting, hflag⟩
    · exact ⟨hw.aliveNode, hw.detecting, hflag⟩
    · exact absurd hzero.2 (by simp)
  · exact fun _ ↦ ⟨rfl, rfl, initializeMaster_configChanged f masters⟩

/-- The table is filled for everybody who has an address. -/
theorem mem_foldl_assign (now : Int) (n : ℕ) {id t : Int} :
    (id, t) ∈ (List.range n).foldl (fun alive (i : ℕ) ↦ Lists.assign alive (i : Int) now) [] ↔
      (0 ≤ id ∧ id < n) ∧ t = now := by
  induction n with
  | zero => simp
  | succ n ih =>
    rw [List.range_succ, List.foldl_concat, Lists.mem_assign, ih, Prod.mk.injEq]
    push_cast
    constructor
    · rintro (⟨rfl, rfl⟩ | ⟨hne, hlt, rfl⟩)
      · exact ⟨⟨Int.natCast_nonneg n, lt_add_one _⟩, rfl⟩
      · exact ⟨⟨hlt.1, lt_trans hlt.2 (lt_add_one _)⟩, rfl⟩
    · rintro ⟨⟨h0, hlt⟩, rfl⟩
      rcases (Int.lt_add_one_iff.1 hlt).eq_or_lt with heq | hlt
      · exact .inl ⟨heq, rfl⟩
      · exact .inr ⟨hlt.ne, ⟨h0, hlt⟩, rfl⟩

/-- The master once the cluster is ready. -/
theorem ReadyAt.spec {f : Flags} {masters : List String} {now : Int}
    (h : ReadyAt F f masters m now) :
    m.detecting = true ∧ m.config.configChanged = false ∧
      ∀ id t, (id, t) ∈ m.aliveNode ↔ (0 ≤ id ∧ id < m.config.idToAddr.length) ∧ t = now := by
  obtain ⟨rs, m₀, tr, r, sent, hrun, hzero, hstep, rfl⟩ := h
  have hw := waiting_of_readies hrun hzero
  obtain ⟨hnone, -⟩ | ⟨hnone, -⟩ | ⟨msgs, -, -, rfl⟩ := register_cases hstep
  · cases hnone
  · cases hnone
  · rw [hw.detecting, if_neg Bool.false_ne_true]
    refine ⟨rfl, (processRegisterMsg_configChanged m₀ r.msg).trans hw.configChanged,
      fun id t ↦ ?_⟩
    show (id, t) ∈ (List.range _).foldl _ m₀.aliveNode ↔ _
    rw [hw.aliveNode]
    exact mem_foldl_assign r.now _

/-! ## Heartbeats -/

/-- What happens to the master once the cluster is ready. -/
inductive Beat (F : Type)
  /-- `MainLoop` receives a heartbeat. -/
  | heartbeat (msg : Message F) (now : Int)
  /-- `MainLoop` receives a register message. -/
  | register (r : Registration)
  /-- `DeliverHeartbeat` runs. -/
  | deliver (maxClusterNode : Int)
  /-- `DetectDeadNode` makes a pass, and calls `GetDeadNode`. -/
  | detect (now : Int)

/-- One of them.  The result is the list of `GetDeadNode`, if that is called. -/
def watch (heartbeatTimeout : Int) (m : Master) (b : Beat F) : Except Fault (Master × List Int) :=
  if m.terminated then .ok (m, [])
  else match b with
    | .heartbeat msg now => do
      let m ← m.processHeartbeatMsg now msg
      .ok (m, [])
    | .register r => do
      let p ← m.handle (F := F) r
      .ok (p.1, [])
    | .deliver maxClusterNode => do
      let p ← m.deliverHeartbeat (F := F) maxClusterNode
      .ok (p.1, [])
    | .detect now => do
      let m' ← m.detectDeadNode heartbeatTimeout now
      .ok (m', m.getDeadNode heartbeatTimeout now)

/-- When a node was last heard of: with its last heartbeat, or when the table was filled. -/
def lastHeard (m : Master) (start : Int) (beats : List (Beat F)) (id : Int) : Option Int :=
  beats.foldl (fun t b ↦ match b with
    | .heartbeat msg now => if msg.sendId = id then some now else t
    | _ => t) (if 0 ≤ id ∧ id < m.config.idToAddr.length then some start else none)

/-- What can happen, as long as the process has not ended. -/
theorem watch_cases {heartbeatTimeout : Int} {b : Beat F} {dead : List Int}
    (h : m.watch heartbeatTimeout b = .ok (m', dead)) :
    (m.terminated = true ∧ m' = m) ∨ m.terminated = false ∧
      ((∃ msg now, b = .heartbeat msg now ∧ m' = { m with
          aliveNode := Lists.assign m.aliveNode msg.sendId now
          config := (m.config.getIp msg.sendId).1 }) ∨
        (∃ r sent, b = .register r ∧ m.handle (F := F) r = .ok (m', sent)) ∨
        (∃ n, b = .deliver n ∧ m' = { m with config := { m.config with configChanged := false } }) ∨
        ∃ now, b = .detect now ∧ m.detectDeadNode heartbeatTimeout now = .ok m') := by
  unfold watch at h
  split at h
  · rename_i hterm
    cases h
    exact .inl ⟨hterm, rfl⟩
  · rename_i hterm
    refine .inr ⟨Bool.eq_false_iff.2 hterm, ?_⟩
    cases b with
    | heartbeat msg now =>
      rw [Checked.bind_eq_ok] at h
      obtain ⟨m₁, h₁, h⟩ := h
      cases h
      rw [processHeartbeatMsg] at h₁
      split at h₁
      · simp at h₁
      · split at h₁
        · cases h₁
          exact .inl ⟨msg, now, rfl, rfl⟩
        · simp at h₁
    | register r =>
      rw [Checked.bind_eq_ok] at h
      obtain ⟨⟨m₁, sent⟩, h₁, h⟩ := h
      cases h
      exact .inr (.inl ⟨r, sent, rfl, h₁⟩)
    | deliver n =>
      rw [Checked.bind_eq_ok] at h
      obtain ⟨⟨m₁, sent⟩, h₁, h⟩ := h
      cases h
      refine .inr (.inr (.inl ⟨n, rfl, ?_⟩))
      rw [deliverHeartbeat] at h₁
      split at h₁
      · rw [Checked.bind_eq_ok] at h₁
        obtain ⟨c, -, h₁⟩ := h₁
        cases h₁
        rfl
      · rename_i hflag
        cases h₁
        rw [← Bool.eq_false_iff.2 hflag]
    | detect now =>
      rw [Checked.bind_eq_ok] at h
      obtain ⟨m₁, h₁, h⟩ := h
      cases h
      exact .inr (.inr (.inr ⟨now, rfl, h₁⟩))

/-- A pass of `DetectDeadNode` leaves the table alone, and everything if nobody is found. -/
theorem detectDeadNode_frame {heartbeatTimeout now : Int}
    (h : m.detectDeadNode heartbeatTimeout now = .ok m') :
    m'.aliveNode = m.aliveNode ∧ m'.detecting = m.detecting ∧
      (m.getDeadNode heartbeatTimeout now = [] → m' = m) := by
  rw [detectDeadNode] at h
  dsimp only at h
  split at h
  · cases h
    exact ⟨rfl, rfl, fun _ ↦ rfl⟩
  · rename_i hne
    rw [Checked.bind_eq_ok] at h
    obtain ⟨config, -, h⟩ := h
    cases h
    exact ⟨rfl, rfl, fun hnil ↦ absurd hnil hne⟩

@[simp] theorem getIp_configChanged (t : TaskConfig) (id : Int) :
    (t.getIp id).1.configChanged = t.configChanged := by
  rw [TaskConfig.getIp]
  split <;> rfl

/-- The table after one more message. -/
theorem lastHeard_concat (m : Master) (start : Int) (beats : List (Beat F)) (b : Beat F)
    (id : Int) :
    lastHeard m start (beats ++ [b]) id = match b with
      | .heartbeat msg now => if msg.sendId = id then some now else lastHeard m start beats id
      | _ => lastHeard m start beats id := by
  rw [lastHeard, List.foldl_concat]
  rfl

/-- As long as the process runs, `alive_node_` says when everybody was last heard of. -/
def Table (m : Master) (start : Int) (beats : List (Beat F)) (m' : Master) : Prop :=
  m'.detecting = true ∧ (m'.terminated = false → ∀ id t,
    (id, t) ∈ m'.aliveNode ↔ lastHeard m start beats id = some t)

/-- Whatever is no heartbeat leaves the table as it is. -/
theorem Table.frame {m₀ : Master} {start : Int} {beats : List (Beat F)} {b : Beat F}
    (h : Table m₀ start beats m)
    (hb : ∀ id, lastHeard m₀ start (beats ++ [b]) id = lastHeard m₀ start beats id)
    (halive : m'.aliveNode = m.aliveNode) (hdet : m'.detecting = m.detecting)
    (hlive : m.terminated = false) : Table m₀ start (beats ++ [b]) m' := by
  refine ⟨hdet.trans h.1, fun _ id t ↦ ?_⟩
  rw [hb, halive]
  exact h.2 hlive id t

theorem Table.watch {m₀ : Master} {start heartbeatTimeout : Int} {beats : List (Beat F)}
    {b : Beat F} {dead : List Int} (h : Table m₀ start beats m)
    (hstep : m.watch heartbeatTimeout b = .ok (m', dead)) : Table m₀ start (beats ++ [b]) m' := by
  obtain ⟨hterm, rfl⟩ | ⟨hlive, ⟨msg, now, rfl, rfl⟩ | ⟨r, sent, rfl, hreg⟩ | ⟨n, rfl, rfl⟩ |
    ⟨now, rfl, hpass⟩⟩ := watch_cases hstep
  · exact ⟨h.1, fun hlive ↦ absurd (hterm.symm.trans hlive) Bool.noConfusion⟩
  · refine ⟨h.1, fun _ id t ↦ ?_⟩
    rw [lastHeard_concat, Lists.mem_assign, h.2 hlive id t, Prod.mk.injEq]
    dsimp only
    split
    · rename_i heq
      subst heq
      simp [eq_comm]
    · rename_i hne
      simp [Ne.symm hne]
  · obtain ⟨-, rfl⟩ | ⟨-, rfl⟩ | ⟨msgs, -, -, rfl⟩ := register_cases hreg
    · exact h.frame (lastHeard_concat m₀ start beats _) rfl rfl hlive
    · exact ⟨h.1, fun hnot ↦ absurd hnot Bool.noConfusion⟩
    · rw [h.1, if_pos rfl]
      exact ⟨h.1, fun hnot ↦ absurd hnot Bool.noConfusion⟩
  · exact h.frame (lastHeard_concat m₀ start beats _) rfl rfl hlive
  · obtain ⟨halive, hdet, -⟩ := detectDeadNode_frame hpass
    exact h.frame (lastHeard_concat m₀ start beats _) halive hdet hlive

/-- **The table of the living.**  In every run after the cluster is ready `alive_node_` is what the
messages say. -/
theorem watch_lastHeard {f : Flags} {masters : List String} {start heartbeatTimeout : Int}
    (hready : ReadyAt F f masters m start) {beats : List (Beat F)}
    {tr : List (Beat F × List Int)}
    (hrun : Checked.run (watch heartbeatTimeout) m beats = .ok (m', tr)) :
    Table m start beats m' := by
  obtain ⟨hdet, -, halive⟩ := hready.spec
  have hstart : Table (F := F) m start [] m := by
    refine ⟨hdet, fun _ id t ↦ ?_⟩
    rw [halive, lastHeard, List.foldl_nil]
    split
    · rename_i hin
      simp [hin, eq_comm]
    · rename_i hout
      simp [hout]
  have h := Checked.run_keeps (P := fun m' tr ↦ Table m start (tr.map Prod.fst) m')
    (fun m₁ tr₁ b m₂ dead htable hstep ↦ by
      rw [List.map_append]
      exact htable.watch hstep) hstart hrun
  rwa [Checked.run_map_fst hrun] at h

/-- Nothing but `FixConfig` sets the flag, and that is only called when somebody is found dead. -/
theorem watch_configChanged {heartbeatTimeout : Int} {b : Beat F} {dead : List Int}
    (hstep : m.watch heartbeatTimeout b = .ok (m', dead))
    (hnone : ∀ now, b = .detect now → m.terminated = false →
      m.getDeadNode heartbeatTimeout now = [])
    (hflag : m.config.configChanged = false) : m'.config.configChanged = false := by
  obtain ⟨-, rfl⟩ | ⟨hlive, ⟨msg, now, rfl, rfl⟩ | ⟨r, sent, rfl, hreg⟩ | ⟨n, rfl, rfl⟩ |
    ⟨now, rfl, hpass⟩⟩ := watch_cases hstep
  · exact hflag
  · exact (getIp_configChanged m.config msg.sendId).trans hflag
  · have hflag' := (processRegisterMsg_configChanged m r.msg).trans hflag
    obtain ⟨-, rfl⟩ | ⟨-, rfl⟩ | ⟨msgs, -, -, rfl⟩ := register_cases hreg
    · exact hflag'
    · exact hflag'
    · split
      · exact hflag'
      · exact hflag'
  · rfl
  · rw [(detectDeadNode_frame hpass).2.2 (hnone now rfl hlive)]
    exact hflag

/-! ## Reports -/

/-- At every call of `GetDeadNode` everybody of a kind who is in the table has been heard of in the
last `heartbeat_timeout`. -/
def HeardInTime (who : TaskConfig → Int → Prop) (heartbeatTimeout : Int) (m : Master) (start : Int)
    (beats : List (Beat F)) : Prop :=
  ∀ (k : ℕ) (now : Int), beats[k]? = some (.detect now) → ∀ m' tr,
    Checked.run (watch heartbeatTimeout) m (beats.take k) = .ok (m', tr) → m'.terminated = false →
    ∀ id t, who m'.config id → lastHeard m start (beats.take k) id = some t →
      now ≤ t + heartbeatTimeout

/-- The registered agents and servers. -/
def Registrant (t : TaskConfig) (id : Int) : Prop := id ∈ t.agentId ++ t.serverId

/-- Nobody is found dead, and the nodes are not told to reconfigure. -/
structure NoReports (heartbeatTimeout : Int) (m : Master) (beats : List (Beat F)) : Prop where
  getDeadNode : ∀ (k : ℕ) (now : Int), beats[k]? = some (.detect now) → ∀ m' tr,
    Checked.run (watch heartbeatTimeout) m (beats.take k) = .ok (m', tr) → m'.terminated = false →
    m'.getDeadNode heartbeatTimeout now = []
  configChanged : ∀ (k : ℕ) m' tr,
    Checked.run (watch heartbeatTimeout) m (beats.take k) = .ok (m', tr) →
    m'.config.configChanged = false

theorem getDeadNode_eq_nil_iff {heartbeatTimeout now : Int} :
    m.getDeadNode heartbeatTimeout now = [] ↔
      ∀ id t, (id, t) ∈ m.aliveNode → now ≤ t + heartbeatTimeout := by
  rw [getDeadNode, List.map_eq_nil_iff, List.filter_eq_nil_iff]
  simp only [decide_eq_true_eq, not_lt, Prod.forall]

/-- The flag stays clear as long as nobody is found dead. -/
theorem configChanged_of_getDeadNode {heartbeatTimeout : Int} {beats : List (Beat F)}
    (hflag : m.config.configChanged = false)
    (hnone : ∀ (k : ℕ) (now : Int), beats[k]? = some (.detect now) → ∀ m' tr,
      Checked.run (watch heartbeatTimeout) m (beats.take k) = .ok (m', tr) →
      m'.terminated = false → m'.getDeadNode heartbeatTimeout now = []) :
    ∀ (k : ℕ) m' tr, Checked.run (watch heartbeatTimeout) m (beats.take k) = .ok (m', tr) →
      m'.config.configChanged = false := by
  intro k
  induction k with
  | zero =>
    intro m' tr hrun
    cases hrun
    exact hflag
  | succ k ih =>
    intro m' tr hrun
    cases hb : beats[k]? with
    | none =>
      rw [List.take_of_length_le (Nat.le_succ_of_le (List.getElem?_eq_none_iff.1 hb)),
        ← List.take_of_length_le (List.getElem?_eq_none_iff.1 hb)] at hrun
      exact ih m' tr hrun
    | some b =>
      rw [List.take_add_one, hb] at hrun
      obtain ⟨m₁, tr₁, dead, hrun₁, hstep, -⟩ := Checked.run_concat_eq_ok hrun
      refine watch_configChanged hstep (fun now heq hlive ↦ ?_) (ih m₁ tr₁ hrun₁)
      exact hnone k now (heq ▸ hb) m₁ tr₁ hrun₁ hlive

/-- **No false reports as long as the masters are not missed.**  After the cluster is ready, in
every run in which the agents and servers are heard of in time, nobody is ever found dead, and the
flag stays clear, if and only if nobody else stays in the table for longer than `heartbeat_timeout`
without being heard of. -/
theorem no_false_reports_iff {f : Flags} {masters : List String} {start : Int}
    (hready : ReadyAt F f masters m start) (heartbeatTimeout : Int) (beats : List (Beat F))
    (hpunctual : HeardInTime Registrant heartbeatTimeout m start beats) :
    NoReports heartbeatTimeout m beats ↔
      HeardInTime (fun t id ↦ ¬ Registrant t id) heartbeatTimeout m start beats := by
  constructor
  · intro h k now hk m' tr hrun hlive id t _ hheard
    have hmem := ((watch_lastHeard hready hrun).2 hlive id t).2 hheard
    exact getDeadNode_eq_nil_iff.1 (h.getDeadNode k now hk m' tr hrun hlive) id t hmem
  · intro h
    have hnone : ∀ (k : ℕ) (now : Int), beats[k]? = some (.detect now) → ∀ m' tr,
        Checked.run (watch heartbeatTimeout) m (beats.take k) = .ok (m', tr) →
        m'.terminated = false → m'.getDeadNode heartbeatTimeout now = [] := by
      intro k now hk m' tr hrun hlive
      refine getDeadNode_eq_nil_iff.2 fun id t hmem ↦ ?_
      have hheard := ((watch_lastHeard hready hrun).2 hlive id t).1 hmem
      by_cases hid : Registrant m'.config id
      · exact hpunctual k now hk m' tr hrun hlive id t hid hheard
      · exact h k now hk m' tr hrun hlive id t hid hheard
    exact ⟨hnone, configChanged_of_getDeadNode hready.spec.2.1 hnone⟩

/-- A heartbeat of the node `id`. -/
def heartbeatFrom (id : Int) : Message Int where
  sendId := id
  recvId := 0
  messageType := .heartbeat
  heartbeatMsg := some ⟨true, 0⟩

/-- Shortly after the cluster has become ready. -/
theorem no_false_reports_iff_early : ∃ m, ReadyAt Int smallFlags ["10.0.0.1:16666"] m 0 ∧
    NoReports 10 m [.heartbeat (heartbeatFrom 1) 5, .detect 9] := by
  have hready : ∃ m, ReadyAt Int smallFlags ["10.0.0.1:16666"] m 0 :=
    ⟨_, [smallServer 1, smallAgent 2], _, _, smallServer 3, _, rfl, rfl, rfl, rfl⟩
  obtain ⟨m, hready⟩ := hready
  have hintime : ∀ who, HeardInTime who 10 m 0
      [Beat.heartbeat (heartbeatFrom 1) 5, Beat.detect 9] := by
    rintro who (_ | _ | k) now hk m' tr - - id t - hheard
    · simp at hk
    · cases hk
      have htimes : t = 5 ∨ t = 0 := by
        simp only [lastHeard, List.take_succ_cons, List.take_zero, List.foldl_cons,
          List.foldl_nil] at hheard
        split at hheard
        · exact .inl (Option.some.inj hheard).symm
        · split at hheard
          · exact .inr (Option.some.inj hheard).symm
          · simp at hheard
      rcases htimes with rfl | rfl <;> decide
    · simp at hk
  exact ⟨m, hready, (no_false_reports_iff hready 10 _ (hintime _)).2 (hintime _)⟩

/-- All agents and servers are heard of in time, and the master finds itself dead. -/
theorem master_found_dead : ∃ m, ReadyAt Int smallFlags ["10.0.0.1:16666"] m 0 ∧
    HeardInTime Registrant 10 m 0 [.heartbeat (heartbeatFrom 1) 8, .heartbeat (heartbeatFrom 2) 8,
      .heartbeat (heartbeatFrom 3) 8, .detect 11] ∧
    ∃ m' tr, Checked.run (watch 10) m [Beat.heartbeat (heartbeatFrom 1) 8,
        .heartbeat (heartbeatFrom 2) 8, .heartbeat (heartbeatFrom 3) 8, .detect 11] = .ok (m', tr) ∧
      tr.map Prod.snd = [[], [], [], [0]] ∧ m'.config.configChanged = true := by
  refine ⟨_, ⟨[smallServer 1, smallAgent 2], _, _, smallServer 3, _, rfl, rfl, rfl, rfl⟩, ?_,
    _, _, rfl, rfl, rfl⟩
  rintro (_ | _ | _ | _ | k) now hk m' tr hrun - id t hid hheard
  · simp at hk
  · simp at hk
  · simp at hk
  · cases hk
    cases hrun
    have hids : id ∈ [2, 1, 3] := hid
    have hthree : id = 2 ∨ id = 1 ∨ id = 3 := by simpa using hids
    rcases hthree with rfl | rfl | rfl <;> (cases hheard; decide)
  · simp at hk

end Master

end Rpscc
