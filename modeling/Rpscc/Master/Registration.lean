import Rpscc.Master.Master
import Rpscc.Master.Removal

/-!
# Nodes that come and go

The master counts and lists the nodes of its cluster in separate members: `server_num_` and
`worker_num_` come from the command line, `server_id_` and `agent_id_` grow with every register
message and shrink with `FixConfig`, and `partition_` is drawn when the cluster is ready, and loses
an entry with every server.  The receivers of a configuration index the lists by the counts.

`Numbered` says what holds of the ids however nodes come and go: they are handed out without gaps,
so that `ToMessage` does not fault, and none of them twice.

* `delivered_config_consistent_iff`: after the cluster has been ready once, counts and lists agree
  in what `ToMessage` builds exactly as long as `FixConfig` has not had anything to do.
* `aligned_iff`: servers and boundaries stay in step exactly as long as no register message after
  the first `Ready` adds one without the other.
-/

set_option autoImplicit false

namespace Rpscc

namespace TaskConfig

/-! ## Ids -/

/-- The servers and agents have ids below `node_id_`, each of them its own. -/
structure Distinct (t : TaskConfig) : Prop where
  lt : ∀ id ∈ t.serverId ++ t.agentId, id < t.nodeId
  nodup : (t.serverId ++ t.agentId).Nodup

/-- The ids that have an address are exactly those below `node_id_`, in order. -/
structure Numbered (t : TaskConfig) : Prop extends Distinct t where
  nodeId : t.nodeId = t.idToAddr.length
  ids : t.idToAddr.map Prod.fst = (List.range t.idToAddr.length).map fun (i : ℕ) ↦ (i : Int)

variable {t t' : TaskConfig}

theorem Distinct.nodeId_not_mem (h : t.Distinct) : t.nodeId ∉ t.serverId ++ t.agentId :=
  fun hmem ↦ lt_irrefl _ (h.lt _ hmem)

/-- The next id is a new one, whichever list it goes to. -/
theorem Distinct.next (h : t.Distinct)
    (hperm : (t'.serverId ++ t'.agentId).Perm (t.nodeId :: (t.serverId ++ t.agentId)))
    (hid : t'.nodeId = t.nodeId + 1) : t'.Distinct := by
  refine ⟨fun id hmem ↦ ?_, hperm.symm.nodup (List.nodup_cons.2 ⟨h.nodeId_not_mem, h.nodup⟩)⟩
  rw [hid]
  rcases List.mem_cons.1 (hperm.subset hmem) with rfl | hmem
  · exact lt_add_one t.nodeId
  · exact lt_trans (h.lt id hmem) (lt_add_one t.nodeId)

theorem Distinct.appendServer (h : t.Distinct) (ip : String) (port : Int) :
    (t.appendServer ip port).Distinct := by
  refine h.next ?_ rfl
  show ((t.serverId ++ [t.nodeId]) ++ t.agentId).Perm _
  rw [List.append_assoc]
  exact List.perm_middle

theorem Distinct.appendAgent (h : t.Distinct) (ip : String) (port : Int) :
    (t.appendAgent ip port).Distinct := by
  refine h.next ?_ rfl
  show (t.serverId ++ (t.agentId ++ [t.nodeId])).Perm _
  rw [← List.append_assoc]
  exact List.perm_append_singleton _ _

theorem Numbered.not_mem (h : t.Numbered) : t.nodeId ∉ t.idToAddr.map Prod.fst := by
  rw [h.ids, h.nodeId, List.mem_map]
  rintro ⟨i, hi, heq⟩
  have := List.mem_range.1 hi
  omega

/-- The next address goes to the next id. -/
theorem Numbered.appendAddr (h : t.Numbered) (addr : String) : (t.appendAddr addr).Numbered := by
  have heq : (t.appendAddr addr).idToAddr = t.idToAddr ++ [(t.nodeId, addr)] :=
    Lists.assign_of_not_mem h.not_mem addr
  refine ⟨⟨fun id hid ↦ lt_trans (h.lt id hid) (lt_add_one t.nodeId), h.nodup⟩, ?_, ?_⟩
  · rw [heq, List.length_append]
    exact congrArg (· + 1) h.nodeId
  · rw [heq, List.map_append, h.ids, List.length_append, List.length_singleton, List.range_succ,
      List.map_append, h.nodeId]
    rfl

theorem Numbered.appendServer (h : t.Numbered) (ip : String) (port : Int) :
    (t.appendServer ip port).Numbered := by
  have h' := h.appendAddr (ip ++ ":" ++ toString port)
  exact ⟨h.toDistinct.appendServer ip port, h'.nodeId, h'.ids⟩

theorem Numbered.appendAgent (h : t.Numbered) (ip : String) (port : Int) :
    (t.appendAgent ip port).Numbered := by
  have h' := h.appendAddr (ip ++ ":" ++ toString port)
  exact ⟨h.toDistinct.appendAgent ip port, h'.nodeId, h'.ids⟩

theorem numbered_initializeMaster (f : Flags) (masters : List String) :
    (Master.initializeMaster f masters).config.Numbered := by
  have hstart : (initializeConfig f).Numbered :=
    ⟨⟨by simp [initializeConfig], by simp [initializeConfig]⟩, rfl, rfl⟩
  show (masters.foldl appendMaster (initializeConfig f)).Numbered
  generalize initializeConfig f = t at hstart
  induction masters generalizing t with
  | nil => exact hstart
  | cons ipPort masters ih =>
    have h' := hstart.appendAddr ipPort
    exact ih (t.appendMaster ipPort) ⟨⟨h'.lt, h'.nodup⟩, h'.nodeId, h'.ids⟩

/-- The entries of the map are the addresses, numbered. -/
theorem Numbered.idToAddr_eq (h : t.Numbered) :
    t.idToAddr = numberAddrs (t.idToAddr.map Prod.snd) := by
  refine List.ext_getElem? fun i ↦ ?_
  rw [getElem?_numberAddrs, List.getElem?_map, Option.map_map]
  rcases Nat.lt_or_ge i t.idToAddr.length with hi | hi
  · have hid : (t.idToAddr.map Prod.fst)[i]? = some (i : Int) := by
      rw [h.ids, List.getElem?_map, List.getElem?_range hi]
      rfl
    rw [List.getElem?_map, List.getElem?_eq_getElem hi] at hid
    rw [List.getElem?_eq_getElem hi]
    exact congrArg some (Prod.ext (Option.some.inj hid) rfl)
  · rw [List.getElem?_eq_none hi]
    rfl

/-- `ToMessage` puts every address where it is already. -/
theorem Numbered.toMessage_ok (h : t.Numbered) : ∃ c, t.toMessage = .ok c ∧
    c.workerNum = t.workerNum ∧ c.serverNum = t.serverNum ∧ c.keyRange = t.keyRange ∧
    c.serverId = t.serverId ∧ c.workerId = t.agentId ∧ c.partition = t.partition := by
  rw [toMessage, nodeIpPort_eq (.of_eq h.idToAddr_eq), Checked.ok_bind]
  exact ⟨_, rfl, rfl, rfl, rfl, rfl, rfl, rfl⟩

/-! ## What `FixConfig` takes out -/

/-- `t'` is `t` without the nodes of `dead`. -/
structure Without (dead : List Int) (t t' : TaskConfig) : Prop where
  serverId : t'.serverId = t.serverId.filter fun id ↦ decide (id ∉ dead)
  agentId : t'.agentId = t.agentId.filter fun id ↦ decide (id ∉ dead)
  partition : t'.partition.Sublist t.partition
  workerNum : t'.workerNum = t.workerNum
  serverNum : t'.serverNum = t.serverNum
  idToAddr : t'.idToAddr = t.idToAddr
  nodeId : t'.nodeId = t.nodeId

theorem Without.nil : Without [] t t := by
  refine ⟨?_, ?_, List.Sublist.refl _, rfl, rfl, rfl, rfl⟩ <;> simp

theorem Without.append {dead dead' : List Int} {t'' : TaskConfig} (h : Without dead t t')
    (h' : Without dead' t' t'') : Without (dead ++ dead') t t'' := by
  refine ⟨?_, ?_, h'.partition.trans h.partition, h'.workerNum.trans h.workerNum,
    h'.serverNum.trans h.serverNum, h'.idToAddr.trans h.idToAddr, h'.nodeId.trans h.nodeId⟩
  · rw [h'.serverId, h.serverId, List.filter_filter]
    simp only [List.mem_append, not_or, Bool.decide_and, Bool.and_comm]
  · rw [h'.agentId, h.agentId, List.filter_filter]
    simp only [List.mem_append, not_or, Bool.decide_and, Bool.and_comm]

theorem Without.sublist {dead : List Int} (h : Without dead t t') :
    (t'.serverId ++ t'.agentId).Sublist (t.serverId ++ t.agentId) := by
  rw [h.serverId, h.agentId]
  exact List.filter_sublist.append List.filter_sublist

theorem Without.distinct {dead : List Int} (h : Without dead t t') (hd : t.Distinct) :
    t'.Distinct := by
  refine ⟨fun id hid ↦ ?_, hd.nodup.sublist h.sublist⟩
  rw [h.nodeId]
  exact hd.lt id (h.sublist.subset hid)

theorem Without.numbered {dead : List Int} (h : Without dead t t') (hn : t.Numbered) :
    t'.Numbered :=
  ⟨h.distinct hn.toDistinct, by rw [h.nodeId, h.idToAddr, hn.nodeId], by rw [h.idToAddr, hn.ids]⟩

/-- An id is in one of the two lists, and once. -/
theorem removeNode_without (hn : (t.serverId ++ t.agentId).Nodup) {node : Int}
    (h : t.removeNode node = .ok t') : Without [node] t t' := by
  obtain ⟨hservers, hagents, hdisjoint⟩ := List.nodup_append'.1 hn
  have hkeep : ∀ {l : List Int}, node ∉ l → l = l.filter fun id ↦ decide (id ∉ [node]) := by
    intro l hl
    refine (List.filter_eq_self.2 fun id hid ↦ ?_).symm
    simpa using fun heq : id = node ↦ hl (heq ▸ hid)
  have herase : ∀ {l : List Int}, l.Nodup →
      l.erase node = l.filter fun id ↦ decide (id ∉ [node]) := by
    intro l hl
    rw [hl.erase_eq_filter]
    simp only [List.mem_singleton, bne_eq, decide_not, beq_eq_decide]
  rw [removeNode] at h
  split at h
  · rename_i hmem
    cases h
    exact ⟨hkeep fun hserver ↦ hdisjoint hserver hmem, herase hagents, List.Sublist.refl _, rfl,
      rfl, rfl, rfl⟩
  · rename_i hagent
    split at h
    · dsimp only at h
      split at h
      · cases h
        exact ⟨herase hservers, hkeep hagent, List.eraseIdx_sublist _ _, rfl, rfl, rfl, rfl⟩
      · simp at h
    · rename_i hserver
      cases h
      exact ⟨hkeep hserver, hkeep hagent, List.Sublist.refl _, rfl, rfl, rfl, rfl⟩

theorem foldlM_removeNode_without : ∀ {dead : List Int} {t t' : TaskConfig},
    (t.serverId ++ t.agentId).Nodup → dead.foldlM removeNode t = .ok t' → Without dead t t'
  | [], _, _, _, h => by
    cases h
    exact .nil
  | node :: dead, t, t', hn, h => by
    rw [List.foldlM_cons, Checked.bind_eq_ok] at h
    obtain ⟨t₁, h₁, h⟩ := h
    have hfirst := removeNode_without hn h₁
    exact hfirst.append (foldlM_removeNode_without (hn.sublist hfirst.sublist) h)

theorem fixConfig_without {dead : List Int} (hn : (t.serverId ++ t.agentId).Nodup)
    (h : t.fixConfig dead = .ok t') : Without dead t t' := by
  rw [fixConfig] at h
  split at h
  · rename_i hnil
    cases h
    exact hnil ▸ .nil
  · have h' := foldlM_removeNode_without (t := { t with configChanged := true }) hn h
    exact ⟨h'.serverId, h'.agentId, h'.partition, h'.workerNum, h'.serverNum, h'.idToAddr,
      h'.nodeId⟩

theorem fixConfigs_without : ∀ {calls : List (List Int)} {t t' : TaskConfig}, t.Numbered →
    t.fixConfigs calls = .ok t' → Without calls.flatten t t'
  | [], _, _, _, h => by
    cases h
    exact .nil
  | dead :: calls, t, t', hn, h => by
    rw [fixConfigs, List.foldlM_cons, Checked.bind_eq_ok] at h
    obtain ⟨t₁, h₁, h⟩ := h
    have hfirst := fixConfig_without hn.nodup h₁
    exact hfirst.append (fixConfigs_without (hfirst.numbered hn) h)

/-- Nobody on the dead list is a node of the cluster any more. -/
theorem fixConfig_of_not_mem {dead : List Int} (h : ∀ id ∈ dead, id ∉ t.serverId ++ t.agentId) :
    ∃ changed, t.fixConfig dead = .ok { t with configChanged := changed } := by
  rw [fixConfig]
  split
  · exact ⟨t.configChanged, rfl⟩
  · refine ⟨true, Checked.foldlM_eq_self fun id hid ↦ ?_⟩
    have hid' := h id hid
    rw [List.mem_append, not_or] at hid'
    rw [removeNode, if_neg hid'.2, if_neg hid'.1]

theorem fixConfigs_of_not_mem : ∀ {calls : List (List Int)} {t : TaskConfig},
    (∀ dead ∈ calls, ∀ id ∈ dead, id ∉ t.serverId ++ t.agentId) →
      ∃ changed, t.fixConfigs calls = .ok { t with configChanged := changed }
  | [], t, _ => ⟨t.configChanged, rfl⟩
  | dead :: calls, t, h => by
    obtain ⟨changed, hfirst⟩ := fixConfig_of_not_mem (h dead (List.mem_cons_self ..))
    obtain ⟨changed', hrest⟩ : ∃ changed', fixConfigs { t with configChanged := changed } calls
        = .ok { t with configChanged := changed' } :=
      fixConfigs_of_not_mem fun dead hdead ↦ h dead (List.mem_cons_of_mem _ hdead)
    exact ⟨changed', by rw [fixConfigs, List.foldlM_cons, hfirst, Checked.ok_bind]; exact hrest⟩

theorem Numbered.generatePartition (h : t.Numbered) (draw : ℕ → Int) :
    (t.generatePartition draw).Numbered :=
  ⟨⟨h.lt, h.nodup⟩, h.nodeId, h.ids⟩

@[simp, grind =] theorem length_generatePartition (draw : ℕ → Int) :
    (t.generatePartition draw).partition.length = t.partition.length + t.serverNum.toNat := by
  rw [TaskConfig.generatePartition, List.length_insertionSort, List.length_append, List.length_map,
    List.length_range]

end TaskConfig

namespace Master

variable {F : Type} {m m' : Master}

/-! ## Register messages -/

theorem processRegisterMsg_distinct (h : m.config.Distinct) (r : RegisterMessage) :
    (m.processRegisterMsg r).config.Distinct := by
  rw [processRegisterMsg]
  dsimp only
  split
  · exact h.appendServer r.ip r.port
  · exact h.appendAgent r.ip r.port

theorem processRegisterMsg_numbered (h : m.config.Numbered) (r : RegisterMessage) :
    (m.processRegisterMsg r).config.Numbered := by
  rw [processRegisterMsg]
  dsimp only
  split
  · exact h.appendServer r.ip r.port
  · exact h.appendAgent r.ip r.port

/-- What registering does to the counts and the lists. -/
theorem processRegisterMsg_config (m : Master) (r : RegisterMessage) :
    (m.processRegisterMsg r).config.serverNum = m.config.serverNum ∧
      (m.processRegisterMsg r).config.workerNum = m.config.workerNum ∧
      (m.processRegisterMsg r).config.partition = m.config.partition ∧
      (m.processRegisterMsg r).config.serverId.length
        = m.config.serverId.length + if r.isServer then 1 else 0 := by
  rw [processRegisterMsg]
  dsimp only
  split
  · exact ⟨rfl, rfl, rfl, List.length_append⟩
  · exact ⟨rfl, rfl, rfl, rfl⟩

theorem processRegisterMsg_agentId (m : Master) (r : RegisterMessage) :
    (m.processRegisterMsg r).config.agentId.length
      = m.config.agentId.length + if r.isServer then 0 else 1 := by
  rw [processRegisterMsg]
  dsimp only
  split
  · rfl
  · exact List.length_append

/-- The master with one more node, and a partition drawn for it. -/
def drawn (m : Master) (draw : ℕ → Int) (r : RegisterMessage) : Master :=
  { m.processRegisterMsg r with
    config := (m.processRegisterMsg r).config.generatePartition draw }

/-- Drawing the partition leaves the addresses. -/
theorem register_eq (m : Master) (draw : ℕ → Int) (now : Int) (r : RegisterMessage) :
    m.register (F := F) draw now r = if (m.processRegisterMsg r).config.ready then
      match (m.processRegisterMsg r).heartbeatAddrs with
      | .error _ => .ok ({ m.drawn draw r with terminated := true }, none)
      | .ok _ => do
        let sent ← (m.drawn draw r).deliverConfig
        if m.detecting then
          .ok ({ m.drawn draw r with terminated := true }, some sent)
        else
          .ok ({ (m.drawn draw r).fillAlive now with detecting := true }, some sent)
    else .ok (m.processRegisterMsg r, none) := rfl

/-- What a register message can do. -/
theorem register_cases {draw : ℕ → Int} {now : Int} {r : RegisterMessage}
    {sent : Option (List (Sent F))} (h : m.register draw now r = .ok (m', sent)) :
    (sent = none ∧ m' = m.processRegisterMsg r) ∨
      (sent = none ∧ m' = { m.drawn draw r with terminated := true }) ∨
      ∃ msgs, sent = some msgs ∧ (m.drawn draw r).deliverConfig = .ok msgs ∧
        m' = if m.detecting then { m.drawn draw r with terminated := true }
          else { (m.drawn draw r).fillAlive now with detecting := true } := by
  rw [register_eq] at h
  split at h
  · split at h
    · cases h
      exact .inr (.inl ⟨rfl, rfl⟩)
    · rw [Checked.bind_eq_ok] at h
      obtain ⟨msgs, hsent, h⟩ := h
      refine .inr (.inr ⟨msgs, ?_⟩)
      split at h
      · rename_i hdet
        cases h
        exact ⟨rfl, hsent, (if_pos hdet).symm⟩
      · rename_i hdet
        cases h
        exact ⟨rfl, hsent, (if_neg hdet).symm⟩
  · cases h
    exact .inl ⟨rfl, rfl⟩

/-- The ports of all nodes can be read with this one among them. -/
def addressed (m : Master) (r : RegisterMessage) : Bool :=
  (m.processRegisterMsg r).heartbeatAddrs.isOk

theorem addressed_iff (m : Master) (r : RegisterMessage) : m.addressed r = true ↔
    ∀ e ∈ (m.processRegisterMsg r).config.idToAddr, ∃ addr, heartbeatAddr e.2 = .ok addr := by
  rw [addressed, ← Checked.exists_mapM_ok_iff, heartbeatAddrs]
  cases (m.processRegisterMsg r).config.idToAddr.mapM fun e ↦ heartbeatAddr e.2 with
  | error e => simp [Except.isOk, Except.toBool]
  | ok as => simp [Except.isOk, Except.toBool]

/-- A register message never faults; the partition is drawn if the cluster is ready with it, and if
besides the addresses can be taken apart the configuration is delivered. -/
theorem register_ok (h : m.config.Numbered) (draw : ℕ → Int) (now : Int) (r : RegisterMessage) :
    ∃ m' sent, m.register (F := F) draw now r = .ok (m', sent) ∧
      sent.isSome = ((m.processRegisterMsg r).config.ready && m.addressed r) ∧
      m'.detecting = (m.detecting || sent.isSome) ∧
      m'.terminated = (m.terminated ||
        (m.processRegisterMsg r).config.ready && (m.detecting || !sent.isSome)) ∧
      m'.config = (if (m.processRegisterMsg r).config.ready
        then (m.processRegisterMsg r).config.generatePartition draw
        else (m.processRegisterMsg r).config) ∧
      m'.config.Numbered := by
  have hn := processRegisterMsg_numbered h r
  rw [register_eq, addressed]
  cases hready : (m.processRegisterMsg r).config.ready with
  | false =>
    exact ⟨_, none, rfl, rfl, by simp [processRegisterMsg], by simp [processRegisterMsg], rfl, hn⟩
  | true =>
    rw [if_pos rfl]
    cases haddrs : (m.processRegisterMsg r).heartbeatAddrs with
    | error fault =>
      exact ⟨_, none, rfl, rfl, by simp [drawn, processRegisterMsg], by simp, rfl,
        hn.generatePartition draw⟩
    | ok addrs =>
      obtain ⟨c, hc, -⟩ := (hn.generatePartition draw).toMessage_ok
      have hc' : (m.drawn draw r).config.toMessage = .ok c := hc
      dsimp only
      rw [deliverConfig, hc', Checked.ok_bind, Checked.ok_bind]
      cases hdet : m.detecting with
      | false =>
        exact ⟨_, some _, if_neg Bool.false_ne_true, rfl, rfl,
          by simp [fillAlive, drawn, processRegisterMsg], rfl, hn.generatePartition draw⟩
      | true =>
        exact ⟨_, some _, if_pos rfl, rfl, by simp [drawn, processRegisterMsg, hdet], by simp, rfl,
          hn.generatePartition draw⟩

/-- A register message with what the generator draws and the time, should they be asked for. -/
structure Registration where
  msg : RegisterMessage
  draw : ℕ → Int
  now : Int

/-- `MainLoop`, for a register message. -/
def handle (m : Master) (r : Registration) : Except Fault (Master × Option (List (Sent F))) :=
  m.register r.draw r.now r.msg

/-- The number of times the cluster has been found ready. -/
def readies (tr : List (Registration × Option (List (Sent F)))) : ℕ :=
  tr.countP fun p ↦ p.2.isSome

/-- Until somebody is taken out the lists only grow, so that the cluster is ready once at most.  It
is then that `server_num_` boundaries come in, and the configuration is delivered unless that ends
the process. -/
structure Registered (m : Master) (tr : List (Registration × Option (List (Sent F)))) : Prop where
  numbered : m.config.Numbered
  readies : readies tr = if m.detecting then 1 else 0
  full : (m.detecting || m.terminated) = true → m.config.serverNum + m.config.workerNum
    ≤ m.config.serverId.length + m.config.agentId.length
  length : m.config.partition.length
    = if m.detecting || m.terminated then m.config.serverNum.toNat else 0

@[simp] theorem initializeMaster_partition (f : Flags) (masters : List String) :
    (initializeMaster f masters).config.partition = [] := by
  show (masters.foldl TaskConfig.appendMaster (TaskConfig.initializeConfig f)).partition = []
  induction masters using List.reverseRecOn with
  | nil => rfl
  | append_singleton masters ipPort ih => rw [List.foldl_concat]; exact ih

theorem Registered.handle {tr : List (Registration × Option (List (Sent F)))}
    (h : Registered m tr) (r : Registration) :
    ∃ m' sent, m.handle r = .ok (m', sent) ∧ Registered m' (tr ++ [(r, sent)]) := by
  obtain ⟨m', sent, hreg, hsome, hdet, hterm, hconfig, hn⟩ :=
    register_ok (F := F) h.numbered r.draw r.now r.msg
  obtain ⟨hnum, hworkers, hpart, hservers⟩ := processRegisterMsg_config m r.msg
  have hagents := processRegisterMsg_agentId m r.msg
  have hreadies : Master.readies (tr ++ [(r, sent)])
      = Master.readies tr + if sent.isSome then 1 else 0 := by
    rw [Master.readies, List.countP_append, List.countP_singleton]
    rfl
  refine ⟨m', sent, hreg, ?_⟩
  cases hready : (m.processRegisterMsg r.msg).config.ready with
  | false =>
    rw [hready, Bool.false_and] at hsome
    rw [hsome, Bool.or_false] at hdet
    rw [hready, Bool.false_and, Bool.or_false] at hterm
    rw [hready, if_neg Bool.false_ne_true] at hconfig
    refine ⟨hn, ?_, fun hstopped ↦ ?_, ?_⟩
    · rw [hreadies, hsome, hdet]
      exact h.readies
    · rw [hdet, hterm] at hstopped
      have hfull := h.full hstopped
      rw [hconfig, hnum, hworkers, hservers, hagents]
      omega
    · rw [hconfig, hdet, hterm, hpart, hnum]
      exact h.length
  | true =>
    -- with one node less than now the lists were not full before
    have hfull : m.config.serverNum = (m.processRegisterMsg r.msg).config.serverId.length ∧
        m.config.workerNum = (m.processRegisterMsg r.msg).config.agentId.length := by
      rw [TaskConfig.ready, decide_eq_true_eq, hnum, hworkers] at hready
      exact ⟨hready.1.symm, hready.2.symm⟩
    have hgoing : (m.detecting || m.terminated) = false := by
      refine Bool.eq_false_iff.2 fun hstopped ↦ ?_
      have hle := h.full hstopped
      rw [hservers, hagents] at hfull
      split at hfull <;> omega
    obtain ⟨hnew, hrunning⟩ := Bool.or_eq_false_iff.1 hgoing
    have hlen := h.length
    rw [hgoing, if_neg Bool.false_ne_true] at hlen
    rw [hnew, Bool.false_or] at hdet
    rw [hready, Bool.true_and, hrunning, hnew, Bool.false_or, Bool.false_or] at hterm
    rw [hready, if_pos rfl] at hconfig
    refine ⟨hn, ?_, fun _ ↦ ?_, ?_⟩
    · rw [hreadies, hdet, h.readies, hnew, if_neg Bool.false_ne_true, Nat.zero_add]
    · rw [hconfig]
      show (m.processRegisterMsg r.msg).config.serverNum
        + (m.processRegisterMsg r.msg).config.workerNum ≤ _
      rw [hnum, hworkers, hfull.1, hfull.2]
      exact le_refl _
    · rw [hdet, hterm, Bool.or_not_self, if_pos rfl, hconfig, TaskConfig.length_generatePartition,
        hpart, hlen, Nat.zero_add]
      rfl

/-- However many nodes register, no message faults. -/
theorem registrations_ok (f : Flags) (masters : List String) (rs : List Registration) :
    ∃ m tr, Checked.run (handle (F := F)) (initializeMaster f masters) rs = .ok (m, tr) ∧
      Registered m tr := by
  have hstart : Registered (F := F) (initializeMaster f masters) [] := by
    refine ⟨TaskConfig.numbered_initializeMaster f masters, rfl, fun hstopped ↦ ?_, ?_⟩
    · cases hstopped
    · rw [initializeMaster_partition]
      rfl
  exact Checked.run_invariant (fun _ ↦ True) hstart (fun _ _ r _ h ↦ h.handle r) rs
    fun _ _ ↦ trivial

end Master

/-! ## What the nodes are told -/

/-- The counts of a configuration are the lengths of its lists. -/
structure ConfigMessage.SelfConsistent (c : ConfigMessage) : Prop where
  serverId : (c.serverId.length : Int) = c.serverNum
  partition : (c.partition.length : Int) = c.serverNum
  workerId : (c.workerId.length : Int) = c.workerNum

/-- The loops that run up to a count find an entry each time. -/
def ConfigMessage.EntriesExist (c : ConfigMessage) : Prop :=
  (∀ i : Int, 0 ≤ i → i < c.serverNum →
    (∃ id, Checked.get c.serverId i = .ok id) ∧ ∃ b, Checked.get c.partition i = .ok b) ∧
  ∀ i : Int, 0 ≤ i → i < c.workerNum → ∃ id, Checked.get c.workerId i = .ok id

theorem ConfigMessage.SelfConsistent.entriesExist {c : ConfigMessage} (h : c.SelfConsistent) :
    c.EntriesExist :=
  ⟨fun _ h0 hlt ↦ ⟨Checked.exists_get h0 (h.serverId.symm ▸ hlt),
    Checked.exists_get h0 (h.partition.symm ▸ hlt)⟩,
    fun _ h0 hlt ↦ Checked.exists_get h0 (h.workerId.symm ▸ hlt)⟩

namespace TaskConfig

variable {t t' : TaskConfig} {c : ConfigMessage}

/-- A configuration is built from a ready cluster if and only if it has the counts of the lists of
nodes. -/
theorem Numbered.ready_iff (h : t.Numbered) (hc : t.toMessage = .ok c) :
    t.ready = true ↔ (c.serverId.length : Int) = c.serverNum ∧
      (c.workerId.length : Int) = c.workerNum := by
  obtain ⟨c', hc', hworker, hserver, -, hservers, hworkers, -⟩ := h.toMessage_ok
  obtain rfl : c = c' := by simpa [hc] using hc'
  rw [ready, decide_eq_true_eq, hservers, hserver, hworkers, hworker]

/-- If a ready cluster is still ready without some of its nodes, there are none of these. -/
theorem Without.notMem {dead : List Int} (h : Without dead t t') (hready : t.ready = true)
    (hready' : t'.ready = true) : ∀ id ∈ t.serverId ++ t.agentId, id ∉ dead := by
  rw [ready, decide_eq_true_eq] at hready hready'
  rw [h.serverId, h.serverNum, h.agentId, h.workerNum, ← hready.1, ← hready.2] at hready'
  have hall : ∀ l : List Int,
      ((l.filter fun id ↦ decide (id ∉ dead)).length : Int) = l.length →
        ∀ id ∈ l, id ∉ dead := fun l hl id hid ↦
    of_decide_eq_true (List.length_filter_eq_length_iff.1 (Int.ofNat.inj hl) id hid)
  intro id hid
  rcases List.mem_append.1 hid with hid | hid
  · exact hall _ hready'.1 id hid
  · exact hall _ hready'.2 id hid

/-- From a ready cluster that has a boundary for each server. -/
theorem Numbered.selfConsistent (h : t.Numbered) (hready : t.ready = true)
    (hlen : t.partition.length = t.serverNum.toNat) :
    ∃ c, t.toMessage = .ok c ∧ c.SelfConsistent := by
  obtain ⟨c, hc, -, hserver, -, -, -, hpart⟩ := h.toMessage_ok
  obtain ⟨hservers, hworkers⟩ := (h.ready_iff hc).1 hready
  refine ⟨c, hc, hservers, ?_, hworkers⟩
  rw [hserver] at hservers
  rw [hpart, hserver, hlen, ← hservers, Int.toNat_natCast]

end TaskConfig

namespace Master

variable {F : Type} {m : Master}

/-- **Configurations agree with themselves as long as nobody is taken out.**  After registrations
that made the cluster ready exactly once, every configuration that `ToMessage` builds between any
calls of `FixConfig` has the counts of its lists, and so an entry for each pass of the loops of its
readers, if and only if the cluster is still ready before the calls and no call names one of its
nodes. -/
theorem delivered_config_consistent_iff (f : Flags) (masters : List String) (rs : List Registration)
    {tr : List (Registration × Option (List (Sent F)))}
    (hrun : Checked.run handle (initializeMaster f masters) rs = .ok (m, tr))
    (hready : readies tr = 1) (deads : List (List Int)) :
    (∀ calls, calls <+: deads → ∃ t c, m.config.fixConfigs calls = .ok t ∧ t.toMessage = .ok c ∧
        c.SelfConsistent ∧ c.EntriesExist) ↔
      m.config.ready = true ∧
        ∀ dead ∈ deads, ∀ id ∈ dead, id ∉ m.config.serverId ++ m.config.agentId := by
  obtain ⟨_, _, hrun', hn, hreadies, -, hlen⟩ := registrations_ok (F := F) f masters rs
  obtain ⟨rfl, rfl⟩ : m = _ ∧ tr = _ := by simpa [hrun] using hrun'
  have hdet : m.detecting = true := by
    by_contra hnot
    rw [hready, if_neg hnot] at hreadies
    exact absurd hreadies Nat.one_ne_zero
  rw [hdet, Bool.true_or, if_pos rfl] at hlen
  constructor
  · intro h
    have hfull : m.config.ready = true := by
      obtain ⟨t, c, ht, hc, hself, -⟩ := h [] (List.nil_prefix)
      cases ht
      exact (hn.ready_iff hc).2 ⟨hself.serverId, hself.workerId⟩
    refine ⟨hfull, fun dead hdead id hid hmem ↦ ?_⟩
    -- as many nodes are left as there were, so nobody was named
    obtain ⟨t, c, ht, hc, hself, -⟩ := h deads (List.prefix_refl deads)
    have hw := TaskConfig.fixConfigs_without hn ht
    have hready' : t.ready = true :=
      ((hw.numbered hn).ready_iff hc).2 ⟨hself.serverId, hself.workerId⟩
    exact hw.notMem hfull hready' id hmem (List.mem_flatten_of_mem hdead hid)
  · rintro ⟨hfull, hdeads⟩ calls hcalls
    obtain ⟨changed, ht⟩ := TaskConfig.fixConfigs_of_not_mem (t := m.config) fun dead hdead ↦
      hdeads dead (hcalls.subset hdead)
    have hn' : TaskConfig.Numbered { m.config with configChanged := changed } :=
      ⟨⟨hn.lt, hn.nodup⟩, hn.nodeId, hn.ids⟩
    obtain ⟨c, hc, hself⟩ := hn'.selfConsistent hfull hlen
    exact ⟨_, c, ht, hc, hself, hself.entriesExist⟩

/-- Two servers and an agent. -/
def smallFlags : Flags where
  workerNum := 1
  serverNum := 2
  keyRange := 9
  bound := 1
  backupSize := 0

/-- A server that registers, with the draws `3` and `6` should they be asked for. -/
def smallServer (port : Int) : Registration where
  msg := ⟨"10.0.0.1", port, true⟩
  draw := fun i ↦ 3 * i + 3
  now := 0

/-- An agent that registers. -/
def smallAgent (port : Int) : Registration where
  msg := ⟨"10.0.0.1", port, false⟩
  draw := fun i ↦ 3 * i + 3
  now := 0

/-- As long as only an unknown node is called dead, nothing goes wrong. -/
theorem delivered_config_consistent_iff_stranger : ∃ m tr,
    Checked.run (handle (F := Int)) (initializeMaster smallFlags ["10.0.0.1:16666"])
      [smallServer 1, smallAgent 2, smallServer 3] = .ok (m, tr) ∧ readies tr = 1 ∧
    ∀ calls, calls <+: [[7], [0, 7]] → ∃ t c, m.config.fixConfigs calls = .ok t ∧
      t.toMessage = .ok c ∧ c.SelfConsistent ∧ c.EntriesExist := by
  obtain ⟨m, tr, hrun, hready, hfull, hids⟩ : ∃ m tr,
      Checked.run (handle (F := Int)) (initializeMaster smallFlags ["10.0.0.1:16666"])
        [smallServer 1, smallAgent 2, smallServer 3] = .ok (m, tr) ∧ readies tr = 1 ∧
      m.config.ready = true ∧ m.config.serverId ++ m.config.agentId = [1, 3, 2] :=
    ⟨_, _, rfl, rfl, rfl, rfl⟩
  refine ⟨m, tr, hrun, hready, (delivered_config_consistent_iff smallFlags ["10.0.0.1:16666"]
    [smallServer 1, smallAgent 2, smallServer 3] hrun hready [[7], [0, 7]]).2 ⟨hfull, ?_⟩⟩
  rw [hids]
  decide

/-- One of the two servers dies, and `server_num_` stays `2`. -/
theorem dead_server_still_counted : ∃ m tr t c,
    Checked.run (handle (F := Int)) (initializeMaster smallFlags ["10.0.0.1:16666"])
      [smallServer 1, smallAgent 2, smallServer 3] = .ok (m, tr) ∧ readies tr = 1 ∧
    m.config.fixConfigs [[1]] = .ok t ∧ t.toMessage = .ok c ∧
    c.serverNum = 2 ∧ c.serverId = [3] ∧ c.partition = [6] ∧
    ¬ c.SelfConsistent ∧ ¬ c.EntriesExist := by
  refine ⟨_, _, _, _, rfl, rfl, rfl, rfl, rfl, rfl, rfl, fun h ↦ ?_, fun h ↦ ?_⟩
  · exact absurd h.serverId (by decide)
  · obtain ⟨⟨id, hid⟩, -⟩ := h.1 1 (by decide) (by decide)
    exact absurd hid (by rintro ⟨⟩)

end Master

/-! ## Servers and boundaries -/

/-- The boundaries are in order, one a server. -/
structure TaskConfig.Aligned (t : TaskConfig) : Prop where
  sorted : t.partition.Pairwise (· ≤ ·)
  length : t.partition.length = t.serverId.length

theorem TaskConfig.Aligned.fixConfig {t : TaskConfig} (h : t.Aligned) (hnodup : t.serverId.Nodup)
    (dead : List Int) : ∃ t', t.fixConfig dead = .ok t' ∧ t'.Aligned := by
  obtain ⟨t', ht', hkeeps⟩ := fixConfig_keeps hnodup h.length dead
  refine ⟨t', ht', ?_, hkeeps.length⟩
  have hsorted := h.sorted
  rw [← map_snd_entries h.length] at hsorted
  rw [← map_snd_entries hkeeps.length]
  exact hsorted.sublist (hkeeps.entries.map Prod.snd)

namespace Master

variable {F : Type} {m m' : Master}

/-- What the threads of the master do to its configuration. -/
inductive Event
  /-- `MainLoop` receives a register message. -/
  | register (r : Registration)
  /-- `DetectDeadNode` calls `FixConfig`. -/
  | fix (dead : List Int)

/-- The thread of `DetectDeadNode` is there from the first `Ready` on, and nothing happens any more
once the process has ended. -/
def step (m : Master) : Event → Except Fault (Master × Option (List (Sent F)))
  | .register r => if m.terminated then .ok (m, none) else m.handle r
  | .fix dead =>
    if m.detecting && !m.terminated then do
      let config ← m.config.fixConfig dead
      .ok ({ m with config := config }, none)
    else
      .ok (m, none)

/-- With this node as many boundaries come in as servers. -/
def Harmless (m : Master) (r : RegisterMessage) : Prop :=
  (if (m.processRegisterMsg r).config.ready then m.config.serverNum.toNat else 0)
    = if r.isServer then 1 else 0

instance (m : Master) (r : RegisterMessage) : Decidable (m.Harmless r) :=
  inferInstanceAs (Decidable (_ = _))

/-- What holds of the master whoever comes and goes. -/
structure Started (m : Master) : Prop where
  numbered : m.config.Numbered
  partition : m.detecting = false → m.terminated = false → m.config.partition = []

theorem started_initializeMaster (f : Flags) (masters : List String) :
    (initializeMaster f masters).Started :=
  ⟨TaskConfig.numbered_initializeMaster f masters,
    fun _ _ ↦ initializeMaster_partition f masters⟩

/-- The boundaries after a register message. -/
theorem handle_partition (h : m.Started) (r : Registration) {sent : Option (List (Sent F))}
    (hstep : m.handle r = .ok (m', sent)) :
    m'.Started ∧ (m.detecting = true → m'.detecting = true) ∧
      (m'.detecting = true → m.detecting = false →
        (m.processRegisterMsg r.msg).config.ready = true) ∧
      m'.config.serverId.length
        = m.config.serverId.length + (if r.msg.isServer then 1 else 0) ∧
      (m.config.partition.Pairwise (· ≤ ·) → m'.config.partition.Pairwise (· ≤ ·)) ∧
      m'.config.partition.length = m.config.partition.length +
        if (m.processRegisterMsg r.msg).config.ready then m.config.serverNum.toNat else 0 := by
  obtain ⟨m₁, sent₁, hreg, hsome, hdet, hterm, hconfig, hn⟩ :=
    register_ok (F := F) h.numbered r.draw r.now r.msg
  obtain ⟨rfl, rfl⟩ : m' = m₁ ∧ sent = sent₁ := by
    rw [Master.handle, hreg] at hstep
    cases hstep
    exact ⟨rfl, rfl⟩
  obtain ⟨hnum, -, hpart, hservers⟩ := processRegisterMsg_config m r.msg
  cases hready : (m.processRegisterMsg r.msg).config.ready with
  | false =>
    rw [hready, Bool.false_and] at hsome
    rw [hsome, Bool.or_false] at hdet
    rw [hready, Bool.false_and, Bool.or_false] at hterm
    rw [hready, if_neg Bool.false_ne_true] at hconfig
    refine ⟨⟨hn, fun hnot hrun ↦ ?_⟩, fun h ↦ hdet.trans h, fun h hnot ↦ ?_, ?_, ?_, ?_⟩
    · rw [hconfig, hpart]
      exact h.partition (hdet ▸ hnot) (hterm ▸ hrun)
    · rw [hdet, hnot] at h
      exact absurd h Bool.false_ne_true
    · rw [hconfig, hservers]
    · rw [hconfig, hpart]
      exact id
    · rw [hconfig, hpart]
      rfl
  | true =>
    rw [hready, Bool.true_and] at hterm
    rw [hready, if_pos rfl] at hconfig
    refine ⟨⟨hn, fun hnot hrun ↦ ?_⟩, fun h ↦ ?_, fun _ _ ↦ rfl, ?_, fun _ ↦ ?_, ?_⟩
    · -- the process goes on only if it has delivered the configuration
      rw [hdet, Bool.or_eq_false_iff] at hnot
      rw [hterm, hnot.2, Bool.not_false, Bool.or_true, Bool.or_true] at hrun
      exact absurd hrun Bool.true_eq_false_eq_False
    · rw [hdet, h, Bool.true_or]
    · rw [hconfig]
      exact hservers
    · rw [hconfig]
      exact List.pairwise_insertionSort _ _
    · rw [hconfig, TaskConfig.length_generatePartition, hpart, hnum]
      rfl

theorem step_started (h : m.Started) {e : Event} {sent : Option (List (Sent F))}
    (hstep : m.step e = .ok (m', sent)) : m'.Started := by
  cases e with
  | register r =>
    rw [step] at hstep
    split at hstep
    · cases hstep
      exact h
    · exact (handle_partition h r hstep).1
  | fix dead =>
    rw [step] at hstep
    split at hstep
    · rename_i hdet
      rw [Checked.bind_eq_ok] at hstep
      obtain ⟨config, hconfig, hstep⟩ := hstep
      cases hstep
      rw [Bool.and_eq_true] at hdet
      refine ⟨(TaskConfig.fixConfig_without h.numbered.nodup hconfig).numbered h.numbered,
        fun hnot ↦ ?_⟩
      exact absurd (hdet.1.symm.trans hnot) Bool.true_eq_false_eq_False
    · cases hstep
      exact h

/-- A register message keeps servers and boundaries in step if it is harmless, or the first one with
which the cluster is ready. -/
theorem handle_aligned_iff (h : m.Started) (hgoing : m.terminated = false)
    (haligned : m.detecting = true → m.config.Aligned)
    (r : Registration) {sent : Option (List (Sent F))} (hstep : m.handle r = .ok (m', sent)) :
    (m'.detecting = true → m'.config.Aligned) ↔ (m.detecting = true → m.Harmless r.msg) := by
  obtain ⟨-, hkeeps, hfirst, hservers, hsorted, hpart⟩ := handle_partition h r hstep
  cases hm : m.detecting with
  | true =>
    have haligned := haligned hm
    have hdet := hkeeps hm
    simp only [hdet, true_implies]
    rw [haligned.length] at hpart
    constructor
    · intro haligned'
      have hlen := haligned'.length
      rw [hpart, hservers] at hlen
      exact Nat.add_left_cancel hlen
    · intro hharmless
      exact ⟨hsorted haligned.sorted, by rw [hpart, hservers]; exact congrArg _ hharmless⟩
  | false =>
    have hnil := h.partition hm hgoing
    simp only [Bool.false_eq_true, false_implies, iff_true]
    intro hdet'
    have hready := hfirst hdet' hm
    refine ⟨hsorted (by rw [hnil]; exact List.Pairwise.nil), ?_⟩
    obtain ⟨hnum, -, -, hlen⟩ := processRegisterMsg_config m r.msg
    rw [hpart, hnil, hready, if_pos rfl, hservers, ← hlen]
    rw [TaskConfig.ready, decide_eq_true_eq, hnum] at hready
    rw [← hready.1, Int.toNat_natCast, List.length_nil, Nat.zero_add]

theorem step_aligned_iff (h : m.Started) (haligned : m.detecting = true → m.config.Aligned)
    (e : Event) :
    (∃ m' sent, m.step (F := F) e = .ok (m', sent) ∧ (m'.detecting = true → m'.config.Aligned)) ↔
      ∀ r, e = .register r → m.detecting = true → m.terminated = false → m.Harmless r.msg := by
  cases e with
  | register r =>
    rw [step]
    cases hterm : m.terminated with
    | true =>
      refine ⟨fun _ _ _ _ hnot ↦ ?_, fun _ ↦ ⟨m, none, rfl, haligned⟩⟩
      simp at hnot
    | false =>
      obtain ⟨m', sent, hreg, -⟩ := register_ok (F := F) h.numbered r.draw r.now r.msg
      have hiff := handle_aligned_iff h hterm haligned r hreg
      constructor
      · rintro ⟨m₁, sent₁, hstep, hafter⟩ r' heq hdet -
        cases heq
        exact (handle_aligned_iff h hterm haligned r hstep).1 hafter hdet
      · exact fun hall ↦ ⟨m', sent, hreg, hiff.2 fun hdet ↦ hall r rfl hdet rfl⟩
  | fix dead =>
    refine ⟨fun _ r heq ↦ ?_, fun _ ↦ ?_⟩
    · simp at heq
    · rw [step]
      split
      · rename_i hdet
        rw [Bool.and_eq_true] at hdet
        obtain ⟨t', ht', haligned'⟩ :=
          (haligned hdet.1).fixConfig h.numbered.nodup.of_append_left dead
        exact ⟨{ m with config := t' }, none, by rw [ht', Checked.ok_bind], fun _ ↦ haligned'⟩
      · exact ⟨m, none, rfl, haligned⟩

theorem run_started {f : Flags} {masters : List String} {events : List Event}
    {tr : List (Event × Option (List (Sent F)))}
    (hrun : Checked.run step (initializeMaster f masters) events = .ok (m, tr)) : m.Started :=
  Checked.run_keeps (P := fun m _ ↦ m.Started) (fun _ _ _ _ _ h hstep ↦ step_started h hstep)
    (started_initializeMaster f masters) hrun

/-- **Servers and boundaries stay in step as long as nobody comes late.**  At every point after the
first `Ready` the partition is in order with one entry a server, and no `FixConfig` erases an entry
that is not there, if and only if every register message that comes after the first `Ready` brings
as many boundaries as servers. -/
theorem aligned_iff (f : Flags) (masters : List String) (events : List Event) :
    (∀ before, before <+: events → ∃ m tr,
        Checked.run (step (F := F)) (initializeMaster f masters) before = .ok (m, tr) ∧
        (m.detecting = true → m.config.Aligned)) ↔
      ∀ before r, before ++ [.register r] <+: events → ∀ m tr,
        Checked.run (step (F := F)) (initializeMaster f masters) before = .ok (m, tr) →
        m.detecting = true → m.terminated = false → m.Harmless r.msg := by
  induction events using List.reverseRecOn with
  | nil =>
    refine ⟨fun _ before r hpre ↦ ?_, fun _ before hpre ↦ ?_⟩
    · exact absurd (List.prefix_nil.1 hpre)
        (List.append_ne_nil_of_right_ne_nil _ (List.cons_ne_nil _ _))
    · rw [List.prefix_nil.1 hpre]
      refine ⟨_, _, rfl, fun hdet ↦ ?_⟩
      cases hdet
  | append_singleton events e ih =>
    constructor
    · intro h before r hpre m tr hrun hdet hterm
      have hbefore : before <+: events ++ [e] := (List.prefix_append _ _).trans hpre
      obtain ⟨m₁, tr₁, hrun₁, haligned⟩ := h before hbefore
      obtain ⟨rfl, rfl⟩ : m = m₁ ∧ tr = tr₁ := by simpa [hrun] using hrun₁
      obtain ⟨m₂, tr₂, hrun₂, haligned₂⟩ := h _ hpre
      obtain ⟨m₃, tr₃, sent, hrun₃, hstep, -⟩ := Checked.run_concat_eq_ok hrun₂
      obtain ⟨rfl, rfl⟩ : m = m₃ ∧ tr = tr₃ := by simpa [hrun] using hrun₃
      exact (step_aligned_iff (run_started hrun) haligned (.register r)).1
        ⟨m₂, sent, hstep, haligned₂⟩ r rfl hdet hterm
    · intro h before hpre
      have hsofar := ih.2 fun before r hbefore ↦ h before r (hbefore.trans (List.prefix_append _ _))
      rcases List.prefix_concat_iff.1 hpre with rfl | hpre
      · obtain ⟨m, tr, hrun, haligned⟩ := hsofar events (List.prefix_refl events)
        obtain ⟨m', sent, hstep, haligned'⟩ :=
          (step_aligned_iff (F := F) (run_started hrun) haligned e).2 fun r heq ↦
            h events r (heq ▸ List.prefix_refl _) m tr hrun
        exact ⟨m', _, Checked.run_concat hrun hstep, haligned'⟩
      · exact hsofar before hpre

/-- A server takes the place of a dead one, and the partition is drawn on top of the old one.  A
server that is one too many gets no boundary, and `FixConfig` then erases one that is not there. -/
theorem late_server_misaligned :
    (∃ m tr, Checked.run (step (F := Int)) (initializeMaster smallFlags ["10.0.0.1:16666"])
      [.register (smallServer 1), .register (smallAgent 2), .register (smallServer 3), .fix [1],
        .register (smallServer 4)] = .ok (m, tr) ∧
      m.detecting = true ∧ m.config.serverId = [3, 4] ∧ m.config.partition = [3, 6, 6] ∧
      ¬ m.config.Aligned) ∧
    Checked.run (step (F := Int)) (initializeMaster smallFlags ["10.0.0.1:16666"])
      [.register (smallServer 1), .register (smallAgent 2), .register (smallServer 3),
        .register (smallServer 4), .fix [4]] = .error .outOfRange :=
  ⟨⟨_, _, rfl, rfl, rfl, rfl, fun h ↦ absurd h.length (by decide)⟩, rfl⟩

end Master

end Rpscc
