import Rpscc.Master.Registration

/-!
# Addresses and ids

`ToMessage` writes the addresses down by position: entry `id` of `node_ip_port` is the address of
node `id`.  It takes them from a map, sorts them by their ids, and then puts every one where it
belongs, which comes to the same if and only if the ids in the map are `0`, `1`, `2` and so on.

The `Append` functions hand the ids out in this order.  But `GetIp`, which is only there for the
log, looks an id up with `[]` and so puts it into the map.  A heartbeat from a node the master does
not know is enough for that, and until its id is handed out every configuration has an address too
many (`stranger_gets_address`).  `addresses_iff` says that this is all that can go wrong.
-/

set_option autoImplicit false

namespace Rpscc

/-! ## Runs -/

namespace Master

variable {F : Type}

/-- What the threads of the master call that concerns ids and addresses. -/
inductive ConfigCall (F : Type)
  | appendMaster (ipPort : String)
  | appendServer (ip : String) (port : Int)
  | appendAgent (ip : String) (port : Int)
  | generatePartition (draw : ℕ → Int)
  | processHeartbeatMsg (now : Int) (msg : Message F)
  | fixConfig (dead : List Int)

namespace ConfigCall

/-- Make a call. -/
def apply (m : Master) : ConfigCall F → Except Fault Master
  | .appendMaster ipPort => .ok { m with config := m.config.appendMaster ipPort }
  | .appendServer ip port => .ok { m with config := m.config.appendServer ip port }
  | .appendAgent ip port => .ok { m with config := m.config.appendAgent ip port }
  | .generatePartition draw => .ok { m with config := m.config.generatePartition draw }
  | .processHeartbeatMsg now msg => m.processHeartbeatMsg now msg
  | .fixConfig dead => do
    let config ← m.config.fixConfig dead
    .ok { m with config := config }

/-- The address a call registers. -/
def address : ConfigCall F → Option String
  | .appendMaster ipPort => some ipPort
  | .appendServer ip port | .appendAgent ip port => some (ip ++ ":" ++ toString port)
  | .generatePartition _ | .processHeartbeatMsg _ _ | .fixConfig _ => none

/-- The id a heartbeat comes from. -/
def sender : ConfigCall F → Option Int
  | .processHeartbeatMsg _ msg => some msg.sendId
  | .appendMaster _ | .appendServer _ _ | .appendAgent _ _ | .generatePartition _
  | .fixConfig _ => none

end ConfigCall

/-- The addresses that have been registered, the `i`-th for id `i`. -/
def addresses (calls : List (ConfigCall F)) : List String := calls.filterMap ConfigCall.address

/-- The ids that heartbeats have come from. -/
def senders (calls : List (ConfigCall F)) : List Int := calls.filterMap ConfigCall.sender

/-- Ids and addresses are as they should be: an id for every call that registers a node, no id in
two of the lists, and in the message every address at its id. -/
structure AddressesOk (m : Master) (addrs : List String) : Prop where
  nodeId : m.config.nodeId = addrs.length
  handedOut : ∀ id ∈ m.config.masterId ++ (m.config.serverId ++ m.config.agentId),
    0 ≤ id ∧ id < m.config.nodeId
  nodup : (m.config.masterId ++ (m.config.serverId ++ m.config.agentId)).Nodup
  message : ∃ c, m.config.toMessage = .ok c ∧ c.nodeIpPort = addrs

end Master

namespace TaskConfig

variable {t t' : TaskConfig} {addrs : List String} {ids : List Int}

/-- What the map and the lists hold when these addresses have been registered and heartbeats have
come from these ids. -/
structure Tracks (t : TaskConfig) (addrs : List String) (ids : List Int) : Prop where
  nodeId : t.nodeId = addrs.length
  handedOut : ∀ id ∈ t.masterId ++ (t.serverId ++ t.agentId), 0 ≤ id ∧ id < t.nodeId
  nodup : (t.masterId ++ (t.serverId ++ t.agentId)).Nodup
  nodupKeys : (t.idToAddr.map Prod.fst).Nodup
  registered : ∀ e ∈ numberAddrs addrs, e ∈ t.idToAddr
  heard : ∀ id ∈ ids, ∃ e ∈ t.idToAddr, e.1 = id
  only : ∀ e ∈ t.idToAddr, e ∈ numberAddrs addrs ∨ e.1 ∈ ids

@[simp] theorem numberAddrs_concat (addrs : List String) (addr : String) :
    numberAddrs (addrs ++ [addr]) = numberAddrs addrs ++ [((addrs.length : Int), addr)] :=
  List.mapIdx_concat

theorem lt_of_mem_numberAddrs {e : Int × String} (he : e ∈ numberAddrs addrs) :
    0 ≤ e.1 ∧ e.1 < addrs.length := by
  obtain ⟨i, hi, ha⟩ := mem_numberAddrs.1 he
  have hlt := (List.getElem?_eq_some_iff.1 ha).1
  omega

theorem tracks_initializeConfig (f : Flags) : (initializeConfig f).Tracks [] [] := by
  constructor <;> simp [initializeConfig, numberAddrs]

/-- A node is given the next id, in one of the lists, and its address. -/
theorem Tracks.next (h : t.Tracks addrs ids) {addr : String}
    (hperm : (t'.masterId ++ (t'.serverId ++ t'.agentId)).Perm
      (t.nodeId :: (t.masterId ++ (t.serverId ++ t.agentId))))
    (hid : t'.nodeId = t.nodeId + 1)
    (haddr : t'.idToAddr = Lists.assign t.idToAddr t.nodeId addr) :
    t'.Tracks (addrs ++ [addr]) ids where
  nodeId := by
    rw [hid, h.nodeId, List.length_append]
    rfl
  handedOut := by
    intro id hmem
    rw [hid]
    rcases List.mem_cons.1 (hperm.subset hmem) with rfl | hmem
    · rw [h.nodeId]
      omega
    · have hid' := h.handedOut id hmem
      omega
  nodup := by
    refine hperm.symm.nodup (List.nodup_cons.2 ⟨fun hmem ↦ ?_, h.nodup⟩)
    exact lt_irrefl _ (h.handedOut _ hmem).2
  nodupKeys := by
    rw [haddr]
    exact Lists.nodup_keys_assign h.nodupKeys addr
  registered := by
    intro e he
    rw [haddr, Lists.mem_assign]
    rw [numberAddrs_concat, List.mem_append, List.mem_singleton] at he
    rcases he with he | rfl
    · refine .inr ⟨?_, h.registered e he⟩
      rw [h.nodeId]
      exact (lt_of_mem_numberAddrs he).2.ne
    · rw [← h.nodeId]
      exact .inl rfl
  heard := by
    intro id hmem
    rw [haddr]
    obtain ⟨e, he, rfl⟩ := h.heard id hmem
    by_cases heq : e.1 = t.nodeId
    · exact ⟨(t.nodeId, addr), Lists.mem_assign.2 (.inl rfl), heq.symm⟩
    · exact ⟨e, Lists.mem_assign.2 (.inr ⟨heq, he⟩), rfl⟩
  only := by
    intro e he
    rw [haddr, Lists.mem_assign] at he
    rw [numberAddrs_concat, List.mem_append, List.mem_singleton, ← h.nodeId]
    rcases he with rfl | ⟨-, he⟩
    · exact .inl (.inr rfl)
    · exact (h.only e he).imp_left .inl

theorem Tracks.appendMaster (h : t.Tracks addrs ids) (ipPort : String) :
    (t.appendMaster ipPort).Tracks (addrs ++ [ipPort]) ids := by
  refine h.next ?_ rfl rfl
  show ((t.masterId ++ [t.nodeId]) ++ (t.serverId ++ t.agentId)).Perm _
  rw [List.append_assoc]
  exact List.perm_middle

theorem Tracks.appendServer (h : t.Tracks addrs ids) (ip : String) (port : Int) :
    (t.appendServer ip port).Tracks (addrs ++ [ip ++ ":" ++ toString port]) ids := by
  refine h.next ?_ rfl rfl
  show (t.masterId ++ ((t.serverId ++ [t.nodeId]) ++ t.agentId)).Perm _
  rw [List.append_assoc, List.singleton_append, ← List.append_assoc]
  exact List.perm_middle.trans (by rw [List.append_assoc])

theorem Tracks.appendAgent (h : t.Tracks addrs ids) (ip : String) (port : Int) :
    (t.appendAgent ip port).Tracks (addrs ++ [ip ++ ":" ++ toString port]) ids := by
  refine h.next ?_ rfl rfl
  show (t.masterId ++ (t.serverId ++ (t.agentId ++ [t.nodeId]))).Perm _
  rw [← List.append_assoc t.serverId, ← List.append_assoc]
  exact List.perm_append_singleton _ _

/-- A heartbeat puts its sender into the map. -/
theorem Tracks.getIp (h : t.Tracks addrs ids) (id : Int) :
    (t.getIp id).1.Tracks addrs (ids ++ [id]) := by
  have hwider : ∀ e ∈ t.idToAddr, e ∈ numberAddrs addrs ∨ e.1 ∈ ids ++ [id] := fun e he ↦
    (h.only e he).imp_right (List.mem_append_left _)
  rw [TaskConfig.getIp]
  split
  · rename_i e hfind
    refine { h with heard := fun id' hmem ↦ ?_, only := hwider }
    rcases List.mem_append.1 hmem with hmem | hmem
    · exact h.heard id' hmem
    · rw [List.mem_singleton] at hmem
      exact ⟨e, List.mem_of_find?_eq_some hfind, by simpa [hmem] using List.find?_some hfind⟩
  · rename_i hfind
    rw [List.find?_eq_none] at hfind
    refine { h with
      nodupKeys := ?_
      registered := fun e he ↦ List.mem_append_left _ (h.registered e he)
      heard := fun id' hmem ↦ ?_
      only := fun e he ↦ ?_ }
    · rw [List.map_append, List.map_singleton, ← List.concat_eq_append]
      refine h.nodupKeys.concat fun hmem ↦ ?_
      obtain ⟨e, he, heq⟩ := List.mem_map.1 hmem
      exact hfind e he (by simpa using heq)
    · rcases List.mem_append.1 hmem with hmem | hmem
      · obtain ⟨e, he, heq⟩ := h.heard id' hmem
        exact ⟨e, List.mem_append_left _ he, heq⟩
      · exact ⟨(id, ""), List.mem_append_right _ (List.mem_singleton_self _),
          (List.mem_singleton.1 hmem).symm⟩
    · rcases List.mem_append.1 he with he | he
      · exact hwider e he
      · rw [List.mem_singleton.1 he]
        exact .inr (List.mem_append_right _ (List.mem_singleton_self _))

theorem removeNode_masterId {node : Int} (h : t.removeNode node = .ok t') :
    t'.masterId = t.masterId := by
  rw [removeNode] at h
  split at h
  · cases h
    rfl
  · split at h
    · dsimp only at h
      split at h
      · cases h
        rfl
      · simp at h
    · cases h
      rfl

theorem fixConfig_masterId {dead : List Int} (h : t.fixConfig dead = .ok t') :
    t'.masterId = t.masterId := by
  rw [fixConfig] at h
  split at h
  · cases h
    rfl
  · refine Checked.foldlM_keeps (P := fun t' : TaskConfig ↦ t'.masterId = t.masterId) ?_ ?_ h
    · exact fun x node y hx hy ↦ (removeNode_masterId hy).trans hx
    · rfl

theorem Tracks.fixConfig (h : t.Tracks addrs ids) {dead : List Int}
    (ht' : t.fixConfig dead = .ok t') : t'.Tracks addrs ids := by
  have hwithout := fixConfig_without h.nodup.of_append_right ht'
  have hsub : (t'.masterId ++ (t'.serverId ++ t'.agentId)).Sublist
      (t.masterId ++ (t.serverId ++ t.agentId)) := by
    rw [fixConfig_masterId ht']
    exact (List.Sublist.refl _).append hwithout.sublist
  exact {
    nodeId := hwithout.nodeId.trans h.nodeId
    handedOut := fun id hmem ↦ by
      rw [hwithout.nodeId]
      exact h.handedOut id (hsub.subset hmem)
    nodup := h.nodup.sublist hsub
    nodupKeys := by rw [hwithout.idToAddr]; exact h.nodupKeys
    registered := by rw [hwithout.idToAddr]; exact h.registered
    heard := by rw [hwithout.idToAddr]; exact h.heard
    only := by rw [hwithout.idToAddr]; exact h.only }

/-- The map is what it should be if and only if the senders of all heartbeats have their ids. -/
theorem Tracks.perm_iff (h : t.Tracks addrs ids) :
    t.idToAddr.Perm (numberAddrs addrs) ↔ ∀ id ∈ ids, 0 ≤ id ∧ id < addrs.length := by
  constructor
  · intro hperm id hmem
    obtain ⟨e, he, rfl⟩ := h.heard id hmem
    exact lt_of_mem_numberAddrs (hperm.subset he)
  · intro hids
    refine (List.perm_ext_iff_of_nodup h.nodupKeys.of_map (nodup_numberAddrs addrs).of_map).2
      fun e ↦ ⟨fun he ↦ ?_, h.registered e⟩
    rcases h.only e he with hmem | hmem
    · exact hmem
    · -- the entry of a sender that has its id is the one that was registered
      obtain ⟨hnonneg, hlt⟩ := hids e.1 hmem
      have hlt' : e.1.toNat < addrs.length := by omega
      have hreg : (e.1, addrs[e.1.toNat]) ∈ numberAddrs addrs :=
        mem_numberAddrs.2 ⟨e.1.toNat, (Int.toNat_of_nonneg hnonneg).symm,
          List.getElem?_eq_getElem hlt'⟩
      have heq := List.inj_on_of_nodup_map h.nodupKeys he (h.registered _ hreg) rfl
      rwa [heq]

end TaskConfig

namespace Master

variable {F : Type} {f : Flags}

@[simp, grind =] theorem addresses_concat (calls : List (ConfigCall F)) (call : ConfigCall F) :
    addresses (calls ++ [call]) = addresses calls ++ call.address.toList := by
  rw [addresses, List.filterMap_append]
  rfl

@[simp, grind =] theorem senders_concat (calls : List (ConfigCall F)) (call : ConfigCall F) :
    senders (calls ++ [call]) = senders calls ++ call.sender.toList := by
  rw [senders, List.filterMap_append]
  rfl

theorem apply_tracks {m m' : Master} {calls : List (ConfigCall F)} {call : ConfigCall F}
    (h : m.config.Tracks (addresses calls) (senders calls)) (hm' : call.apply m = .ok m') :
    m'.config.Tracks (addresses (calls ++ [call])) (senders (calls ++ [call])) := by
  rw [addresses_concat, senders_concat]
  cases call with
  | appendMaster ipPort =>
    cases hm'
    simpa [ConfigCall.address, ConfigCall.sender, Option.toList] using h.appendMaster ipPort
  | appendServer ip port =>
    cases hm'
    simpa [ConfigCall.address, ConfigCall.sender, Option.toList] using h.appendServer ip port
  | appendAgent ip port =>
    cases hm'
    simpa [ConfigCall.address, ConfigCall.sender, Option.toList] using h.appendAgent ip port
  | generatePartition draw =>
    cases hm'
    simpa [ConfigCall.address, ConfigCall.sender, Option.toList] using
      (⟨h.nodeId, h.handedOut, h.nodup, h.nodupKeys, h.registered, h.heard, h.only⟩ :
        (m.config.generatePartition draw).Tracks (addresses calls) (senders calls))
  | processHeartbeatMsg now msg =>
    rw [ConfigCall.apply, processHeartbeatMsg] at hm'
    split at hm'
    · simp at hm'
    · split at hm'
      · cases hm'
        simpa [ConfigCall.address, ConfigCall.sender, Option.toList] using h.getIp msg.sendId
      · simp at hm'
  | fixConfig dead =>
    rw [ConfigCall.apply, Checked.bind_eq_ok] at hm'
    obtain ⟨config, hconfig, hm'⟩ := hm'
    cases hm'
    simpa [ConfigCall.address, ConfigCall.sender, Option.toList] using h.fixConfig hconfig

theorem calls_track {calls : List (ConfigCall F)} : ∀ {m : Master},
    calls.foldlM ConfigCall.apply { config := TaskConfig.initializeConfig f } = .ok m →
      m.config.Tracks (addresses calls) (senders calls) := by
  induction calls using List.reverseRecOn with
  | nil =>
    intro m hm
    cases hm
    exact TaskConfig.tracks_initializeConfig f
  | append_singleton calls call ih =>
    intro m hm
    rw [List.foldlM_append, Checked.bind_eq_ok] at hm
    obtain ⟨m₁, hm₁, hm⟩ := hm
    rw [List.foldlM_cons, Checked.bind_eq_ok] at hm
    obtain ⟨m₂, hm₂, hm⟩ := hm
    cases hm
    exact apply_tracks (ih hm₁) hm₂

/-- **Addresses stay with their ids as long as no stranger is heard of.**  After any calls, the ids
have been handed out without gaps, no id is in two lists, and the message that `ToMessage` builds
has exactly one address for every id, the one registered for it, if and only if every heartbeat came
from an id that has been handed out by now. -/
theorem addresses_iff (f : Flags) (calls : List (ConfigCall F)) {m : Master}
    (hm : calls.foldlM ConfigCall.apply { config := TaskConfig.initializeConfig f } = .ok m) :
    m.AddressesOk (addresses calls) ↔
      ∀ id ∈ senders calls, 0 ≤ id ∧ id < (addresses calls).length := by
  have h := calls_track hm
  rw [← h.perm_iff]
  constructor
  · rintro ⟨-, -, -, c, hc, haddr⟩
    rw [TaskConfig.toMessage, Checked.bind_eq_ok] at hc
    obtain ⟨as, has, hc⟩ := hc
    cases hc
    -- the map has an entry for each id, and no more entries than ids
    have hlen : m.config.idToAddr.length ≤ (TaskConfig.numberAddrs (addresses calls)).length := by
      rw [TaskConfig.length_numberAddrs, ← TaskConfig.length_nodeIpPort has]
      exact (congrArg List.length haddr).le
    have hsub := List.subperm_of_subset
      (TaskConfig.nodup_numberAddrs (addresses calls)).of_map h.registered
    exact (hsub.perm_of_length_le hlen).symm
  · intro hperm
    refine ⟨h.nodeId, h.handedOut, h.nodup, ?_⟩
    rw [TaskConfig.toMessage, TaskConfig.nodeIpPort_eq hperm, Checked.ok_bind]
    exact ⟨_, rfl, rfl⟩

/-- A heartbeat from a node. -/
def heartbeatOf (id : Int) : ConfigCall Int :=
  .processHeartbeatMsg 0 { sendId := id, recvId := 0, messageType := .heartbeat,
                           heartbeatMsg := some ⟨true, 0⟩ }

/-- Even a heartbeat that is early does no harm once its sender has registered. -/
theorem addresses_iff_early : ∃ m,
    [.appendMaster "10.0.0.1:16666", heartbeatOf 1, .appendServer "10.0.0.2" 1,
        .appendAgent "10.0.0.3" 2, heartbeatOf 2, .fixConfig [2]].foldlM ConfigCall.apply
      { config := TaskConfig.initializeConfig smallFlags } = .ok m ∧
    m.AddressesOk ["10.0.0.1:16666", "10.0.0.2:1", "10.0.0.3:2"] :=
  ⟨_, rfl, (addresses_iff smallFlags [.appendMaster "10.0.0.1:16666", heartbeatOf 1,
    .appendServer "10.0.0.2" 1, .appendAgent "10.0.0.3" 2, heartbeatOf 2, .fixConfig [2]] rfl).2
    (by decide)⟩

/-- A node that has not registered sends a heartbeat, and the next configuration lists an address
for it. -/
theorem stranger_gets_address : ∃ m c,
    [.appendMaster "10.0.0.1:16666", .appendServer "10.0.0.2" 1, .appendAgent "10.0.0.3" 2,
        heartbeatOf 3].foldlM ConfigCall.apply
      { config := TaskConfig.initializeConfig smallFlags } = .ok m ∧
    m.config.toMessage = .ok c ∧
    c.nodeIpPort = ["10.0.0.1:16666", "10.0.0.2:1", "10.0.0.3:2", ""] ∧
    ¬ m.AddressesOk ["10.0.0.1:16666", "10.0.0.2:1", "10.0.0.3:2"] := by
  refine ⟨_, _, rfl, rfl, rfl, fun h ↦ ?_⟩
  obtain ⟨c, hc, haddr⟩ := h.message
  cases hc
  exact absurd haddr (by decide)

end Master

end Rpscc
