import Mathlib.Data.List.Basic
import Rpscc.Agent.Agent
import Rpscc.Master.TaskConfig
import Rpscc.Server.Basic

/-!
# Filling an address book

The nodes enter the addresses of a configuration into their communicators one by one, and
`AddIdAddr` keeps the address an id already has.  So what counts is the first entry of an id
(`idToAddr_addAll`), which for the nodes is the one `Initialize` makes for the master.

* `Server.idToAddr_addAddresses`: a server then knows the address of every node.
* `Agent.addServers_ok`: an agent knows those of the servers.
-/

set_option autoImplicit false

namespace Rpscc

namespace Communicator

/-- `AddIdAddr` for some pairs. -/
def addAll (c : Communicator) (es : List (Int × String)) : Communicator :=
  es.foldl (fun c e ↦ c.addIdAddr e.1 e.2) c

theorem addAll_concat (c : Communicator) (es : List (Int × String)) (e : Int × String) :
    c.addAll (es ++ [e]) = (c.addAll es).addIdAddr e.1 e.2 :=
  List.foldl_concat ..

@[simp] theorem idToAddr_addIdAddr (c : Communicator) (id id' : Int) (addr : String) :
    (c.addIdAddr id addr).idToAddr id'
      = (c.idToAddr id').or (if id' = id then some addr else none) := by
  rw [addIdAddr]
  by_cases heq : id' = id
  · subst heq
    cases hold : c.idToAddr id' with
    | none => simp
    | some addr' => simp [hold]
  · rw [if_neg heq, Option.or_none]
    cases hold : c.idToAddr id with
    | none => exact Function.update_of_ne heq _ _
    | some addr' => rfl

/-- An id has the address it had, or the first that is added for it. -/
@[simp] theorem idToAddr_addAll (c : Communicator) (es : List (Int × String)) (id : Int) :
    (c.addAll es).idToAddr id = (c.idToAddr id).or (es.lookup id) := by
  induction es generalizing c with
  | nil => exact (Option.or_none ..).symm
  | cons e es ih =>
    rw [addAll, List.foldl_cons]
    refine (ih (c.addIdAddr e.1 e.2)).trans ?_
    rw [idToAddr_addIdAddr, List.lookup_cons, Option.or_assoc]
    by_cases heq : id = e.1
    · subst heq
      simp
    · rw [if_neg heq, Option.none_or, beq_false_of_ne heq]

end Communicator

/-- What `Initialize` of a server sets apart from the range. -/
theorem Server.initializeServer_members {F : Type} [FloatOps F] {masterIpPort : String}
    {recvId : Int} {config : ConfigMessage} {s : Server F}
    (h : initializeServer masterIpPort recvId config = .ok s) :
    s.localId = recvId ∧ s.keyRange = config.keyRange ∧ s.sender
      = addAddresses (Communicator.empty.addIdAddr 0 masterIpPort) config.nodeIpPort := by
  rw [initializeServer] at h
  split at h
  · simp at h
  · rw [Checked.bind_eq_ok] at h
    obtain ⟨l, -, h⟩ := h
    split at h
    · simp at h
    · rw [Checked.bind_eq_ok] at h
      obtain ⟨m, -, h⟩ := h
      cases h
      exact ⟨rfl, rfl, rfl⟩

/-- The addresses of a configuration are entered under their positions, but for the first. -/
theorem Server.idToAddr_addAddresses {c : Communicator} {addrs : List String} {i : ℕ}
    {addr : String} (hi : 0 < i) (hc : c.idToAddr i = none) (haddr : addrs[i]? = some addr) :
    (addAddresses c addrs).idToAddr i = some addr := by
  have heq : addAddresses c addrs
      = c.addAll ((TaskConfig.numberAddrs addrs).filter fun e ↦ decide (e.1 ≠ 0)) := by
    rw [addAddresses, Communicator.addAll, List.foldl_filter, TaskConfig.numberAddrs,
      List.mapIdx_eq_zipIdx_map, List.foldl_map]
    refine List.foldl_ext _ _ _ fun c e _ ↦ ?_
    by_cases he : e.2 = 0
    · simp [he]
    · simp [he]
  have hmem : ((i : Int), addr) ∈
      (TaskConfig.numberAddrs addrs).filter fun e ↦ decide (e.1 ≠ 0) := by
    refine List.mem_filter.2 ⟨TaskConfig.mem_numberAddrs.2 ⟨i, rfl, haddr⟩, ?_⟩
    exact decide_eq_true (by simp only [ne_eq]; omega)
  have hnodup : (((TaskConfig.numberAddrs addrs).filter fun e ↦ decide (e.1 ≠ 0)).map
      Prod.fst).Nodup :=
    (TaskConfig.nodup_numberAddrs addrs).sublist (List.filter_sublist.map _)
  rw [heq, Communicator.idToAddr_addAll, hc, Option.none_or, Lists.lookup_of_mem hnodup hmem]

/-- `Initialize` of an agent enters the addresses of the servers. -/
theorem Agent.addServers_ok {config : ConfigMessage} {c : Communicator}
    (hnum : config.serverNum = config.serverId.length)
    (haddr : ∀ id ∈ config.serverId, ∃ addr, Checked.get config.nodeIpPort id = .ok addr) :
    ∃ es : List (Int × String),
      (List.range config.serverNum.toNat).foldlM (addServer config) ([], c)
        = .ok (config.serverId, c.addAll es) ∧
      es.map Prod.fst = config.serverId ∧
      ∀ e ∈ es, Checked.get config.nodeIpPort e.1 = .ok e.2 := by
  have hfold : ∃ r, (List.range config.serverNum.toNat).foldlM (addServer config) ([], c) = .ok r ∧
      ∃ es : List (Int × String),
        r = (config.serverId.take config.serverNum.toNat, c.addAll es) ∧
        es.map Prod.fst = config.serverId.take config.serverNum.toNat ∧
        ∀ e ∈ es, Checked.get config.nodeIpPort e.1 = .ok e.2 := by
    refine Checked.foldlM_range_ok (P := fun m (r : List Int × Communicator) ↦
      ∃ es : List (Int × String), r = (config.serverId.take m, c.addAll es) ∧
        es.map Prod.fst = config.serverId.take m ∧
        ∀ e ∈ es, Checked.get config.nodeIpPort e.1 = .ok e.2) ?_ ?_
    · exact ⟨[], rfl, rfl, by simp⟩
    · rintro i hi y ⟨es, rfl, hes, hget⟩
      have hi' : i < config.serverId.length := by omega
      obtain ⟨addr, haddr⟩ := haddr _ (List.getElem_mem hi')
      refine ⟨(config.serverId.take (i + 1), c.addAll (es ++ [(config.serverId[i], addr)])), ?_,
        es ++ [(config.serverId[i], addr)], rfl, ?_, ?_⟩
      · rw [addServer, Checked.get_natCast (List.getElem?_eq_getElem hi'), Checked.ok_bind, haddr,
          Checked.ok_bind, ← List.take_append_getElem hi', Communicator.addAll_concat]
      · rw [List.map_append, hes, ← List.take_append_getElem hi']
        rfl
      · intro e he
        rcases List.mem_append.1 he with he | he
        · exact hget e he
        · rw [List.mem_singleton.1 he]
          exact haddr
  obtain ⟨r, hr, es, rfl, hes, hget⟩ := hfold
  have hall : config.serverId.take config.serverNum.toNat = config.serverId := by
    rw [hnum, Int.toNat_natCast, List.take_length]
  rw [hall] at hr hes
  exact ⟨es, hr, hes, hget⟩

end Rpscc
