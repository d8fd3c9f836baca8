import Rpscc.Communication.AddressBook
import Rpscc.Master.Roster

/-!
# The address book of the master

Before `MainLoop` delivers the configuration it enters two addresses for every node into its
communicator: under the id of the node the one that it has registered with, and under the id plus
`--max_cluster_node` the one of its heartbeats, at the next port.  As long as there are no more ids
than `--max_cluster_node` the two do not get into each other's way (`Master.book_ok`).
-/

set_option autoImplicit false

namespace Rpscc

namespace Master

variable {f : Flags} {masters : List String} {regs : List RegisterMessage} {m : Master}
  {maxClusterNode : Int} {next : String → String}

/-- One pass of the loop of `MainLoop` that enters the addresses. -/
def enterAddrs (maxClusterNode : Int) (c : Communicator) (e : Int × String) :
    Except Fault Communicator := do
  let addr ← heartbeatAddr e.2
  let id ← Checked.int32 (e.1 + maxClusterNode)
  .ok ((c.addIdAddr e.1 e.2).addIdAddr id addr)

/-- The addresses that `MainLoop` enters before it delivers the configuration. -/
def book (maxClusterNode : Int) (m : Master) : Except Fault Communicator :=
  m.config.idToAddr.foldlM (enterAddrs maxClusterNode) Communicator.empty

theorem enterAddrs_fold : ∀ {es : List (Int × String)} {c : Communicator},
    (∀ e ∈ es, heartbeatAddr e.2 = .ok (next e.2) ∧ Checked.IsInt32 (e.1 + maxClusterNode)) →
    es.foldlM (enterAddrs maxClusterNode) c
      = .ok (c.addAll (es.flatMap fun e ↦ [e, (e.1 + maxClusterNode, next e.2)]))
  | [], _, _ => rfl
  | e :: es, c, h => by
    obtain ⟨hnext, hint⟩ := h e List.mem_cons_self
    rw [List.foldlM_cons, enterAddrs, hnext, Checked.ok_bind, Checked.int32_of_isInt32 hint,
      Checked.ok_bind, Checked.ok_bind,
      enterAddrs_fold fun e' he ↦ h e' (List.mem_cons_of_mem _ he)]
    rfl

/-- An id of a node is none for heartbeats. -/
theorem lookup_flatMap_book {i : Int} : ∀ {es : List (Int × String)},
    (∀ e ∈ es, i ≠ e.1 + maxClusterNode) →
    (es.flatMap fun e ↦ [e, (e.1 + maxClusterNode, next e.2)]).lookup i = es.lookup i := by
  intro es
  induction es with
  | nil => exact fun _ ↦ rfl
  | cons e es ih =>
    intro h
    rw [List.flatMap_cons, List.cons_append, List.lookup_cons, List.cons_append, List.lookup_cons,
      beq_false_of_ne (h e List.mem_cons_self), List.nil_append, List.lookup_cons,
      ih fun e he ↦ h e (List.mem_cons_of_mem _ he)]

/-- **Every id has the address of its node**, as long as the ids stay below those for the
heartbeats, and the ports can be read from the addresses. -/
theorem book_ok (h : TaskConfig.Roster f masters regs m.config) (haddr : Addressed masters regs)
    (hsmall : (masters.length + regs.length : ℕ) ≤ maxClusterNode)
    (hint : maxClusterNode + (masters.length + regs.length : ℕ) ≤ 2147483648) :
    ∃ b, m.book maxClusterNode = .ok b ∧ ∀ i < masters.length + regs.length,
      b.idToAddr (i : ℕ) = (masters ++ regs.map RegisterMessage.address)[i]? := by
  choose! next hnext using haddr
  have hes : ∀ e ∈ m.config.idToAddr, ∃ j : ℕ, e.1 = j ∧ j < masters.length + regs.length ∧
      e.2 ∈ masters ++ regs.map RegisterMessage.address := by
    intro e he
    rw [h.addresses, TaskConfig.mem_numberAddrs] at he
    obtain ⟨j, hj, hget⟩ := he
    have hlt := (List.getElem?_eq_some_iff.1 hget).1
    rw [List.length_append, List.length_map] at hlt
    exact ⟨j, hj, hlt, List.mem_of_getElem? hget⟩
  have hpass : ∀ e ∈ m.config.idToAddr,
      heartbeatAddr e.2 = .ok (next e.2) ∧ Checked.IsInt32 (e.1 + maxClusterNode) := by
    intro e he
    obtain ⟨j, hj, hlt, hmem⟩ := hes e he
    refine ⟨hnext e.2 hmem, ?_⟩
    rw [Checked.IsInt32]
    omega
  refine ⟨_, enterAddrs_fold hpass, fun i hi ↦ ?_⟩
  have hlen : i < (masters ++ regs.map RegisterMessage.address).length := by
    rwa [List.length_append, List.length_map]
  have hbig : ∀ e ∈ m.config.idToAddr, (i : Int) ≠ e.1 + maxClusterNode := by
    intro e he
    obtain ⟨j, hj, -⟩ := hes e he
    omega
  have hmem : ((i : Int), (masters ++ regs.map RegisterMessage.address)[i])
      ∈ m.config.idToAddr := by
    rw [h.addresses]
    exact TaskConfig.mem_numberAddrs.2 ⟨i, rfl, List.getElem?_eq_getElem hlen⟩
  have hnodup : (m.config.idToAddr.map Prod.fst).Nodup :=
    h.addresses ▸ TaskConfig.nodup_numberAddrs _
  rw [Communicator.idToAddr_addAll, lookup_flatMap_book hbig,
    Lists.lookup_of_mem hnodup hmem, List.getElem?_eq_getElem hlen]
  rfl

end Master

end Rpscc
